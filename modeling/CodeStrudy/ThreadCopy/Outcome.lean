import CodeStrudy.ThreadCopy.Copy

/-!
# How the threaded file copy ends

`practice/53.1`, when calls fail.  What `read` returns is handed over as the length, -1 as well;
what `write` returns is not looked at; `main` exits with `EXIT_SUCCESS` whenever it has left its
loop; and the destination is opened without `O_TRUNC`.

## What is proved

* `handoverSound`: the program simulates the hand-over through one slot along the steps that meet
  `Sound`, whatever `read` would return later.
* `outcome`: so in every run of such steps, to a destination that held no more bytes than the
  source, a successful exit leaves a copy, and no failure of `read` is handed over.
-/

namespace CodeStrudy
namespace ThreadCopy

open Foundation

/-! ## The property -/

/-- The steps whose calls do what they should: those of `Assumed`, and a `read` that does not
fail. -/
def Sound (s : State) (a : Label) : Prop :=
  Assumed s a ∧ (a = .main → s.main = .read → s.reads.head? ≠ some .error)

instance (s : State) (a : Label) : Decidable (Sound s a) :=
  inferInstanceAs (Decidable (_ ∧ (_ → _ → _)))

/-- `main` is behind its last `read` and does not hand over what it has read. -/
def MainPc.stopping : MainPc → Bool
  | .store | .testLen | .postEnd | .join | .exited _ => true
  | _ => false

/-- What the exit status and the length stand for. -/
structure Outcome (source : List UInt8) (results : List ReadResult) (s : State) : Prop where
  content_eq : s.main = .exited true → s.fdWrite.content = source
  /-- While the thread is at `Gbuf`, the length is one. -/
  len_nonneg : s.thread.atGbuf = true → 0 ≤ s.Gbuf.len.toInt
  /-- Once a `read` has failed, `main` stops and the thread does not write. -/
  stopping_of_error : .error ∈ results.take (results.length - s.reads.length) →
    s.main.stopping = true ∧ s.thread ≠ .write

/-! ## The file and the lengths -/

/-- What holds besides the hand-over and `Inv`. -/
structure Kept (prev : List UInt8) (s : State) : Prop where
  fdWrite_eq : s.fdWrite = s.written.foldl .write (.opened prev)
  joined : s.main = .exited true → s.thread = .exited
  readRet_nonneg : 0 ≤ s.readRet.toInt
  len_nonneg : 0 ≤ s.Gbuf.len.toInt

theorem kept_initial (reads : List ReadResult) (prev : List UInt8) :
    Kept prev (initial reads prev) where
  fdWrite_eq := rfl
  joined h := by cases h
  readRet_nonneg := le_rfl
  len_nonneg := le_rfl

section Steps

variable {prev : List UInt8} {s s' : State}

/-- A step of `main` that is not its last one. -/
theorem Kept.of_main (hs : Kept prev s) (hmain : s'.main ≠ .exited true)
    (hfile : s'.fdWrite = s.fdWrite) (hwritten : s'.written = s.written)
    (hret : 0 ≤ s'.readRet.toInt) (hlen : 0 ≤ s'.Gbuf.len.toInt) : Kept prev s' where
  fdWrite_eq := by rw [hfile, hwritten, hs.fdWrite_eq]
  joined h := absurd h hmain
  readRet_nonneg := hret
  len_nonneg := hlen

theorem Kept.mainSetup {ok : Bool} (hs : Kept prev s) (h : mainSetup s ok = some s') :
    Kept prev s' := by
  cases ok <;> cases hm : s.main <;> simp only [ThreadCopy.mainSetup, hm] at h <;> cases h <;>
    exact hs.of_main (by simp) rfl rfl hs.readRet_nonneg hs.len_nonneg

theorem Kept.mainWait {r : WaitResult} (hs : Kept prev s) (h : mainWait s r = some s') :
    Kept prev s' := by
  obtain ⟨-, ⟨-, -, rfl⟩ | ⟨-, rfl⟩ | ⟨-, rfl⟩⟩ := mainWait_cases h
  · exact hs.of_main (by simp) rfl rfl hs.readRet_nonneg hs.len_nonneg
  · exact hs
  · exact hs.of_main (by simp) rfl rfl hs.readRet_nonneg hs.len_nonneg

/-- A `read` that does not fail returns a length, and `main` exits when the thread has. -/
theorem Kept.mainStep
    (hread : s.main = .read →
      ∀ r ∈ s.reads.head?, ∃ bs, r = .data bs ∧ bs ≠ [] ∧ bs.length ≤ 1024)
    (hs : Kept prev s) (h : mainStep s = some s') : Kept prev s' := by
  cases hm : s.main <;> simp only [ThreadCopy.mainStep, hm] at h
  case read =>
    cases hreads : s.reads with
    | nil =>
      simp only [hreads, Option.some.injEq] at h
      subst h
      exact hs.of_main (by simp) rfl rfl le_rfl hs.len_nonneg
    | cons r rs =>
      obtain ⟨bs, rfl, -, hlen⟩ := hread hm r (by rw [hreads]; rfl)
      simp only [hreads, Option.some.injEq] at h
      subst h
      refine hs.of_main (by simp) rfl rfl ?_ hs.len_nonneg
      show 0 ≤ (BitVec.ofNat 32 bs.length).toInt
      rw [CInt.toInt_ofNat_of_lt (by omega)]
      exact Int.natCast_nonneg _
  case testLen =>
    cases h
    refine hs.of_main ?_ rfl rfl hs.readRet_nonneg hs.len_nonneg
    dsimp only
    split <;> simp
  case join =>
    obtain ⟨hthread, h⟩ := Option.ite_none_right_eq_some.mp h
    obtain rfl := Option.some.inj h
    exact ⟨hs.fdWrite_eq, fun _ => hthread, hs.readRet_nonneg, hs.len_nonneg⟩
  case store =>
    cases h
    exact hs.of_main (by simp) rfl rfl hs.readRet_nonneg hs.readRet_nonneg
  case errLen =>
    cases h
    exact hs.of_main (by simp) rfl rfl hs.readRet_nonneg le_rfl
  case postEnd | post | errPost =>
    cases h
    exact hs.of_main (by simp) rfl rfl hs.readRet_nonneg hs.len_nonneg
  all_goals cases h

/-- A step of a thread that has not exited. -/
theorem Kept.of_thread (hs : Kept prev s) (ht : s.thread ≠ .exited) (hmain : s'.main = s.main)
    (hret : s'.readRet = s.readRet) (hlen : s'.Gbuf = s.Gbuf)
    (hfile : s'.fdWrite = s'.written.foldl .write (.opened prev)) : Kept prev s' where
  fdWrite_eq := hfile
  joined h := absurd (hs.joined (hmain ▸ h)) ht
  readRet_nonneg := hret ▸ hs.readRet_nonneg
  len_nonneg := hlen ▸ hs.len_nonneg

theorem Kept.threadWait {r : WaitResult} (hs : Kept prev s) (h : threadWait s r = some s') :
    Kept prev s' := by
  obtain ⟨ht, hcases⟩ := threadWait_cases h
  have hne : s.thread ≠ .exited := by simp [ht]
  obtain ⟨-, -, rfl⟩ | ⟨-, rfl⟩ | ⟨-, rfl⟩ := hcases
  · exact hs.of_thread hne rfl rfl rfl hs.fdWrite_eq
  · exact hs
  · exact hs.of_thread hne rfl rfl rfl hs.fdWrite_eq

theorem Kept.threadWrite {r : WriteResult} (hs : Kept prev s) (h : threadWrite s r = some s') :
    Kept prev s' := by
  obtain ⟨ht, hcases⟩ := threadWrite_cases h
  have hne : s.thread ≠ .exited := by simp [ht]
  obtain ⟨count, -, -, rfl⟩ | ⟨-, rfl⟩ := hcases
  · refine hs.of_thread hne rfl rfl rfl ?_
    rw [List.foldl_append, ← hs.fdWrite_eq]
    rfl
  · exact hs.of_thread hne rfl rfl rfl hs.fdWrite_eq

theorem Kept.threadStep (hs : Kept prev s) (h : threadStep s = some s') : Kept prev s' := by
  cases ht : s.thread <;> simp only [ThreadCopy.threadStep, ht] at h <;> cases h <;>
    exact hs.of_thread (by simp [ht]) rfl rfl rfl hs.fdWrite_eq

/-- **One step.** -/
theorem Kept.step {a : Label}
    (hread : a = .main → s.main = .read →
      ∀ r ∈ s.reads.head?, ∃ bs, r = .data bs ∧ bs ≠ [] ∧ bs.length ≤ 1024)
    (hs : Kept prev s) (h : step s a = some s') : Kept prev s' := by
  cases a with
  | mainSetup ok => exact hs.mainSetup h
  | mainWait r => exact hs.mainWait h
  | main => exact hs.mainStep (hread rfl) h
  | threadWait r => exact hs.threadWait h
  | threadWrite r => exact hs.threadWrite h
  | thread => exact hs.threadStep h

end Steps

/-! ## The hand-over, as long as no `read` fails -/

/-- What the next `read` of a step that meets `Sound` returns. -/
theorem Sound.exists_data {source : List UInt8} (t : ReadTrace 1024 source) {s : State} {a : Label}
    (ha : Sound s a) (hI : Inv t.results s) (hmain : a = .main) (hm : s.main = .read) :
    ∀ r ∈ s.reads.head?, ∃ bs, r = .data bs ∧ bs ≠ [] ∧ bs.length ≤ 1024 := by
  intro r hr
  refine t.exists_data_of_mem (hI.mem_of_mem_head? hr) ?_
  rintro rfl
  exact ha.2 hmain hm hr

/-- Along the steps that meet `Sound`, the program simulates the hand-over through one slot. -/
def handoverSound {source : List UInt8} (t : ReadTrace 1024 source) (prev : List UInt8) :
    Machine.Simulation (machine t.results prev) Sound (OneSlot.machine (List UInt8)) where
  rel s u := u = s.abs ∧ Inv t.results s ∧ Kept prev s
  init s hs := by
    subst hs
    exact ⟨_, rfl, (abs_initial t.results prev).symm, inv_initial t.results prev,
      kept_initial t.results prev⟩
  step s u a s' hu hrel ha h := by
    obtain ⟨rfl, hI, hK⟩ := hrel
    have hread := ha.exists_data t hI
    obtain ⟨hmatched, hI'⟩ := step_matched hread ha.1 (OneSlot.phase_of_reachable hu) hI h
    have hK' := hK.step hread h
    rcases hmatched with habs | ⟨b, hb⟩
    · exact Or.inl ⟨habs.symm, hI', hK'⟩
    · exact Or.inr ⟨b, s'.abs, hb, rfl, hI', hK'⟩

/-! ## How it ends -/

/-- As long as no `read` has failed, the results so far are the pieces read. -/
theorem error_notMem_take {results : List ReadResult} {s : State} (hI : Inv results s) :
    .error ∉ results.take (results.length - s.reads.length) := by
  have hlen : results.length - s.reads.length = (s.chunks.map ReadResult.data).length := by
    rw [← hI.reads_eq, List.length_append, Nat.add_sub_cancel]
  rw [hlen, ← hI.reads_eq, List.take_left]
  simp

/-- **How the threaded copy ends.**  For every source, every way `read` splits it into pieces and
every interleaving: as long as no `read` fails, every `write` is complete and `sem_wait` fails only
with `EINTR`, and if the destination held no more bytes than the source, an exit with `EXIT_SUCCESS`
leaves the source in the destination and no failure of `read` is handed over. -/
theorem outcome {source : List UInt8} (t : ReadTrace 1024 source) {prev : List UInt8}
    (hprev : prev.length ≤ source.length) {s : State}
    (h : (machine t.results prev).ReachableUnder Sound s) : Outcome source t.results s := by
  obtain ⟨_, hreach, rfl, hI, hK⟩ := (handoverSound t prev).exists_reachable h
  refine ⟨fun hexit => ?_, fun _ => hK.len_nonneg, fun herr => absurd herr (error_notMem_take hI)⟩
  have hcopied := copied_of_inv t hreach hI
  obtain ⟨-, hflatten⟩ := hcopied.complete (by rw [hexit]; rfl) (hK.joined hexit)
  rw [hK.fdWrite_eq, ← hflatten, OpenFile.content_foldl_write_opened_eq_iff, hflatten]
  exact hprev

/-- The calls of a copy of one byte, for what the `write` of that byte returns. -/
def oneByte (r : WriteResult) : List Label :=
  [.mainSetup true, .mainSetup true, .mainSetup true, .mainSetup true, .mainSetup true,
    .mainWait .ok, .main, .main, .main, .main, .threadWait .ok, .thread, .thread, .threadWrite r,
    .thread, .mainWait .ok, .main, .main, .main, .main, .threadWait .ok, .thread, .thread, .main]

/-- A copy of one byte over another one. -/
theorem outcome_one_byte :
    ∃ s, (machine [.data [7]] [9]).ReachableUnder Sound s ∧ s.main = .exited true ∧
      Outcome [7] [.data [7]] s := by
  have hrun := (Machine.ReachableUnder.init (M := machine [.data [7]] [9]) (C := Sound) rfl).run
    (oneByte (.wrote 1)) (by decide) rfl
  exact ⟨_, hrun, rfl, outcome ⟨[.data [7]], by decide, by simp, rfl⟩ (by decide) hrun⟩

/-- A `write` that fails: the program exits with success and has copied nothing. -/
theorem not_outcome : ¬ ∀ (source : List UInt8) (t : ReadTrace 1024 source) (prev : List UInt8)
    (s : State), (machine t.results prev).Reachable s → Outcome source t.results s := by
  intro h
  have hrun := (Machine.Reachable.init (M := machine [.data [7]] []) rfl).run (oneByte .error) rfl
  have hout := h [7] ⟨[.data [7]], by decide, by simp, rfl⟩ [] _ hrun
  exact absurd (hout.content_eq rfl) (by decide)

end ThreadCopy
end CodeStrudy
