import CodeStrudy.SharedMemory.Relation

/-!
# The transfer over shared memory: two sets

When `semget` has returned another identifier than zero, the writer works on a set that the reader
does not see.  Nobody posts on the reader's set, and the reader waits.
-/

namespace CodeStrudy
namespace SharedMemory

open Foundation

variable {results : List ReadResult} {s s' : State} {t : OneSlot.State (List UInt8)}

/-- What a step of the writer leaves as it is for a reader of another set, and what it says about
the segment. -/
structure WriterEffect (s s' : State) : Prop where
  sems : ∀ id, id ≠ semId → s'.sems id = s.sems id
  semKey : ∀ id, id ≠ semId → s.semKey = some id → s'.semKey = some id
  reader : s'.reader = s.reader
  readerSemId : s'.readerSemId = s.readerSemId
  out : s'.out = s.out
  errorExit : s.writer.errorExit = true → s'.writer.errorExit = true
  pastShmRmid : s'.writer.pastShmRmid = true → s.writer = .shmRmid ∨ s.writer.pastShmRmid = true
  shmKey : s'.shmKey = false → s.shmKey = false ∨ s.writer = .shmRmid ∨
    s.writer.pastShmRmid = true ∨ s'.writer.errorExit = true

/-- A step to another point of the writer that is not on its way out. -/
theorem WriterEffect.goto (hsems : ∀ id, id ≠ semId → s'.sems id = s.sems id)
    (hkey : s'.semKey = s.semKey) (hreader : s'.reader = s.reader)
    (hid : s'.readerSemId = s.readerSemId) (hout : s'.out = s.out) (hshm : s'.shmKey = s.shmKey)
    (herr : s.writer.errorExit = false) (hpast : s'.writer.pastShmRmid = false) :
    WriterEffect s s' where
  sems := hsems
  semKey id _ h := hkey.trans h
  reader := hreader
  readerSemId := hid
  out := hout
  errorExit h := by simp [herr] at h
  pastShmRmid h := by simp [hpast] at h
  shmKey h := Or.inl (hshm.symm.trans h)

theorem writerEffect_mutexInit {num v : ℕ} {next : State} (herr : s.writer.errorExit = false)
    (hnext : next.writer.pastShmRmid = false) (hkey : next.semKey = s.semKey)
    (hreader : next.reader = s.reader) (hid : next.readerSemId = s.readerSemId)
    (hout : next.out = s.out) (hshm : next.shmKey = s.shmKey) :
    WriterEffect s (mutexInit s num v next) := by
  unfold mutexInit
  split
  · exact .goto (fun id h => SemSets.setVal_of_ne h v) hkey hreader hid hout hshm herr hnext
  · exact .goto (fun _ _ => rfl) rfl rfl rfl rfl rfl herr rfl

theorem writerEffect_semop {op : SemOp} {pc : WriterPc}
    (hop : ∀ sems, op = .done sems → ∀ id, id ≠ semId → sems id = s.sems id)
    (herr : s.writer.errorExit = false) (hpc : pc.pastShmRmid = false)
    (h : writerSemop s op pc = some s') : WriterEffect s s' := by
  unfold writerSemop at h
  split at h
  · cases h
  · cases h
    exact .goto (fun _ _ => rfl) rfl rfl rfl rfl rfl herr rfl
  · cases h
    exact .goto (hop _ rfl) rfl rfl rfl rfl rfl herr hpc

theorem semKey_removeSem {id : ℕ} (hne : id ≠ semId) (hkey : s.semKey = some id) :
    s.removeSem.semKey = some id := by
  show (if s.semKey = some semId then none else s.semKey) = some id
  rw [hkey, if_neg fun h => hne (Option.some.inj h)]

theorem writerEffect_writerStep (h : writerStep s = some s') : WriterEffect s s' := by
  cases hw : s.writer <;> simp only [writerStep, hw] at h
  case initRead | initWrite =>
    cases h
    exact writerEffect_mutexInit (by rw [hw]; rfl) rfl rfl rfl rfl rfl rfl
  case get =>
    exact writerEffect_semop (fun _ hop _ hne => SemSets.take_of_ne hop hne) (by rw [hw]; rfl) rfl h
  case put | putEnd =>
    exact writerEffect_semop (fun _ hop _ hne => SemSets.give_of_ne hop hne) (by rw [hw]; rfl) rfl h
  case read =>
    split at h <;> cases h <;>
      exact .goto (fun _ _ => rfl) rfl rfl rfl rfl rfl (by rw [hw]; rfl) rfl
  case store | addNum =>
    cases h
    exact .goto (fun _ _ => rfl) rfl rfl rfl rfl rfl (by rw [hw]; rfl) rfl
  case testLength =>
    cases h
    exact .goto (fun _ _ => rfl) rfl rfl rfl rfl rfl (by rw [hw]; rfl)
      (by dsimp only; split <;> rfl)
  case shmRmid =>
    cases h
    exact ⟨fun _ _ => rfl, fun _ _ h => h, rfl, rfl, rfl, by simp [hw, WriterPc.errorExit],
      fun _ => Or.inl hw, fun _ => Or.inr (Or.inl hw)⟩
  case semRmid =>
    cases h
    exact ⟨fun _ hne => SemSets.remove_of_ne hne, fun _ hne hkey => semKey_removeSem hne hkey,
      rfl, rfl, rfl, by simp [hw, WriterPc.errorExit], fun _ => Or.inr (by rw [hw]; rfl), Or.inl⟩
  case onExitShm success =>
    cases h
    cases success with
    | true =>
      exact ⟨fun _ _ => rfl, fun _ _ h => h, rfl, rfl, rfl, by simp [hw, WriterPc.errorExit],
        fun _ => Or.inr (by rw [hw]; rfl), fun _ => Or.inr (Or.inr (Or.inl (by rw [hw]; rfl)))⟩
    | false =>
      exact ⟨fun _ _ => rfl, fun _ _ h => h, rfl, rfl, rfl, fun _ => rfl,
        by simp [WriterPc.pastShmRmid], fun _ => Or.inr (Or.inr (Or.inr rfl))⟩
  case onExitSem success =>
    cases h
    cases success with
    | true =>
      exact ⟨fun _ hne => SemSets.remove_of_ne hne, fun _ hne hkey => semKey_removeSem hne hkey,
        rfl, rfl, rfl, by simp [hw, WriterPc.errorExit], fun _ => Or.inr (by rw [hw]; rfl), Or.inl⟩
    | false =>
      exact ⟨fun _ hne => SemSets.remove_of_ne hne, fun _ hne hkey => semKey_removeSem hne hkey,
        rfl, rfl, rfl, fun _ => rfl, by simp [WriterPc.pastShmRmid], Or.inl⟩
  all_goals cases h

theorem apart_of_writerEffect (hA : Apart s) (hE : WriterEffect s s')
    (hrmid : s.writer = .shmRmid → s.reader.attached = true) : Apart s' := by
  obtain ⟨id, hne, hkey, hsems, hget⟩ := hA.sems
  have hpast : s'.writer.pastShmRmid = true → s'.reader.attached = true := fun h => by
    rw [hE.reader]
    rcases hE.pastShmRmid h with hw | hpast
    · exact hrmid hw
    · exact hA.removed hpast
  refine ⟨⟨id, hne, hE.semKey id hne hkey, (hE.sems id hne).trans hsems, ?_⟩, hE.out.trans hA.out,
    ?_, hpast, ?_⟩
  · rw [hE.reader, hE.readerSemId]
    exact hget
  · intro hf
    rw [hE.reader]
    rcases hE.shmKey hf with h | h | h | h
    · rcases hA.shmKey h with herr | hatt
      · exact Or.inl (hE.errorExit herr)
      · exact Or.inr hatt
    · exact Or.inr (hrmid h)
    · exact Or.inr (hA.removed h)
    · exact Or.inl h
  · rw [hE.reader]
    exact hA.waiting

theorem writerEffect_writerCall {ok : Bool} (h : writerCall s ok = some s') :
    WriterEffect s s' := by
  cases hw : s.writer <;> simp only [writerCall, hw] at h
  case shmget =>
    cases ok <;> cases h
    · exact .goto (fun _ _ => rfl) rfl rfl rfl rfl rfl (by rw [hw]; rfl) rfl
    · exact ⟨fun _ _ => rfl, fun _ _ h => h, rfl, rfl, rfl, by simp [hw, WriterPc.errorExit],
        by simp [WriterPc.pastShmRmid], by simp⟩
  case shmat | openFile =>
    cases ok <;> cases h <;> exact .goto (fun _ _ => rfl) rfl rfl rfl rfl rfl (by rw [hw]; rfl) rfl
  all_goals cases h

/-- A reader that has not attached the segment ends with an error. -/
theorem apart_failed (hA : Apart s) (hr : s.reader.attached = false) :
    Apart { s with reader := .failed } := by
  obtain ⟨id, hne, hsemKey, hsems, -⟩ := hA.sems
  refine ⟨⟨id, hne, hsemKey, hsems, by simp⟩, hA.out, fun hkey => .inl ?_, fun h => ?_, rfl⟩
  · exact (hA.shmKey hkey).resolve_right (by simp [hr])
  · rw [hA.removed h] at hr
    cases hr

theorem apart_readerStart (hA : Apart s) (hr : s.reader = .notStarted) :
    Apart { s with reader := .shmget } := by
  obtain ⟨id, hne, hsemKey, hsems, -⟩ := hA.sems
  have hkey := hA.shmKey
  have hremoved := hA.removed
  rw [hr] at hkey hremoved
  exact ⟨⟨id, hne, hsemKey, hsems, by simp⟩, hA.out, hkey, hremoved, rfl⟩

theorem apart_readerShmat {ok : Bool} (hA : Apart s) (h : readerShmat s ok = some s') :
    Apart s' := by
  unfold readerShmat at h
  split at h
  · rename_i hr
    cases ok with
    | true =>
      cases h
      obtain ⟨id, hne, hsemKey, hsems, -⟩ := hA.sems
      exact ⟨⟨id, hne, hsemKey, hsems, by simp⟩, hA.out, fun _ => Or.inr rfl, fun _ => rfl, rfl⟩
    | false =>
      cases h
      exact apart_failed hA (by rw [hr]; rfl)
  · cases h

theorem apart_readerStep (hA : Apart s) (h : readerStep s = some s') : Apart s' := by
  obtain ⟨id, hne, hsemKey, hsems, hget⟩ := hA.sems
  have hkey := hA.shmKey
  have hremoved := hA.removed
  have hwaiting := hA.waiting
  cases hr : s.reader with
  | shmget =>
    rw [hr] at hkey hremoved
    simp only [readerStep, hr] at h
    by_cases hshm : s.shmKey = true
    · rw [if_pos hshm] at h
      cases h
      exact ⟨⟨id, hne, hsemKey, hsems, by simp⟩, hA.out, hkey, hremoved, rfl⟩
    · rw [if_neg hshm] at h
      cases h
      exact apart_failed hA (by rw [hr]; rfl)
  | semget =>
    simp only [readerStep, hr] at h
    split at h
    · rename_i id' hid'
      cases h
      have hid : id' = id := Option.some.inj (hid'.symm.trans hsemKey)
      exact ⟨⟨id, hne, hsemKey, hsems, fun _ => hid⟩, hA.out, fun _ => Or.inr rfl, fun _ => rfl,
        rfl⟩
    · rename_i hid'
      cases hid'.symm.trans hsemKey
  | get =>
    -- nobody posts on the reader's set
    have hblocked : s.sems.take id MUTEX_READ = .blocked := SemSets.take_of_zero hsems rfl
    simp only [readerStep, hr, hget hr, hblocked, readerSemop] at h
    cases h
  | testLength | addNum | write | put =>
    rw [hr] at hwaiting
    cases hwaiting
  | _ =>
    rw [readerStep, hr] at h
    cases h

end SharedMemory
end CodeStrudy
