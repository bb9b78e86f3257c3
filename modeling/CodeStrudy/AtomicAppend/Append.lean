import CodeStrudy.Foundation.FileIO
import CodeStrudy.Foundation.Machine
import Mathlib.Algebra.BigOperators.Group.Finset.Piecewise
import Mathlib.Data.Fintype.Basic

/-!
# Appending from several processes

`practice/5.3/atomic_append.c` appends bytes to a file one at a time.  It opens the file with
`O_APPEND`, so that every `write` goes to the end; with an `x` among its arguments it opens it
without, and seeks to the end before every `write`.  Any number of processes run it on one file,
each with its own file offset.  A seek and a write are two steps, and other processes may write
between them.

## What is proved

* `appended_iff`: when all processes have exited successfully the file has grown by the sum of their
  byte counts exactly if every write that follows a seek was still at the end of the file.
* `appended_of_append`: it always has when no process is called with `x`.
-/

namespace CodeStrudy
namespace AtomicAppend

open Foundation

/-- What a process is called with: `num-bytes`, as `atoll` returns it, and whether there is an
`x`. -/
structure Args where
  count : ℤ
  uselseek : Bool
  deriving DecidableEq

/-- Where a process is: at its `open`; at the head of its loop, up to the `lseek`; at its `write`;
past its exit, successful or not. -/
inductive Pc where
  | open
  | loop
  | write
  | exited
  | failed
  deriving DecidableEq

/-- A process: where it is, its file offset, and how many bytes it is still to write. -/
structure Proc where
  pc : Pc
  offset : ℕ
  count : ℤ
  deriving DecidableEq

/-- The file and the processes. -/
structure State (ι : Type*) where
  file : List UInt8
  proc : ι → Proc

/-- The next step of process `i`; `ok` says whether its system call succeeds. -/
structure Label (ι : Type*) where
  i : ι
  ok : Bool

variable {ι : Type*}

/-- The byte that is written: `x`. -/
def byte : UInt8 := 0x78

/-- Before any process has started. -/
def initial (args : ι → Args) (file : List UInt8) : State ι :=
  ⟨file, fun i => ⟨.open, 0, (args i).count⟩⟩

/-- The offset that a `write` of process `i` goes to: with `O_APPEND` it is the end. -/
def State.writeOffset (args : ι → Args) (s : State ι) (i : ι) : ℕ :=
  if (args i).uselseek then (s.proc i).offset else s.file.length

section Program

variable [DecidableEq ι]

/-- Process `i` is now `p`, and the file is `file`. -/
def State.update (s : State ι) (i : ι) (p : Proc) (file : List UInt8) : State ι :=
  ⟨file, Function.update s.proc i p⟩

/-- Process `i` is now `p`. -/
def State.set (s : State ι) (i : ι) (p : Proc) : State ι := s.update i p s.file

/-- A step of `main` in process `i`. -/
def main (args : ι → Args) (s : State ι) (i : ι) (ok : Bool) : Option (State ι) :=
  match (s.proc i).pc with
  | .open => some (s.set i { s.proc i with pc := if ok then .loop else .failed })
  | .loop =>
    if 0 < (s.proc i).count then
      if (args i).uselseek then
        some (s.set i (if ok then { s.proc i with pc := .write, offset := s.file.length }
          else { s.proc i with pc := .failed }))
      else some (s.set i { s.proc i with pc := .write })
    else some (s.set i { s.proc i with pc := .exited })
  | .write =>
    if ok then
      some (s.update i ⟨.loop, s.writeOffset args i + 1, (s.proc i).count - 1⟩
        (writeAt s.file (s.writeOffset args i) [byte]))
    else some (s.set i { s.proc i with pc := .failed })
  | .exited | .failed => none

/-- The processes, called with `args` on one file. -/
def machine (args : ι → Args) (file : List UInt8) : Machine (State ι) (Label ι) where
  init s := s = initial args file
  step s a := main args s a.i a.ok

end Program

/-- A write that follows a seek is still at the end of the file. -/
def AtEnd (args : ι → Args) (s : State ι) (a : Label ι) : Prop :=
  (s.proc a.i).pc = .write → a.ok = true → (args a.i).uselseek = true →
    (s.proc a.i).offset = s.file.length

instance (args : ι → Args) (s : State ι) (a : Label ι) : Decidable (AtEnd args s a) :=
  inferInstanceAs (Decidable (_ → _ → _ → _))

/-! ## What a step can do -/

/-- What holds in every state reached: no offset is behind the end, who is to write has a byte left,
and who has exited has none. -/
structure Inv (s : State ι) : Prop where
  offset_le : ∀ i, (s.proc i).offset ≤ s.file.length
  write : ∀ i, (s.proc i).pc = .write → 0 < (s.proc i).count
  exited : ∀ i, (s.proc i).pc = .exited → (s.proc i).count ≤ 0

theorem inv_initial (args : ι → Args) (file : List UInt8) : Inv (initial args file) where
  offset_le _ := Nat.zero_le _
  write _ h := nomatch h
  exited _ h := nomatch h

variable {args : ι → Args} {s t : State ι} {i : ι} {ok : Bool}

theorem writeOffset_le (hI : Inv s) : s.writeOffset args i ≤ s.file.length := by
  unfold State.writeOffset
  split
  · exact hI.offset_le i
  · exact le_rfl

/-- A write is at the end exactly if its step meets `AtEnd`. -/
theorem atEnd_iff (hpc : (s.proc i).pc = .write) :
    AtEnd args s ⟨i, true⟩ ↔ s.writeOffset args i = s.file.length := by
  unfold State.writeOffset
  by_cases hseek : (args i).uselseek = true
  · rw [if_pos hseek]
    exact ⟨fun h => h hpc rfl hseek, fun h _ _ _ => h⟩
  · rw [if_neg hseek]
    exact iff_of_true (fun _ _ h => absurd h hseek) rfl

variable [DecidableEq ι]

/-- Where a process may move to without a write. -/
structure Moved (s : State ι) (i : ι) (p : Proc) : Prop where
  count : p.count = (s.proc i).count
  offset : p.offset = (s.proc i).offset ∨ p.offset = s.file.length
  write : p.pc = .write → 0 < p.count
  exited : p.pc = .exited → p.count ≤ 0

/-- Everything a step can do. -/
inductive Effect (args : ι → Args) (s : State ι) (i : ι) : Bool → State ι → Prop
  | move {ok : Bool} {p : Proc} : (s.proc i).pc ≠ .write ∨ ok = false → Moved s i p →
      Effect args s i ok (s.set i p)
  | write : (s.proc i).pc = .write → Effect args s i true
      (s.update i ⟨.loop, s.writeOffset args i + 1, (s.proc i).count - 1⟩
        (writeAt s.file (s.writeOffset args i) [byte]))

theorem effect_of_main (h : main args s i ok = some t) : Effect args s i ok t := by
  unfold main at h
  split at h
  all_goals rename_i hpc
  · rw [← Option.some.inj h]
    refine .move (Or.inl (by simp [hpc])) ⟨rfl, Or.inl rfl, ?_, ?_⟩
    all_goals rcases ok with _ | _ <;> exact fun h => nomatch h
  · have hne : (s.proc i).pc ≠ .write := by simp [hpc]
    split at h
    · rename_i hpos
      split at h
      · rw [← Option.some.inj h]
        rcases ok with _ | _
        · exact .move (Or.inl hne) ⟨rfl, Or.inl rfl, (fun h => nomatch h), fun h => nomatch h⟩
        · exact .move (Or.inl hne) ⟨rfl, Or.inr rfl, fun _ => hpos, fun h => nomatch h⟩
      · rw [← Option.some.inj h]
        exact .move (Or.inl hne) ⟨rfl, Or.inl rfl, fun _ => hpos, fun h => nomatch h⟩
    · rename_i hzero
      rw [← Option.some.inj h]
      exact .move (Or.inl hne) ⟨rfl, Or.inl rfl, (fun h => nomatch h), fun _ => not_lt.mp hzero⟩
  · rcases ok with _ | _
    · rw [if_neg Bool.false_ne_true] at h
      rw [← Option.some.inj h]
      exact .move (Or.inr rfl) ⟨rfl, Or.inl rfl, (fun h => nomatch h), fun h => nomatch h⟩
    · rw [if_pos rfl] at h
      rw [← Option.some.inj h]
      exact .write hpc
  · cases h
  · cases h

/-- No file gets shorter, and the process that moves is as it should be. -/
theorem Inv.update (hI : Inv s) {p : Proc} {file : List UInt8}
    (hfile : s.file.length ≤ file.length) (hoffset : p.offset ≤ file.length)
    (hwrite : p.pc = .write → 0 < p.count) (hexited : p.pc = .exited → p.count ≤ 0) :
    Inv (s.update i p file) := by
  have hproc : ∀ j, (s.update i p file).proc j = if j = i then p else s.proc j := fun j =>
    Function.update_apply ..
  refine ⟨fun j => ?_, fun j => ?_, fun j => ?_⟩
  all_goals rw [hproc j]; split
  · exact hoffset
  · exact (hI.offset_le j).trans hfile
  · exact hwrite
  · exact hI.write j
  · exact hexited
  · exact hI.exited j

theorem inv_step (s : State ι) (a : Label ι) (t : State ι) (hI : Inv s)
    (h : main args s a.i a.ok = some t) : Inv t := by
  rcases a with ⟨i, ok⟩
  have heffect := effect_of_main h
  cases heffect with
  | move hpc hp =>
    refine hI.update le_rfl ?_ hp.write hp.exited
    rcases hp.offset with h | h
    · exact h.le.trans (hI.offset_le i)
    · exact h.le
  | write hpc =>
    have hlen := length_writeAt s.file (s.writeOffset args i) (List.cons_ne_nil byte [])
    refine hI.update ?_ ?_ (fun h => nomatch h) fun h => nomatch h
    · exact hlen ▸ le_max_left _ _
    · exact hlen ▸ le_max_right _ _

/-! ## The bytes written and to be written -/

variable [Fintype ι]

/-- The bytes still to be written. -/
def State.remaining (s : State ι) : ℕ := ∑ i, (s.proc i).count.toNat

/-- The length that the file has when all of them are written without loss. -/
def State.total (s : State ι) : ℕ := s.file.length + s.remaining

/-- The sum changes by what changes at the process that moves. -/
theorem remaining_update {p : Proc} {f : List UInt8} :
    (s.update i p f).remaining + (s.proc i).count.toNat = s.remaining + p.count.toNat := by
  have hcount : (fun j => ((s.update i p f).proc j).count.toNat) =
      Function.update (fun j => (s.proc j).count.toNat) i p.count.toNat := by
    ext j
    exact Function.apply_update (fun _ q => q.count.toNat) s.proc i p j
  have hsum := Finset.add_sum_erase Finset.univ (fun j => (s.proc j).count.toNat)
    (Finset.mem_univ i)
  unfold State.remaining
  rw [hcount, Finset.sum_update_of_mem (Finset.mem_univ i), Finset.sdiff_singleton_eq_erase]
  omega

theorem total_move {p : Proc} (hp : Moved s i p) : (s.set i p).total = s.total := by
  have hsum := remaining_update (s := s) (i := i) (p := p) (f := s.file)
  rw [hp.count] at hsum
  exact congrArg (s.file.length + ·) (Nat.add_right_cancel hsum)

/-- A write keeps the total if it is at the end, and loses its byte otherwise. -/
theorem total_write (args : ι → Args) (hI : Inv s) (hpc : (s.proc i).pc = .write) :
    (s.update i ⟨.loop, s.writeOffset args i + 1, (s.proc i).count - 1⟩
      (writeAt s.file (s.writeOffset args i) [byte])).total +
        (if s.writeOffset args i = s.file.length then 0 else 1) = s.total := by
  have hpos := hI.write i hpc
  have hle : s.writeOffset args i ≤ s.file.length := writeOffset_le hI
  have hsum : _ + (s.proc i).count.toNat = s.remaining + ((s.proc i).count - 1).toNat :=
    remaining_update (p := ⟨.loop, s.writeOffset args i + 1, (s.proc i).count - 1⟩)
      (f := writeAt s.file (s.writeOffset args i) [byte])
  have hlen : (writeAt s.file (s.writeOffset args i) [byte]).length =
      max s.file.length (s.writeOffset args i + 1) :=
    length_writeAt s.file _ (List.cons_ne_nil byte [])
  unfold State.total
  show (writeAt s.file (s.writeOffset args i) [byte]).length + _ + _ = _
  rw [hlen]
  split
  · omega
  · omega

/-- **What a step does to the total**: it stays if the step meets `AtEnd`, and is one less
otherwise. -/
theorem total_step {a : Label ι} (hI : Inv s) (h : main args s a.i a.ok = some t) :
    (AtEnd args s a → t.total = s.total) ∧ (¬ AtEnd args s a → t.total + 1 = s.total) := by
  rcases a with ⟨i, ok⟩
  have heffect := effect_of_main h
  cases heffect with
  | move hpc hp =>
    refine ⟨fun _ => total_move hp, fun hno => ?_⟩
    obtain ⟨hwrite, hno⟩ := Classical.not_imp.mp hno
    obtain ⟨hok, -⟩ := Classical.not_imp.mp hno
    rcases hpc with hpc | hpc
    · exact absurd hwrite hpc
    · exact absurd (hok.symm.trans hpc) (by decide)
  | write hpc =>
    have htotal := total_write args hI hpc
    constructor
    · intro hend
      rwa [if_pos ((atEnd_iff hpc).mp hend)] at htotal
    · intro hno
      rwa [if_neg fun h => hno ((atEnd_iff hpc).mpr h)] at htotal

/-! ## The result -/

omit [DecidableEq ι] in
theorem total_initial (args : ι → Args) (file : List UInt8) :
    (initial args file).total = file.length + ∑ i, (args i).count.toNat := rfl

omit [DecidableEq ι] in
theorem remaining_of_exited (hI : Inv s) (h : ∀ i, (s.proc i).pc = .exited) : s.remaining = 0 :=
  Finset.sum_eq_zero fun i _ => Int.toNat_of_nonpos (hI.exited i (h i))

/-- Nothing is lost in a run exactly if all its steps meet `AtEnd`. -/
theorem total_iff_respects (args : ι → Args) (file : List UInt8) {as : List (Label ι)}
    (hrun : (machine args file).run (initial args file) as = some s) :
    s.total = (initial args file).total ↔
      (machine args file).Respects (AtEnd args) (initial args file) as := by
  let goal := (initial args file).total
  refine Machine.run_good_iff_respects (M := machine args file)
    (I := fun s => Inv s ∧ s.total ≤ goal) (G := fun s => s.total = goal) ?_ ?_ ?_ as
    ⟨inv_initial args file, le_rfl⟩ rfl hrun
  · intro s a t hs h
    obtain ⟨hsame, hless⟩ := total_step hs.1 h
    refine ⟨inv_step s a t hs.1 h, ?_⟩
    by_cases hend : AtEnd args s a
    · exact (hsame hend).trans_le hs.2
    · have hlt := hless hend
      exact (Nat.le_of_lt (by omega)).trans hs.2
  · intro s a t hs hgood h
    obtain ⟨hsame, hless⟩ := total_step hs.1 h
    by_cases hend : AtEnd args s a
    · exact iff_of_true ((hsame hend).trans hgood) hend
    · have hlt := hless hend
      exact iff_of_false (by omega) hend
  · intro s a t hs hbad h
    obtain ⟨hsame, hless⟩ := total_step hs.1 h
    have hle : s.total ≤ goal := hs.2
    by_cases hend : AtEnd args s a
    · exact fun hgood => hbad ((hsame hend).symm.trans hgood)
    · have hlt := hless hend
      omega

/-- When all processes have exited, the total is the length of the file. -/
theorem length_eq_total (args : ι → Args) (file : List UInt8) {as : List (Label ι)}
    (hrun : (machine args file).run (initial args file) as = some s)
    (hdone : ∀ i, (s.proc i).pc = .exited) : s.file.length = s.total := by
  have hI : Inv s := Machine.run_keeps (M := machine args file) (I := fun _ => True)
    (fun _ _ _ _ _ => trivial) (fun s a t _ hs h => inv_step s a t hs h) as trivial
    (inv_initial args file) hrun
  rw [State.total, remaining_of_exited hI hdone, Nat.add_zero]

/-- **When nothing is lost.**  For any number of processes, with any byte counts, each with or
without `x`, and every order of their seeks and writes: when all have exited successfully, the file
is longer than initially by the sum of the counts exactly if every write that follows a seek was
still at the end of the file. -/
theorem appended_iff (args : ι → Args) (file : List UInt8) {as : List (Label ι)}
    (hrun : (machine args file).run (initial args file) as = some s)
    (hdone : ∀ i, (s.proc i).pc = .exited) :
    s.file.length = file.length + ∑ i, (args i).count.toNat ↔
      (machine args file).Respects (AtEnd args) (initial args file) as := by
  rw [length_eq_total args file hrun hdone, ← total_initial]
  exact total_iff_respects args file hrun

/-- Processes without `x` lose nothing, whatever their order. -/
theorem appended_of_append {args : ι → Args} (hargs : ∀ i, (args i).uselseek = false)
    (file : List UInt8) {as : List (Label ι)}
    (hrun : (machine args file).run (initial args file) as = some s)
    (hdone : ∀ i, (s.proc i).pc = .exited) :
    s.file.length = file.length + ∑ i, (args i).count.toNat := by
  rw [length_eq_total args file hrun hdone, ← total_initial]
  refine (total_iff_respects args file hrun).mpr (Machine.respects_of_forall ?_ _ as)
  intro s a _ _ hseek
  exact absurd (hseek.symm.trans (hargs a.i)) (by decide)

/-- Two processes that append a byte each, the first of them with `x`. -/
def oneEach (i : Fin 2) : Args := ⟨1, i = 0⟩

/-- They run one after the other from their `open` on. -/
def inTurn : List (Label (Fin 2)) :=
  [⟨0, true⟩, ⟨1, true⟩, ⟨0, true⟩, ⟨0, true⟩, ⟨0, true⟩, ⟨1, true⟩, ⟨1, true⟩, ⟨1, true⟩]

/-- Nobody comes between the seek and the write. -/
theorem appended_two_processes : ∃ s,
    (machine oneEach []).run (initial oneEach []) inTurn = some s ∧
    (∀ i, (s.proc i).pc = .exited) ∧
    (s.file.length = ([] : List UInt8).length + ∑ i, (oneEach i).count.toNat ↔
      (machine oneEach []).Respects (AtEnd oneEach) (initial oneEach []) inTurn) := by
  refine ⟨_, rfl, ?hdone, appended_iff oneEach [] rfl ?hdone⟩
  decide

/-- Two processes with `x` seek before either of them writes: one byte is overwritten. -/
theorem not_appended : ¬ ∀ (n : ℕ) (args : Fin n → Args) (file : List UInt8)
    (as : List (Label (Fin n))) (s : State (Fin n)),
      (machine args file).run (initial args file) as = some s →
      (∀ i, (s.proc i).pc = .exited) →
      s.file.length = file.length + ∑ i, (args i).count.toNat := by
  intro h
  have hlen := h 2 (fun _ => ⟨1, true⟩) []
    [⟨0, true⟩, ⟨1, true⟩, ⟨0, true⟩, ⟨1, true⟩, ⟨0, true⟩, ⟨1, true⟩, ⟨0, true⟩, ⟨1, true⟩] _ rfl
    (by decide)
  exact absurd hlen (by decide)

end AtomicAppend
end CodeStrudy
