import Mathlib.Logic.Function.Basic
import Mathlib.Data.Option.Basic

/-!
# Exclusive file locks

`flock` with `LOCK_EX`: a file's exclusive lock is held by at most one open file description, a call
for a lock that another one holds blocks, and the lock goes when its description is closed for the
last time.  Nothing in this file names a program.
-/

namespace CodeStrudy
namespace Foundation

/-- For each file the open file description that holds its exclusive lock. -/
abbrev FileLocks (φ δ : Type*) := φ → Option δ

namespace FileLocks

variable {φ δ : Type*} {l l' : FileLocks φ δ} {f g : φ} {d e : δ}

/-- Nothing is locked. -/
def free : FileLocks φ δ := fun _ => none

/-- The descriptions that meet `p` are closed. -/
def close (l : FileLocks φ δ) (p : δ → Prop) [DecidablePred p] : FileLocks φ δ :=
  fun f => (l f).filter fun d => ¬ p d

theorem close_eq_some_iff {p : δ → Prop} [DecidablePred p] :
    l.close p f = some d ↔ l f = some d ∧ ¬ p d := by
  simp [close, Option.filter_eq_some_iff]

variable [DecidableEq φ] [DecidableEq δ]

/-- `flock(d, LOCK_EX)` on the file `f`; `none` is a call that blocks. -/
def lockEx (l : FileLocks φ δ) (f : φ) (d : δ) : Option (FileLocks φ δ) :=
  if l f = none ∨ l f = some d then some (Function.update l f (some d)) else none

/-- **A lock is granted if no other description holds it**, and is held from then on. -/
theorem lockEx_eq_some_iff :
    l.lockEx f d = some l' ↔
      (l f = none ∨ l f = some d) ∧ l' = Function.update l f (some d) := by
  rw [lockEx, Option.ite_none_right_eq_some, Option.some.injEq, eq_comm (a := l')]

theorem lockEx_eq_none_iff : l.lockEx f d = none ↔ ∃ e, l f = some e ∧ e ≠ d := by
  unfold lockEx
  cases h : l f with
  | none => simp
  | some e => simp

/-- Who holds what after a lock has been granted. -/
theorem eq_some_iff_of_lockEx (h : l.lockEx f d = some l') :
    l' g = some e ↔ g = f ∧ e = d ∨ l g = some e := by
  obtain ⟨hfree, rfl⟩ := lockEx_eq_some_iff.mp h
  by_cases hg : g = f
  · subst hg
    rw [Function.update_self, Option.some.injEq, eq_comm (a := d)]
    rcases hfree with hnone | hown
    · simp [hnone]
    · simp [hown, eq_comm (a := d)]
  · simp [hg]

end FileLocks

end Foundation
end CodeStrudy
