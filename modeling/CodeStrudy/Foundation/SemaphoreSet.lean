import Mathlib.Data.Nat.Notation
import Mathlib.Logic.Function.Basic

/-!
# System V semaphore sets

The semaphore sets of the kernel, by identifier.  An operation names a set and a semaphore in it; it
fails when there is no such set or semaphore, and taking from a semaphore at zero blocks.  An
operation on one set leaves the others as they are.
-/

namespace CodeStrudy
namespace Foundation

/-- The semaphore sets that exist, by identifier. -/
def SemSets := ℕ → Option (List ℕ)

/-- What becomes of a `semop` with one operation. -/
inductive SemOp where
  | blocked
  | failed
  | done (sems : SemSets)

namespace SemSets

variable (k : SemSets) (id num : ℕ)

/-- The value of a semaphore, if there is such a one. -/
def value : Option ℕ := (k id).bind fun vals => vals[num]?

/-- A new set of `n` semaphores, all zero. -/
def create (n : ℕ) : SemSets := Function.update k id (some (List.replicate n 0))

/-- `IPC_RMID`. -/
def remove : SemSets := Function.update k id none

/-- A semaphore gets a new value. -/
def setVal (v : ℕ) : SemSets := Function.update k id ((k id).map fun vals => vals.set num v)

/-- `semop` with `sem_op = -1`. -/
def take : SemOp :=
  match k.value id num with
  | none => .failed
  | some 0 => .blocked
  | some (v + 1) => .done (k.setVal id num v)

/-- `semop` with `sem_op = 1`. -/
def give : SemOp :=
  match k.value id num with
  | none => .failed
  | some v => .done (k.setVal id num (v + 1))

variable {k id num}

@[simp] theorem create_self (n : ℕ) : k.create id n id = some (List.replicate n 0) :=
  Function.update_self ..

@[simp] theorem remove_self : k.remove id id = none := Function.update_self ..

@[simp] theorem setVal_self (v : ℕ) :
    k.setVal id num v id = (k id).map fun vals => vals.set num v :=
  Function.update_self ..

theorem remove_of_ne {id' : ℕ} (h : id' ≠ id) : k.remove id id' = k id' :=
  Function.update_of_ne h ..

theorem setVal_of_ne {id' : ℕ} (h : id' ≠ id) (v : ℕ) : k.setVal id num v id' = k id' :=
  Function.update_of_ne h ..

section

variable {vals : List ℕ} {v : ℕ}

theorem value_of_eq (h : k id = some vals) : k.value id num = vals[num]? := by
  rw [value, h, Option.bind_some]

theorem take_of_zero (h : k id = some vals) (hv : vals[num]? = some 0) :
    k.take id num = .blocked := by
  rw [take, value_of_eq h, hv]

theorem take_of_succ (h : k id = some vals) (hv : vals[num]? = some (v + 1)) :
    k.take id num = .done (k.setVal id num v) := by
  rw [take, value_of_eq h, hv]

theorem give_of_eq (h : k id = some vals) (hv : vals[num]? = some v) :
    k.give id num = .done (k.setVal id num (v + 1)) := by
  rw [give, value_of_eq h, hv]

theorem take_of_eq_none (h : k id = none) : k.take id num = .failed := by
  rw [take, value, h, Option.bind_none]

theorem give_of_eq_none (h : k id = none) : k.give id num = .failed := by
  rw [give, value, h, Option.bind_none]

end

/-- An operation leaves the other sets as they are. -/
theorem take_of_ne {k' : SemSets} (h : k.take id num = .done k') {id' : ℕ} (hne : id' ≠ id) :
    k' id' = k id' := by
  unfold take at h
  split at h <;> cases h
  exact setVal_of_ne hne _

theorem give_of_ne {k' : SemSets} (h : k.give id num = .done k') {id' : ℕ} (hne : id' ≠ id) :
    k' id' = k id' := by
  unfold give at h
  split at h <;> cases h
  exact setVal_of_ne hne _

end SemSets

end Foundation
end CodeStrudy
