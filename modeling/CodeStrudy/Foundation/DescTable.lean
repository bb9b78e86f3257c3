import Mathlib.Data.Nat.Find
import Mathlib.Logic.Function.Basic

/-!
# Tables of descriptors

What each descriptor of a process refers to, if it is open.  Only finitely many are open, so there
is always a lowest free one, which is the one that a new object gets.  Nothing in this file names a
program.

## What is proved

* `close_alloc`: an object that is opened and closed again leaves the table as it was.
-/

namespace CodeStrudy
namespace Foundation

/-- The open descriptors of a process and what they refer to. -/
@[ext] structure DescTable (α : Type*) where
  /-- What a descriptor refers to. -/
  get : ℕ → Option α
  /-- Only finitely many descriptors are open. -/
  finite : ∃ n, ∀ m, n ≤ m → get m = none

namespace DescTable

variable {α : Type*}

/-- The table of a process with no descriptor open. -/
def empty : DescTable α := ⟨fun _ => none, 0, fun _ _ => rfl⟩

theorem exists_free (t : DescTable α) : ∃ n, (t.get n).isNone := by
  obtain ⟨n, hn⟩ := t.finite
  exact ⟨n, by rw [hn n (Nat.le_refl n)]; rfl⟩

/-- The lowest descriptor that is not open. -/
def lowestFree (t : DescTable α) : ℕ := Nat.find t.exists_free

theorem get_lowestFree (t : DescTable α) : t.get t.lowestFree = none :=
  Option.isNone_iff_eq_none.mp (Nat.find_spec t.exists_free)

/-- Descriptor `n` refers to `x` from now on, or is closed. -/
def set (t : DescTable α) (n : ℕ) (x : Option α) : DescTable α where
  get := Function.update t.get n x
  finite := by
    obtain ⟨b, hb⟩ := t.finite
    refine ⟨max b (n + 1), fun m hm => ?_⟩
    rw [Function.update_of_ne (by omega)]
    exact hb m (by omega)

@[simp] theorem get_set_self (t : DescTable α) (n : ℕ) (x : Option α) : (t.set n x).get n = x :=
  Function.update_self ..

theorem set_set (t : DescTable α) (n : ℕ) (x y : Option α) : (t.set n x).set n y = t.set n y := by
  refine DescTable.ext ?_
  show Function.update (Function.update t.get n x) n y = _
  rw [Function.update_idem]
  rfl

/-- A new object at the lowest free descriptor. -/
def alloc (t : DescTable α) (a : α) : DescTable α := t.set t.lowestFree (some a)

/-- What is opened can be changed, or closed again. -/
theorem set_alloc (t : DescTable α) (a : α) (x : Option α) :
    (t.alloc a).set t.lowestFree x = t.set t.lowestFree x :=
  set_set t _ _ _

/-- An object that is opened and closed again leaves the table as it was. -/
theorem close_alloc (t : DescTable α) (a : α) : (t.alloc a).set t.lowestFree none = t := by
  refine DescTable.ext ?_
  rw [set_alloc]
  show Function.update t.get t.lowestFree none = t.get
  rw [← t.get_lowestFree, Function.update_eq_self]

end DescTable

end Foundation
end CodeStrudy
