import Mathlib.Data.List.Basic
import Mathlib.Data.Nat.Find

/-!
# Descriptor tables as lists

The descriptors of a process, the number of a descriptor being its place in the list.  Such a table
can be searched, which is what a process has to do to find the lowest free descriptor, and the
kernel to find out whether anybody has an end of a pipe open.  Nothing in this file names a program.

## What is proved

* `get_put`, `get_close`, `get_dup2`: what a descriptor refers to after a call, one equation for
  each call.
* `holds_iff`: an object is in the table exactly if some descriptor refers to it.
* `lowestFree_eq`: which descriptor is the lowest free one.
-/

namespace CodeStrudy
namespace Foundation

/-- The open descriptors of a process. -/
abbrev FdTable (α : Type*) := List (Option α)

namespace FdTable

variable {α : Type*}

/-- What a descriptor refers to, if it is open. -/
def get (t : FdTable α) (fd : ℕ) : Option α := t[fd]?.join

/-- The descriptor refers to `x` from now on. -/
def put (t : FdTable α) (fd : ℕ) (x : α) : FdTable α :=
  if fd < t.length then t.set fd (some x)
  else t ++ List.replicate (fd - t.length) none ++ [some x]

/-- `close`; a descriptor that is not open stays so. -/
def close (t : FdTable α) (fd : ℕ) : FdTable α := t.set fd none

theorem exists_free (t : FdTable α) : ∃ fd, (t.get fd).isNone :=
  ⟨t.length, by rw [get, List.getElem?_eq_none le_rfl]; rfl⟩

/-- The lowest descriptor that is not open. -/
def lowestFree (t : FdTable α) : ℕ := Nat.find t.exists_free

/-- A new object at the lowest free descriptor. -/
def alloc (t : FdTable α) (x : α) : FdTable α := t.put t.lowestFree x

/-- `dup2`; with an `old` that is not open it fails. -/
def dup2 (t : FdTable α) (old new : ℕ) : FdTable α :=
  match t.get old with
  | none => t
  | some x => t.put new x

/-- Some descriptor refers to the object. -/
def Holds (t : FdTable α) (x : α) : Prop := some x ∈ t

instance [DecidableEq α] (t : FdTable α) (x : α) : Decidable (t.Holds x) :=
  inferInstanceAs (Decidable (_ ∈ _))

theorem get_put (t : FdTable α) (fd m : ℕ) (x : α) :
    (t.put fd x).get m = if m = fd then some x else t.get m := by
  unfold put get
  split
  case isTrue hlt =>
    rw [List.getElem?_set]
    by_cases hm : m = fd
    · subst hm
      rw [if_pos rfl, if_pos hlt, if_pos rfl]
      rfl
    · rw [if_neg (Ne.symm hm), if_neg hm]
  case isFalse hge =>
    rw [Nat.not_lt] at hge
    by_cases hm : m = fd
    · subst hm
      have hlen : (t ++ List.replicate (m - t.length) none).length = m := by
        rw [List.length_append, List.length_replicate]
        omega
      rw [if_pos rfl, List.getElem?_append_right (by omega), hlen, Nat.sub_self]
      rfl
    · rw [if_neg hm, List.append_assoc]
      rcases Nat.lt_or_ge m t.length with hlt | hout
      · rw [List.getElem?_append_left hlt]
      · rw [List.getElem?_append_right hout, List.getElem?_eq_none hout]
        rcases Nat.lt_or_ge m fd with hlt | hgt
        · rw [List.getElem?_append_left (by rw [List.length_replicate]; omega),
            List.getElem?_replicate_of_lt (by omega)]
          rfl
        · have hlen : (List.replicate (fd - t.length) none ++ [some x]).length ≤ m - t.length := by
            rw [List.length_append, List.length_replicate, List.length_singleton]
            omega
          rw [List.getElem?_eq_none hlen]

theorem get_close (t : FdTable α) (fd m : ℕ) :
    (t.close fd).get m = if m = fd then none else t.get m := by
  unfold close get
  rw [List.getElem?_set]
  by_cases hm : m = fd
  · subst hm
    rw [if_pos rfl, if_pos rfl]
    split <;> rfl
  · rw [if_neg (Ne.symm hm), if_neg hm]

theorem get_dup2 (t : FdTable α) (old new m : ℕ) :
    (t.dup2 old new).get m = if m = new then (t.get old).or (t.get m) else t.get m := by
  unfold dup2
  cases h : t.get old with
  | none => exact (ite_self _).symm
  | some x => exact get_put t new m x

theorem get_lowestFree (t : FdTable α) : t.get t.lowestFree = none :=
  Option.isNone_iff_eq_none.mp (Nat.find_spec t.exists_free)

theorem get_alloc (t : FdTable α) (x : α) (m : ℕ) :
    (t.alloc x).get m = if m = t.lowestFree then some x else t.get m :=
  get_put t _ m x

/-- A new object leaves the descriptors that are open. -/
theorem get_alloc_of_eq {t : FdTable α} {m : ℕ} {x : α} (h : t.get m = some x) (y : α) :
    (t.alloc y).get m = some x := by
  rw [get_alloc, if_neg, h]
  rintro rfl
  cases h.symm.trans t.get_lowestFree

@[simp] theorem get_alloc_self (t : FdTable α) (x : α) :
    (t.alloc x).get t.lowestFree = some x := by
  rw [get_alloc, if_pos rfl]

theorem lowestFree_eq {t : FdTable α} {fd : ℕ} (hfd : t.get fd = none)
    (h : ∀ m < fd, t.get m ≠ none) : t.lowestFree = fd := by
  refine le_antisymm (Nat.find_le (Option.isNone_iff_eq_none.mpr hfd)) ?_
  by_contra hlt
  exact h _ (Nat.lt_of_not_le hlt) t.get_lowestFree

theorem holds_iff {t : FdTable α} {x : α} : t.Holds x ↔ ∃ fd, t.get fd = some x := by
  rw [Holds, List.mem_iff_getElem?]
  exact exists_congr fun fd => by rw [get, Option.join_eq_some_iff]

theorem Holds.of_get {t : FdTable α} {fd : ℕ} {x : α} (h : t.get fd = some x) : t.Holds x :=
  holds_iff.mpr ⟨fd, h⟩

/-- The objects of a table replaced by others. -/
theorem get_map {β : Type*} (f : α → β) (t : FdTable α) (fd : ℕ) :
    FdTable.get (t.map (Option.map f)) fd = (t.get fd).map f := by
  rw [get, get, List.getElem?_map]
  cases h : t[fd]? with
  | none => rfl
  | some x => cases x <;> rfl

end FdTable

end Foundation
end CodeStrudy
