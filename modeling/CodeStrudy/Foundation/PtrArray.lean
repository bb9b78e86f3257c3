import Mathlib.Data.Nat.Notation
import Mathlib.Data.List.Basic

/-!
# Arrays of pointers that end with a null pointer

`argv` and `environ` are such arrays: the pointers before the first null pointer are the entries,
and what the block holds behind it counts for nothing.  A `PtrArray` is such a block, with its null
pointer.  Nothing in this file names a program.

## What is proved

* `PtrArray.entries_remove`: the loop that removes entries in place, by moving everything behind an
  entry one cell forward and then looking at the same cell again, keeps exactly the entries that it
  is not to remove, in their order.  `PtrArray.remove_eq_self_iff`: it leaves the block as it is
  exactly if it is to remove none.
* `filter_eq_filter_iff`: two choices of entries keep the same list exactly if they agree on every
  entry.
-/

namespace CodeStrudy
namespace Foundation

variable {α : Type*}

/-! ## The cells from a pointer on -/

/-- The pointers before the first null pointer. -/
def entries : List (Option α) → List α
  | some a :: cells => a :: entries cells
  | _ => []

/-- `for (sp = ep; *sp != NULL; sp++) *sp = *(sp + 1);`, on the cells from `ep` on.  The last cell
of a block is not reached when there is a null pointer. -/
def shift : List (Option α) → List (Option α)
  | some _ :: b :: cells => b :: shift (b :: cells)
  | [some _] => []
  | cells => cells

/-- Moving the cells forward takes the first entry away. -/
theorem entries_shift (a : α) (cells : List (Option α)) :
    entries (shift (some a :: cells)) = entries cells := by
  induction cells generalizing a with
  | nil => rfl
  | cons b cells ih =>
    rw [shift]
    cases b with
    | none => rfl
    | some b => rw [entries, entries, ih]

theorem none_mem_shift {cells : List (Option α)} (h : none ∈ cells) : none ∈ shift cells := by
  induction cells with
  | nil => exact h
  | cons a cells ih =>
    cases a with
    | none => exact h
    | some a =>
      have htail : none ∈ cells := List.mem_of_ne_of_mem (Option.some_ne_none a).symm h
      cases cells with
      | nil => cases htail
      | cons b cells => exact List.mem_cons_of_mem b (ih htail)

/-- `for (ep = environ; *ep != NULL; )` with a body that moves the cells forward if the entry at
`ep` is one that `p` chooses, and else goes on to the next cell. -/
def removeLoop (p : α → Bool) : List (Option α) → List (Option α)
  | some a :: cells =>
    if p a then removeLoop p (shift (some a :: cells)) else some a :: removeLoop p cells
  | none :: cells => none :: cells
  | [] => []
termination_by cells => (entries cells).length
decreasing_by
  · rw [entries_shift]
    exact Nat.lt_succ_self _
  · exact Nat.lt_succ_self _

theorem entries_removeLoop (p : α → Bool) (cells : List (Option α)) :
    entries (removeLoop p cells) = (entries cells).filter fun a => !p a := by
  induction cells using removeLoop.induct p with
  | case1 a cells hp ih =>
    rw [removeLoop, if_pos hp, ih, entries_shift, entries, List.filter_cons_of_neg]
    rw [hp]
    exact Bool.false_ne_true
  | case2 a cells hp ih =>
    rw [removeLoop, if_neg hp, entries, entries, ih, List.filter_cons_of_pos]
    rw [Bool.eq_false_iff.mpr hp]
    rfl
  | case3 cells =>
    rw [removeLoop]
    rfl
  | case4 =>
    rw [removeLoop]
    rfl

theorem none_mem_removeLoop (p : α → Bool) {cells : List (Option α)} (h : none ∈ cells) :
    none ∈ removeLoop p cells := by
  induction cells using removeLoop.induct p with
  | case1 a cells hp ih =>
    rw [removeLoop, if_pos hp]
    exact ih (none_mem_shift h)
  | case2 a cells hp ih =>
    rw [removeLoop, if_neg hp]
    exact List.mem_cons_of_mem _ (ih (List.mem_of_ne_of_mem (Option.some_ne_none a).symm h))
  | case3 cells =>
    rw [removeLoop]
    exact h
  | case4 => cases h

/-- The loop that finds nothing to remove changes nothing. -/
theorem removeLoop_eq_self {p : α → Bool} {cells : List (Option α)}
    (h : ∀ a ∈ entries cells, p a = false) : removeLoop p cells = cells := by
  induction cells using removeLoop.induct p with
  | case1 a cells hp ih => exact absurd hp (by simp [h a List.mem_cons_self])
  | case2 a cells hp ih =>
    rw [removeLoop, if_neg hp, ih fun b hb => h b (List.mem_cons_of_mem a hb)]
  | case3 cells => rw [removeLoop]
  | case4 => rw [removeLoop]

/-! ## A block with its null pointer -/

/-- A block of pointers with a null pointer in it. -/
@[ext] structure PtrArray (α : Type*) where
  /-- The cells of the block. -/
  cells : List (Option α)
  /-- A null pointer ends the entries. -/
  none_mem : none ∈ cells

namespace PtrArray

/-- The entries, as a loop up to the null pointer sees them. -/
def entries (a : PtrArray α) : List α := Foundation.entries a.cells

/-- A block that holds the given entries and its null pointer. -/
def ofList (l : List α) : PtrArray α where
  cells := l.map some ++ [none]
  none_mem := List.mem_append_right _ (List.mem_singleton_self _)

@[simp] theorem entries_ofList (l : List α) : (ofList l).entries = l := by
  induction l with
  | nil => rfl
  | cons a l ih => exact congrArg (List.cons a) ih

/-- The block after the removal of the entries that `p` chooses. -/
def remove (p : α → Bool) (a : PtrArray α) : PtrArray α where
  cells := removeLoop p a.cells
  none_mem := none_mem_removeLoop p a.none_mem

/-- **In-place removal.**  What is kept is what `p` does not choose, in its order. -/
theorem entries_remove (p : α → Bool) (a : PtrArray α) :
    (a.remove p).entries = a.entries.filter fun x => !p x :=
  entries_removeLoop p a.cells

theorem remove_eq_self_iff {p : α → Bool} {a : PtrArray α} :
    a.remove p = a ↔ ∀ x ∈ a.entries, p x = false := by
  refine ⟨fun h x hx => ?_, fun h => PtrArray.ext (removeLoop_eq_self h)⟩
  rw [← h, entries_remove, List.mem_filter] at hx
  simpa using hx.2

end PtrArray

/-- Two choices keep the same list exactly if they agree on all its elements. -/
theorem filter_eq_filter_iff {p q : α → Bool} {l : List α} :
    l.filter p = l.filter q ↔ ∀ a ∈ l, p a = q a := by
  refine ⟨fun h a ha => ?_, List.filter_congr⟩
  have hmem : a ∈ l.filter p ↔ a ∈ l.filter q := by rw [h]
  rw [List.mem_filter, List.mem_filter, and_iff_right ha, and_iff_right ha] at hmem
  exact Bool.eq_iff_iff.mpr hmem

end Foundation
end CodeStrudy
