import CodeStrudy.Foundation.CString

/-!
# Blocks on the heap

A block is the list of its cells, so its length is its current allocation.  A store outside of it
has no result, and neither has a `strcat` for which there is no room or no zero byte to begin at.
Nothing in this file names a program.

## What is proved

* `store?_length`, `store?_of_le`: a store at a given cell, and one behind the end.
* `strcat?_eq_some_iff`: when there is room for a string, and what the block holds then.
-/

namespace CodeStrudy
namespace Foundation

variable {β : Type*}

/-- `block[i] = x` -/
def store? (block : List β) (i : ℕ) (x : β) : Option (List β) :=
  if i < block.length then some (block.set i x) else none

theorem store?_length (u v : List β) (x y : β) :
    store? (u ++ y :: v) u.length x = some (u ++ x :: v) := by
  rw [store?, if_pos (by simp), List.set_append_right _ _ (Nat.le_refl _), Nat.sub_self,
    List.set_cons_zero]

theorem store?_of_le {block : List β} {i : ℕ} (h : block.length ≤ i) (x : β) :
    store? block i x = none :=
  if_neg (Nat.not_lt.mpr h)

/-- An array that begins with the given pointers and a null pointer behind them. -/
def Terminated (cells : List (Option β)) (l : List β) : Prop :=
  ∃ junk, cells = l.map some ++ none :: junk

/-- `strcat(block, s)` -/
def strcat? (block s : List UInt8) : Option (List UInt8) :=
  if 0 ∈ block ∧ (cstr block).length + s.length < block.length then
    some (cstr block ++ s ++ 0 :: block.drop ((cstr block).length + s.length + 1))
  else none

theorem strcat?_eq_some_iff {block s b : List UInt8} :
    strcat? block s = some b ↔
      (0 ∈ block ∧ (cstr block).length + s.length < block.length) ∧
        cstr block ++ s ++ 0 :: block.drop ((cstr block).length + s.length + 1) = b := by
  rw [strcat?, Option.ite_none_right_eq_some, Option.some_inj]

/-- What a successful `strcat` leaves: the two strings, in a block of the same size. -/
theorem cstr_strcat? {block s b : List UInt8} (hs : 0 ∉ s) (h : strcat? block s = some b) :
    cstr b = cstr block ++ s ∧ b.length = block.length ∧
      (cstr block).length + s.length < block.length := by
  obtain ⟨⟨-, hlt⟩, rfl⟩ := strcat?_eq_some_iff.mp h
  refine ⟨cstr_append_zero (fun hmem => ?_) _, ?_, hlt⟩
  · rcases List.mem_append.mp hmem with hmem | hmem
    · exact zero_notMem_cstr block hmem
    · exact hs hmem
  · simp only [List.length_append, List.length_cons, List.length_drop]
    omega

/-- After a successful `strcat` there is a zero byte in the block. -/
theorem zero_mem_of_strcat? {block s b : List UInt8} (h : strcat? block s = some b) : 0 ∈ b := by
  obtain ⟨-, rfl⟩ := strcat?_eq_some_iff.mp h
  simp

theorem strcat?_of_lt {block s : List UInt8} (hmem : 0 ∈ block)
    (h : (cstr block).length + s.length < block.length) : ∃ b, strcat? block s = some b :=
  ⟨_, strcat?_eq_some_iff.mpr ⟨⟨hmem, h⟩, rfl⟩⟩

end Foundation
end CodeStrudy
