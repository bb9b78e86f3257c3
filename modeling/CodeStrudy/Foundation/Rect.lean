import Mathlib.Algebra.Order.Floor.Ring
import Mathlib.Data.Rat.Floor

/-!
# Rectangles of whole numbers

A rectangle is its upper left corner and its size; the vertical axis points down.  Positions that
are kept as fractions beside a rectangle get into it by truncation toward zero.  Nothing in this
file names a program.

## What is proved

* `lt_fit_iff`: how many pieces of a size fit into a space.
* `trunc_nonneg_iff`, `trunc_le_iff`: what a bound on a truncated number says about the number.
-/

namespace CodeStrudy
namespace Foundation

/-- A size, as images and displays have it. -/
@[ext] structure Size where
  w : ℤ
  h : ℤ
  w_pos : 0 < w
  h_pos : 0 < h
  deriving DecidableEq

/-- A rectangle. -/
@[ext] structure Rect where
  x : ℤ
  y : ℤ
  w : ℤ
  h : ℤ
  deriving DecidableEq

namespace Rect

def left (r : Rect) : ℤ := r.x

def right (r : Rect) : ℤ := r.x + r.w

def top (r : Rect) : ℤ := r.y

def bottom (r : Rect) : ℤ := r.y + r.h

/-- The rectangle of an image or a display. -/
def ofSize (s : Size) : Rect := ⟨0, 0, s.w, s.h⟩

/-- Two rectangles share a part that is not only an edge. -/
def colliderect (a b : Rect) : Prop :=
  a.left < b.right ∧ b.left < a.right ∧ a.top < b.bottom ∧ b.top < a.bottom

instance (a b : Rect) : Decidable (a.colliderect b) := inferInstanceAs (Decidable (_ ∧ _))

/-- The point is in the rectangle; its right and lower edges do not belong to it. -/
def collidepoint (r : Rect) (p : ℤ × ℤ) : Prop :=
  r.left ≤ p.1 ∧ p.1 < r.right ∧ r.top ≤ p.2 ∧ p.2 < r.bottom

instance (r : Rect) (p : ℤ × ℤ) : Decidable (r.collidepoint p) :=
  inferInstanceAs (Decidable (_ ∧ _))

def midbottom (r : Rect) : ℤ × ℤ := (r.x + r.w / 2, r.y + r.h)

def midtop (r : Rect) : ℤ × ℤ := (r.x + r.w / 2, r.y)

def center (r : Rect) : ℤ × ℤ := (r.x + r.w / 2, r.y + r.h / 2)

def setMidbottom (r : Rect) (p : ℤ × ℤ) : Rect := { r with x := p.1 - r.w / 2, y := p.2 - r.h }

def setMidtop (r : Rect) (p : ℤ × ℤ) : Rect := { r with x := p.1 - r.w / 2, y := p.2 }

def setCenter (r : Rect) (p : ℤ × ℤ) : Rect :=
  { r with x := p.1 - r.w / 2, y := p.2 - r.h / 2 }

end Rect

/-! ## Whole numbers from fractions -/

/-- A number cut to a whole one toward zero. -/
def trunc (q : ℚ) : ℤ := if 0 ≤ q then ⌊q⌋ else ⌈q⌉

@[simp] theorem trunc_intCast (n : ℤ) : trunc n = n := by
  unfold trunc
  split
  · exact Int.floor_intCast n
  · exact Int.ceil_intCast n

/-- Truncation makes a number that is not below -1 nonnegative. -/
theorem trunc_nonneg_iff {q : ℚ} : 0 ≤ trunc q ↔ -1 < q := by
  unfold trunc
  split_ifs with hq
  · exact iff_of_true (Int.floor_nonneg.mpr hq) (by linarith)
  · have hceil : -1 < ⌈q⌉ ↔ ((-1 : ℤ) : ℚ) < q := Int.lt_ceil
    rw [Int.cast_neg, Int.cast_one] at hceil
    rw [← hceil]
    omega

theorem trunc_le_iff {q : ℚ} {n : ℤ} (hn : 0 ≤ n) : trunc q ≤ n ↔ q < n + 1 := by
  have hn' : (0 : ℚ) ≤ n := Int.cast_nonneg hn
  unfold trunc
  split_ifs with hq
  · rw [← Int.lt_add_one_iff, Int.floor_lt]
    push_cast
    rfl
  · have hneg : q < 0 := not_le.mp hq
    exact iff_of_true (Int.ceil_le.mpr (by linarith)) (by linarith)

/-- A move by a whole number is one more, or one less, after truncation at most. -/
theorem trunc_add_le (q : ℚ) {n : ℤ} (hn : 0 ≤ n) : trunc q + n - 1 ≤ trunc (q + n) := by
  have hn' : (0 : ℚ) ≤ n := Int.cast_nonneg hn
  unfold trunc
  split_ifs with hq hqn hqn
  · rw [Int.floor_add_intCast]
    omega
  · exact absurd (by linarith) hqn
  · rw [Int.floor_add_intCast]
    have := Int.ceil_le_floor_add_one q
    omega
  · rw [Int.ceil_add_intCast]
    omega

/-- How many pieces of a size fit into a space, which may be negative. -/
def fit (space size : ℤ) : ℕ := (space / size).toNat

theorem lt_fit_iff {space size : ℤ} (h : 0 < size) {n : ℕ} :
    n < fit space size ↔ size * (n + 1) ≤ space := by
  rw [fit, Int.lt_toNat, ← Int.add_one_le_iff, Int.le_ediv_iff_mul_le h, mul_comm]

end Foundation
end CodeStrudy
