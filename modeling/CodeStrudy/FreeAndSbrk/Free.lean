import CodeStrudy.Foundation.Loop
import CodeStrudy.GetNum.GetInt
import CodeStrudy.ProcessLister.Status
import Mathlib.Algebra.Order.Ring.Int
import Mathlib.Tactic.Ring

/-!
# Allocating and freeing blocks

`practice/7.1/free_and_sbrk.c` allocates as many blocks as its first argument says, and frees every
`step`-th of them between two limits.  Its one check is that the upper limit is not above the number
of blocks; the array has room for `MAX_ALLOCS` pointers.

An access outside the array, to a pointer that has not been set or one that has been freed, and a
sum outside the range of an `int` are errors here that stop the program.

## What is proved

`safe_iff`: the program ends without an error exactly if it stops at its check, or the array is
large enough and nothing is freed, or the blocks are freed from the first or a later one on with a
positive step whose last sum is still in the range. -/

namespace CodeStrudy
namespace FreeAndSbrk

open Foundation GetNum

def MAX_ALLOCS : ℤ := 100000

/-! ## The program -/

/-- A pointer in the array. -/
inductive Cell where
  | unset
  | set
  | freed
  deriving DecidableEq

/-- The array. -/
abbrev Ptrs := ℤ → Cell

/-- The variables that the arguments set. -/
structure Params where
  numAllocs : ℤ
  sizeBlock : ℤ
  freeStep : ℤ
  freeMin : ℤ
  freeMax : ℤ
  deriving DecidableEq

/-- How the program ends. -/
inductive Outcome where
  | usage
  | rejected
  | finished
  | badIndex
  | notSet
  | freedTwice
  | overflow
  deriving DecidableEq

/-- `atol` assigned to an `int`. -/
def number (s : CStr) : ℤ := Flags.intOfLong (ProcessLister.atol s.chars)

/-- The parameters as `main` takes them from `argc` and the arguments behind the first two. -/
def params (argc : ℤ) (num size : CStr) (opts : List CStr) : Params where
  numAllocs := number num
  sizeBlock := number size
  freeStep := if argc > 3 then (opts[0]?.map number).getD 1 else 1
  freeMin := if argc > 4 then (opts[1]?.map number).getD 1 else 1
  freeMax := if argc > 5 then (opts[2]?.map number).getD (number num) else number num

def InInt (v : ℤ) : Prop := Flags.INT_MIN ≤ v ∧ v ≤ Flags.INT_MAX

instance (v : ℤ) : Decidable (InInt v) := inferInstanceAs (Decidable (_ ∧ _))

/-- An index that is in the array. -/
def InArray (i : ℤ) : Prop := 0 ≤ i ∧ i < MAX_ALLOCS

instance (i : ℤ) : Decidable (InArray i) := inferInstanceAs (Decidable (_ ∧ _))

/-- The body of the loop that allocates; the pointer is set also when `malloc` fails. -/
def alloc (ptr : Ptrs) (i : ℕ) : Option Ptrs :=
  if InArray i then some (Function.update ptr i .set) else none

/-- The loop that allocates. -/
def allocAll (numAllocs : ℤ) : Option Ptrs :=
  (List.range numAllocs.toNat).foldlM alloc fun _ => .unset

/-- The test and the body of the loop that frees, with `j` and the array. -/
def freePass (p : Params) (s : ℤ × Ptrs) : ℤ × Ptrs ⊕ Outcome :=
  if s.1 < p.freeMax then
    if InArray s.1 then
      match s.2 s.1 with
      | .unset => .inr .notSet
      | .freed => .inr .freedTwice
      | .set =>
        if InInt (s.1 + p.freeStep) then
          .inl (s.1 + p.freeStep, Function.update s.2 s.1 .freed)
        else .inr .overflow
    else .inr .badIndex
  else .inr .finished

/-- The program behind the check, with the number of passes that its last loop is run for. -/
def run (fuel : ℕ) (p : Params) : Option Outcome :=
  match allocAll p.numAllocs with
  | none => some .badIndex
  | some ptr =>
    if InInt (p.freeMin - 1) then Loop.runFor (freePass p) fuel (p.freeMin - 1, ptr)
    else some .overflow

/-- The program, called with two arguments and more. -/
def main (fuel : ℕ) (num size : CStr) (opts : List CStr) : Option Outcome :=
  let argc := charArgc (opts.length + 3)
  if argc < 3 ∧ num.chars = ascii "--help" then some .usage
  else if (params argc num size opts).freeMax > (params argc num size opts).numAllocs then
    some .rejected
  else run fuel (params argc num size opts)

/-- The program ends on its own. -/
def Outcome.Fine (outcome : Outcome) : Prop :=
  outcome = .usage ∨ outcome = .rejected ∨ outcome = .finished

/-- The program ends, and not with an error. -/
def Safe (num size : CStr) (opts : List CStr) : Prop :=
  ∃ fuel outcome, main fuel num size opts = some outcome ∧ outcome.Fine

/-- The sum that ends the loop that frees, if its step is positive. -/
def lastSum (p : Params) : ℤ :=
  p.freeMin - 1 + p.freeStep * ((p.freeMax - p.freeMin) / p.freeStep + 1)

/-- The array has room for the blocks, and nothing is freed or the loop goes up from an index in the
array to a sum in the range of an `int`. -/
def InBounds (p : Params) : Prop :=
  p.numAllocs ≤ MAX_ALLOCS ∧
    (p.freeMax < p.freeMin ∨ (1 ≤ p.freeMin ∧ 1 ≤ p.freeStep ∧ lastSum p ≤ Flags.INT_MAX))

/-! ## The loop that allocates -/

/-- The array when the pointers below `n` are set. -/
def allocated (n : ℤ) : Ptrs := fun j => if 0 ≤ j ∧ j < n then .set else .unset

theorem update_allocated (n : ℕ) :
    Function.update (allocated n) n .set = allocated (n + 1 : ℕ) := by
  funext j
  rw [Function.update_apply]
  unfold allocated
  split_ifs <;> first | rfl | omega

theorem foldlM_alloc (n : ℕ) : (List.range n).foldlM alloc (fun _ => .unset) =
    if (n : ℤ) ≤ MAX_ALLOCS then some (allocated n) else none := by
  induction n with
  | zero =>
    rw [if_pos (by decide)]
    refine congrArg some (funext fun j => ?_)
    unfold allocated
    rw [if_neg (by omega)]
  | succ n ih =>
    rw [List.range_succ, List.foldlM_append, ih]
    by_cases h : (n : ℤ) ≤ MAX_ALLOCS
    · have hiff : InArray n ↔ ((n + 1 : ℕ) : ℤ) ≤ MAX_ALLOCS := by
        unfold InArray
        omega
      rw [if_pos h, Option.bind_eq_bind, Option.bind_some, List.foldlM_cons]
      simp only [List.foldlM_nil, bind_pure, alloc, update_allocated, hiff]
    · rw [if_neg h, if_neg (by omega), Option.bind_eq_bind, Option.bind_none]

/-- All pointers are set if the array has room for them. -/
theorem allocAll_eq (numAllocs : ℤ) : allocAll numAllocs =
    if numAllocs ≤ MAX_ALLOCS then some (allocated numAllocs) else none := by
  rw [allocAll, foldlM_alloc]
  have hle : ((numAllocs.toNat : ℕ) : ℤ) ≤ MAX_ALLOCS ↔ numAllocs ≤ MAX_ALLOCS := by
    unfold MAX_ALLOCS
    omega
  have hset : allocated numAllocs.toNat = allocated numAllocs := by
    funext j
    unfold allocated
    have hj : 0 ≤ j ∧ j < (numAllocs.toNat : ℤ) ↔ 0 ≤ j ∧ j < numAllocs := by omega
    simp only [hj]
  simp only [hle, hset]

/-! ## The loop that frees -/

section

variable {p : Params} {s : ℤ × Ptrs} {outcome : Outcome}

/-- A pass over a pointer that is set, when the sum is in the range. -/
theorem freePass_set (hlt : s.1 < p.freeMax) (hindex : InArray s.1) (hset : s.2 s.1 = .set)
    (hsum : InInt (s.1 + p.freeStep)) :
    freePass p s = .inl (s.1 + p.freeStep, Function.update s.2 s.1 .freed) := by
  simp only [freePass, if_pos hlt, if_pos hindex, hset, if_pos hsum]

/-- What a pass can do: it goes on behind its checks, or ends the loop at the limit, or stops with
an error. -/
theorem freePass_cases (p : Params) (s : ℤ × Ptrs) :
    (InArray s.1 ∧ InInt (s.1 + p.freeStep) ∧
        freePass p s = .inl (s.1 + p.freeStep, Function.update s.2 s.1 .freed)) ∨
      (¬ s.1 < p.freeMax ∧ freePass p s = .inr .finished) ∨
      ∃ error : Outcome, ¬ error.Fine ∧ freePass p s = .inr error := by
  have herror : ∀ error : Outcome, error ≠ .usage → error ≠ .rejected → error ≠ .finished →
      ¬ error.Fine := fun _ h h' h'' hfine => hfine.elim h fun hfine => hfine.elim h' h''
  unfold freePass
  by_cases hlt : s.1 < p.freeMax
  · rw [if_pos hlt]
    by_cases hindex : InArray s.1
    · rw [if_pos hindex]
      cases s.2 s.1 with
      | unset => exact .inr (.inr ⟨_, herror .notSet nofun nofun nofun, rfl⟩)
      | freed => exact .inr (.inr ⟨_, herror .freedTwice nofun nofun nofun, rfl⟩)
      | set =>
        by_cases hsum : InInt (s.1 + p.freeStep)
        · exact .inl ⟨hindex, hsum, if_pos hsum⟩
        · exact .inr (.inr ⟨_, herror .overflow nofun nofun nofun, if_neg hsum⟩)
    · rw [if_neg hindex]
      exact .inr (.inr ⟨_, herror .badIndex nofun nofun nofun, rfl⟩)
  · rw [if_neg hlt]
    exact .inr (.inl ⟨hlt, rfl⟩)

/-- If the indices that the loop comes to all are below the limit, it does not end on its own. -/
theorem not_fine_of_indices (I : ℤ → Prop) (hlt : ∀ j, I j → j < p.freeMax)
    (hkeep : ∀ j, I j → InArray j → InInt (j + p.freeStep) → I (j + p.freeStep)) (hs : I s.1)
    (h : Loop.Returns (freePass p) s outcome) : ¬ outcome.Fine := by
  refine h.invariant (fun s => I s.1) (fun outcome => ¬ outcome.Fine) ?_ ?_ hs
  · intro s t hI hbody
    rcases freePass_cases p s with ⟨hindex, hsum, hpass⟩ | ⟨-, hpass⟩ | ⟨error, -, hpass⟩
    · obtain rfl := Sum.inl.inj (hpass.symm.trans hbody)
      exact hkeep s.1 hI hindex hsum
    · cases hpass.symm.trans hbody
    · cases hpass.symm.trans hbody
  · intro s r hI hbody
    rcases freePass_cases p s with ⟨-, -, hpass⟩ | ⟨hge, hpass⟩ | ⟨error, herror, hpass⟩
    · cases hpass.symm.trans hbody
    · exact absurd (hlt s.1 hI) hge
    · exact Sum.inr.inj (hpass.symm.trans hbody) ▸ herror

/-- The number of the pass that an index below the limit is used in. -/
theorem le_passes {k : ℤ} (hstep : 1 ≤ p.freeStep) :
    p.freeMin - 1 + p.freeStep * k < p.freeMax ↔ k ≤ (p.freeMax - p.freeMin) / p.freeStep := by
  rw [Int.le_ediv_iff_mul_le (by omega), mul_comm]
  omega

/-- When the loop is entered and leaves the bounds, it does not end on its own. -/
theorem not_fine_of_not_inBounds (hmax : p.numAllocs ≤ MAX_ALLOCS) (hnot : ¬ InBounds p)
    (hs : s.1 = p.freeMin - 1) (h : Loop.Returns (freePass p) s outcome) : ¬ outcome.Fine := by
  have hentered : p.freeMin ≤ p.freeMax := not_lt.mp fun hlt => hnot ⟨hmax, .inl hlt⟩
  by_cases hmin : 1 ≤ p.freeMin
  · by_cases hstep : 1 ≤ p.freeStep
    · -- the last sum is out of the range
      have hlast : Flags.INT_MAX < lastSum p :=
        not_le.mp fun hle => hnot ⟨hmax, .inr ⟨hmin, hstep, hle⟩⟩
      refine not_fine_of_indices (fun j => j < p.freeMax ∧ ∃ k, j = p.freeMin - 1 + p.freeStep * k)
        (fun j hj => hj.1) ?_ ⟨by omega, 0, by rw [mul_zero, add_zero]; exact hs⟩ h
      rintro j ⟨hlt, k, rfl⟩ - hsum
      have hnext : p.freeMin - 1 + p.freeStep * k + p.freeStep =
          p.freeMin - 1 + p.freeStep * (k + 1) := by ring
      rw [hnext] at hsum ⊢
      refine ⟨(le_passes hstep).mpr ?_, k + 1, rfl⟩
      have hk := (le_passes hstep).mp hlt
      by_contra hgt
      have heq : k = (p.freeMax - p.freeMin) / p.freeStep := by omega
      rw [heq] at hsum
      exact absurd hsum.2 (not_le.mpr hlast)
    · -- the index does not go up
      refine not_fine_of_indices (fun j => j < p.freeMax) (fun j hj => hj) ?_ (by omega) h
      intro j hj _ _
      omega
  · -- the first index is negative
    refine not_fine_of_indices (fun j => j = p.freeMin - 1) (fun j hj => by omega) ?_ hs h
    intro j hj hindex
    have := hindex.1
    omega

/-- The index is that of a pass, and all pointers from it on are set. -/
structure Going (p : Params) (s : ℤ × Ptrs) : Prop where
  index : ∃ k, 0 ≤ k ∧ s.1 = p.freeMin - 1 + p.freeStep * k
  set : ∀ i, s.1 ≤ i → i < p.numAllocs → s.2 i = .set

/-- Within the bounds a pass below the limit goes on. -/
theorem Going.pass (hcheck : p.freeMax ≤ p.numAllocs) (hmax : p.numAllocs ≤ MAX_ALLOCS)
    (hmin : 1 ≤ p.freeMin) (hstep : 1 ≤ p.freeStep) (hlast : lastSum p ≤ Flags.INT_MAX)
    (hs : Going p s) (hlt : s.1 < p.freeMax) :
    freePass p s = .inl (s.1 + p.freeStep, Function.update s.2 s.1 .freed) ∧
      Going p (s.1 + p.freeStep, Function.update s.2 s.1 .freed) := by
  obtain ⟨k, hk, hindex⟩ := hs.index
  have hnext : s.1 + p.freeStep = p.freeMin - 1 + p.freeStep * (k + 1) := by
    rw [hindex]
    ring
  have hnonneg : 0 ≤ p.freeStep * k := mul_nonneg (by omega) hk
  have hsum : s.1 + p.freeStep ≤ lastSum p := by
    have hpasses := (le_passes hstep).mp (hindex ▸ hlt)
    rw [hnext, lastSum]
    exact add_le_add_right (mul_le_mul_of_nonneg_left (by omega) (by omega)) _
  refine ⟨freePass_set hlt ⟨by omega, by omega⟩ (hs.set s.1 le_rfl (by omega)) ⟨?_, by omega⟩,
    ⟨k + 1, by omega, hnext⟩, fun i hi hlt => ?_⟩
  · unfold Flags.INT_MIN
    omega
  · have hi : s.1 + p.freeStep ≤ i := hi
    show Function.update s.2 s.1 .freed i = .set
    rw [Function.update_of_ne (by omega)]
    exact hs.set i (by omega) hlt

/-- Within the bounds the loop frees pointers that are set, up to the limit. -/
theorem returns_finished (hcheck : p.freeMax ≤ p.numAllocs) (h : InBounds p) :
    Loop.Returns (freePass p) (p.freeMin - 1, allocated p.numAllocs) .finished := by
  obtain ⟨hmax, hbelow | ⟨hmin, hstep, hlast⟩⟩ := h
  · refine (Loop.returns_inr_iff ?_).mpr rfl
    refine if_neg ?_
    show ¬ p.freeMin - 1 < p.freeMax
    omega
  · have hgoing : Going p (p.freeMin - 1, allocated p.numAllocs) := by
      refine ⟨⟨0, le_rfl, by rw [mul_zero, add_zero]⟩, fun i hi hlt => ?_⟩
      have hi : p.freeMin - 1 ≤ i := hi
      exact if_pos ⟨by omega, hlt⟩
    have hreturns : ∃ r, Loop.Returns (freePass p) (p.freeMin - 1, allocated p.numAllocs) r ∧
        r = .finished := by
      refine Loop.exists_returns_good (Going p) (· = Outcome.finished)
        (fun s => (p.freeMax - s.1).toNat) (fun s hs => ?_) hgoing
      by_cases hlt : s.1 < p.freeMax
      · obtain ⟨hinl, hnext⟩ := hs.pass hcheck hmax hmin hstep hlast hlt
        refine .inl ⟨_, hinl, hnext, ?_⟩
        show (p.freeMax - (s.1 + p.freeStep)).toNat < (p.freeMax - s.1).toNat
        omega
      · exact .inr ⟨.finished, if_neg hlt, rfl⟩
    obtain ⟨r, hr, rfl⟩ := hreturns
    exact hr

end

/-! ## The whole program -/

theorem inInt_number (s : CStr) : InInt (number s) := Flags.intOfLong_mem _

theorem inInt_getD (o : Option CStr) {v : ℤ} (hv : InInt v) :
    InInt ((o.map number).getD v) := by
  cases o with
  | none => exact hv
  | some s => exact inInt_number s

theorem inInt_freeMin (argc : ℤ) (num size : CStr) (opts : List CStr) :
    InInt (params argc num size opts).freeMin := by
  show InInt (if argc > 4 then (opts[1]?.map number).getD 1 else 1)
  split_ifs
  · exact inInt_getD _ (by decide)
  · decide

theorem inInt_freeMax (argc : ℤ) (num size : CStr) (opts : List CStr) :
    InInt (params argc num size opts).freeMax := by
  show InInt (if argc > 5 then (opts[2]?.map number).getD (number num) else number num)
  split_ifs
  · exact inInt_getD _ (inInt_number num)
  · exact inInt_number num

/-- Behind the check. -/
theorem run_iff {p : Params} (hmin : InInt p.freeMin) (hmax : InInt p.freeMax)
    (hcheck : p.freeMax ≤ p.numAllocs) :
    (∃ fuel outcome, run fuel p = some outcome ∧ outcome.Fine) ↔ InBounds p := by
  unfold run
  rw [allocAll_eq]
  by_cases hallocs : p.numAllocs ≤ MAX_ALLOCS
  · rw [if_pos hallocs]
    by_cases hfirst : InInt (p.freeMin - 1)
    · simp only [if_pos hfirst]
      constructor
      · rintro ⟨fuel, outcome, hrun, hfine⟩
        by_contra hnot
        exact not_fine_of_not_inBounds hallocs hnot rfl ⟨fuel, hrun⟩ hfine
      · intro h
        obtain ⟨fuel, hrun⟩ := returns_finished hcheck h
        exact ⟨fuel, .finished, hrun, .inr (.inr rfl)⟩
    · simp only [if_neg hfirst]
      refine iff_of_false ?_ ?_
      · rintro ⟨-, outcome, hrun, hfine⟩
        obtain rfl := Option.some.inj hrun
        rcases hfine with h | h | h <;> cases h
      · rintro ⟨-, h⟩
        refine hfirst ⟨?_, by have := hmin.2; omega⟩
        have := hmax.1
        unfold Flags.INT_MIN at this ⊢
        omega
  · rw [if_neg hallocs]
    refine iff_of_false ?_ fun h => hallocs h.1
    rintro ⟨fuel, outcome, hrun, hfine⟩
    obtain rfl : Outcome.badIndex = outcome := Option.some.inj hrun
    rcases hfine with h | h | h <;> cases h

/-- When the checks let the arguments pass. -/
theorem safe_iff_inBounds {num size : CStr} {opts : List CStr}
    (hhelp : ¬ (charArgc (opts.length + 3) < 3 ∧ num.chars = ascii "--help"))
    (hcheck : ¬ (params (charArgc (opts.length + 3)) num size opts).freeMax >
      (params (charArgc (opts.length + 3)) num size opts).numAllocs) :
    Safe num size opts ↔ InBounds (params (charArgc (opts.length + 3)) num size opts) := by
  unfold Safe main
  simp only [if_neg hhelp, if_neg hcheck]
  exact run_iff (inInt_freeMin ..) (inInt_freeMax ..) (not_lt.mp hcheck)

/-- **Freeing blocks.**  The program ends, and uses only pointers in the array that it has set and
not freed, exactly if it stops at its checks or its parameters are within the bounds. -/
theorem safe_iff (num size : CStr) (opts : List CStr) :
    Safe num size opts ↔
      (charArgc (opts.length + 3) < 3 ∧ num.chars = ascii "--help") ∨
        (params (charArgc (opts.length + 3)) num size opts).freeMax >
          (params (charArgc (opts.length + 3)) num size opts).numAllocs ∨
        InBounds (params (charArgc (opts.length + 3)) num size opts) := by
  by_cases hhelp : charArgc (opts.length + 3) < 3 ∧ num.chars = ascii "--help"
  · exact iff_of_true ⟨0, .usage, if_pos hhelp, .inl rfl⟩ (.inl hhelp)
  · rw [or_iff_right hhelp]
    by_cases hcheck : (params (charArgc (opts.length + 3)) num size opts).freeMax >
        (params (charArgc (opts.length + 3)) num size opts).numAllocs
    · refine iff_of_true ⟨0, .rejected, ?_, .inr (.inl rfl)⟩ (.inl hcheck)
      exact (if_neg hhelp).trans (if_pos hcheck)
    · rw [or_iff_right hcheck]
      exact safe_iff_inBounds hhelp hcheck

/-- `free_and_sbrk 2 2 0`: the first pointer is freed again. -/
theorem not_safe : ¬ ∀ (num size : CStr) (opts : List CStr), Safe num size opts := by
  intro h
  obtain ⟨two, htwo⟩ : ∃ s : CStr, s.chars = [0x32] := ⟨⟨_, by decide⟩, rfl⟩
  obtain ⟨zero, hzero⟩ : ∃ s : CStr, s.chars = [0x30] := ⟨⟨_, by decide⟩, rfl⟩
  have htwo' : number two = 2 := by
    rw [number, htwo]
    decide
  have hzero' : number zero = 0 := by
    rw [number, hzero]
    decide
  have hargc : charArgc ([zero].length + 3) = 4 := charArgc_of_le (by decide : 4 ≤ 127)
  have hparams : params (charArgc ([zero].length + 3)) two two [zero] = ⟨2, 2, 0, 1, 2⟩ := by
    rw [hargc]
    simp [params, htwo', hzero']
  have hbounds := (safe_iff_inBounds (by rw [hargc]; omega) (by rw [hparams]; decide)).mp
    (h two two [zero])
  rw [hparams] at hbounds
  obtain ⟨-, hbelow | ⟨-, hstep, -⟩⟩ := hbounds
  · exact absurd hbelow (by decide)
  · exact absurd hstep (by decide)

end FreeAndSbrk
end CodeStrudy
