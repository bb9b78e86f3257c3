import Mathlib.Data.Nat.Notation

/-!
# Loops that may not end

The body of a loop, with its test, is a function that either goes on with a new state or leaves the
loop with a result.  `runFor` makes passes up to a number, and `Returns` says that some number is
enough.  Nothing in this file names a program.

## What is proved

* `returns_inl_iff`, `returns_inr_iff`: what one pass does to the result of the loop.
* `not_returns_of_fixed`: a loop that comes back to the same state is never left.
* `Returns.invariant`: what the states of the loop keep, its result has.
* `exists_returns`: a loop whose passes make a measure smaller is left.
* `exists_returns_good`: the two together.
* `returns_iff_of_stages`: the exact form for a loop whose passes are known one by one: it is left
  with a good result exactly if the first pass that leaves it is one with a good result.
* `exists_map_runFor_iff`: that rule from the first pass on, with what follows the loop.
* `exists_returns_iff_forall`: the exact form for a loop of known length, where a pass that is not
  fine spoils the result of the loop, whether that pass leaves it or not.
-/

namespace CodeStrudy
namespace Foundation
namespace Loop

variable {σ ρ : Type*} (body : σ → σ ⊕ ρ)

/-- The result of the loop, if it is left within the given number of passes. -/
def runFor : ℕ → σ → Option ρ
  | 0, _ => none
  | fuel + 1, s =>
    match body s with
    | .inl t => runFor fuel t
    | .inr r => some r

/-- The loop is left with the result. -/
def Returns (s : σ) (r : ρ) : Prop := ∃ fuel, runFor body fuel s = some r

variable {body} {s t : σ} {r r' : ρ}

theorem runFor_inl (h : body s = .inl t) (fuel : ℕ) :
    runFor body (fuel + 1) s = runFor body fuel t := by
  rw [runFor, h]

theorem runFor_inr (h : body s = .inr r) (fuel : ℕ) : runFor body (fuel + 1) s = some r := by
  rw [runFor, h]

/-- A loop that has ended stays as it is with more passes allowed. -/
theorem runFor_of_le {fuel fuel' : ℕ} (h : runFor body fuel s = some r) (hle : fuel ≤ fuel') :
    runFor body fuel' s = some r := by
  induction fuel generalizing s fuel' with
  | zero => cases h
  | succ fuel ih =>
    obtain ⟨more, rfl⟩ := Nat.exists_eq_add_of_le' (Nat.lt_of_lt_of_le (Nat.succ_pos fuel) hle)
    rw [runFor] at h ⊢
    cases hbody : body s with
    | inl t =>
      rw [hbody] at h
      exact ih h (Nat.le_of_succ_le_succ hle)
    | inr r' =>
      rw [hbody] at h
      exact h

/-- After a pass that goes on, the loop is where that pass left it. -/
theorem returns_inl_iff (h : body s = .inl t) : Returns body s r ↔ Returns body t r := by
  constructor
  · rintro ⟨fuel, hrun⟩
    cases fuel with
    | zero => cases hrun
    | succ fuel => exact ⟨fuel, runFor_inl h fuel ▸ hrun⟩
  · rintro ⟨fuel, hrun⟩
    exact ⟨fuel + 1, (runFor_inl h fuel).trans hrun⟩

/-- A pass that leaves the loop gives its result. -/
theorem returns_inr_iff (h : body s = .inr r) : Returns body s r' ↔ r' = r := by
  constructor
  · rintro ⟨fuel, hrun⟩
    cases fuel with
    | zero => cases hrun
    | succ fuel => exact (Option.some.inj ((runFor_inr h fuel).symm.trans hrun)).symm
  · rintro rfl
    exact ⟨1, runFor_inr h 0⟩

/-- A loop that comes back to the same state is never left. -/
theorem not_returns_of_fixed (h : body s = .inl s) : ¬ ∃ r, Returns body s r := by
  rintro ⟨r, fuel, hrun⟩
  induction fuel with
  | zero => cases hrun
  | succ fuel ih => exact ih (runFor_inl h fuel ▸ hrun)

/-- **The invariant rule.**  A property of the states that every pass keeps gives one of the
result. -/
theorem Returns.invariant (I : σ → Prop) (Q : ρ → Prop)
    (hkeep : ∀ s t, I s → body s = .inl t → I t) (hleave : ∀ s r, I s → body s = .inr r → Q r)
    (hs : I s) (h : Returns body s r) : Q r := by
  obtain ⟨fuel, hrun⟩ := h
  induction fuel generalizing s with
  | zero => cases hrun
  | succ fuel ih =>
    cases hbody : body s with
    | inl t =>
      rw [runFor_inl hbody] at hrun
      exact ih (hkeep s t hs hbody) hrun
    | inr r' =>
      rw [runFor_inr hbody] at hrun
      exact Option.some.inj hrun ▸ hleave s r' hs hbody

/-- **The measure rule.**  If every pass that goes on makes the measure smaller, the loop is
left. -/
theorem exists_returns (I : σ → Prop) (μ : σ → ℕ)
    (hkeep : ∀ s t, I s → body s = .inl t → I t ∧ μ t < μ s) (hs : I s) :
    ∃ r, Returns body s r := by
  induction h : μ s using Nat.strongRecOn generalizing s with
  | _ n ih =>
    cases hbody : body s with
    | inl t =>
      obtain ⟨ht, hlt⟩ := hkeep s t hs hbody
      obtain ⟨r, hr⟩ := ih (μ t) (h ▸ hlt) ht rfl
      exact ⟨r, (returns_inl_iff hbody).mpr hr⟩
    | inr r => exact ⟨r, (returns_inr_iff hbody).mpr rfl⟩

/-- **Total correctness.**  If every pass from a state with the invariant goes on with it and makes
the measure smaller, or leaves the loop with a good result, the loop is left with a good result. -/
theorem exists_returns_good (I : σ → Prop) (Q : ρ → Prop) (μ : σ → ℕ)
    (hpass : ∀ s, I s →
      (∃ t, body s = .inl t ∧ I t ∧ μ t < μ s) ∨ ∃ r, body s = .inr r ∧ Q r) (hs : I s) :
    ∃ r, Returns body s r ∧ Q r := by
  have hkeep : ∀ s t, I s → body s = .inl t → I t ∧ μ t < μ s := by
    intro s t hI hbody
    rcases hpass s hI with ⟨t', hgo, ht⟩ | ⟨r, hleave, -⟩
    · exact Sum.inl.inj (hgo.symm.trans hbody) ▸ ht
    · cases hleave.symm.trans hbody
  have hleave : ∀ s r, I s → body s = .inr r → Q r := by
    intro s r hI hbody
    rcases hpass s hI with ⟨t, hgo, -⟩ | ⟨r', hleave, hr⟩
    · cases hgo.symm.trans hbody
    · exact Sum.inr.inj (hleave.symm.trans hbody) ▸ hr
  obtain ⟨r, hr⟩ := exists_returns I μ hkeep hs
  exact ⟨r, hr, hr.invariant I Q (fun s t hI hbody => (hkeep s t hI hbody).1) hleave hs⟩

/-- **A loop whose passes are known one by one.**  `S k` describes the state before pass `k`, and
`stop k` says whether pass `k` leaves the loop; then the loop has a good result exactly if the first
pass that leaves it is one whose result is good. -/
theorem returns_iff_of_stages (S : ℕ → σ → Prop) (stop good : ℕ → Prop) (Q : ρ → Prop)
    (hgo : ∀ k s, S k s → ¬ stop k → ∃ t, body s = .inl t ∧ S (k + 1) t)
    (hstop : ∀ k s, S k s → stop k → ∃ r, body s = .inr r ∧ (Q r ↔ good k)) {k : ℕ}
    (hs : S k s) :
    (∃ r, Returns body s r ∧ Q r) ↔
      ∃ j, k ≤ j ∧ (∀ i, k ≤ i → i < j → ¬ stop i) ∧ stop j ∧ good j := by
  constructor
  · rintro ⟨r, ⟨fuel, hrun⟩, hQ⟩
    induction fuel generalizing s k with
    | zero => cases hrun
    | succ fuel ih =>
      by_cases hk : stop k
      · obtain ⟨r', hbody, hgood⟩ := hstop k s hs hk
        obtain rfl := Option.some.inj ((runFor_inr hbody fuel).symm.trans hrun)
        exact ⟨k, Nat.le_refl k, fun i hi hlt => absurd hlt (Nat.not_lt.mpr hi), hk, hgood.mp hQ⟩
      · obtain ⟨t, hbody, ht⟩ := hgo k s hs hk
        obtain ⟨j, hj, hfirst, hstopj, hgood⟩ := ih ht (runFor_inl hbody fuel ▸ hrun)
        refine ⟨j, Nat.le_of_succ_le hj, fun i hi hlt => ?_, hstopj, hgood⟩
        rcases Nat.eq_or_lt_of_le hi with rfl | hi
        · exact hk
        · exact hfirst i hi hlt
  · rintro ⟨j, hj, hfirst, hstopj, hgood⟩
    obtain ⟨n, rfl⟩ := Nat.exists_eq_add_of_le hj
    induction n generalizing s k with
    | zero =>
      obtain ⟨r, hbody, hQ⟩ := hstop k s hs hstopj
      exact ⟨r, (returns_inr_iff hbody).mpr rfl, hQ.mpr hgood⟩
    | succ n ih =>
      obtain ⟨t, hbody, ht⟩ := hgo k s hs (hfirst k (Nat.le_refl k) (by omega))
      have hj' : k + (n + 1) = k + 1 + n := by omega
      rw [hj'] at hj hfirst hstopj hgood
      obtain ⟨r, hr, hQ⟩ := ih ht (by omega) (fun i hi hlt => hfirst i (by omega) hlt) hstopj hgood
      exact ⟨r, (returns_inl_iff hbody).mpr hr, hQ⟩

/-- The same from the first pass on, for what is made of the result of the loop. -/
theorem exists_map_runFor_iff {β : Type*} (finish : ρ → β) (S : ℕ → σ → Prop)
    (stop good : ℕ → Prop) (Q : β → Prop)
    (hgo : ∀ k s, S k s → ¬ stop k → ∃ t, body s = .inl t ∧ S (k + 1) t)
    (hstop : ∀ k s, S k s → stop k → ∃ r, body s = .inr r ∧ (Q (finish r) ↔ good k))
    (hs : S 0 s) :
    (∃ fuel b, (runFor body fuel s).map finish = some b ∧ Q b) ↔
      ∃ k, (∀ i < k, ¬ stop i) ∧ stop k ∧ good k := by
  have hloop := returns_iff_of_stages S stop good (fun r => Q (finish r)) hgo hstop hs
  constructor
  · rintro ⟨fuel, b, hrun, hQ⟩
    obtain ⟨r, hr, rfl⟩ := Option.map_eq_some_iff.mp hrun
    obtain ⟨k, -, hfirst, hk, hgood⟩ := hloop.mp ⟨r, ⟨fuel, hr⟩, hQ⟩
    exact ⟨k, fun i hi => hfirst i (Nat.zero_le i) hi, hk, hgood⟩
  · rintro ⟨k, hfirst, hk, hgood⟩
    obtain ⟨r, ⟨fuel, hr⟩, hQ⟩ :=
      hloop.mpr ⟨k, Nat.zero_le k, fun i _ hi => hfirst i hi, hk, hgood⟩
    exact ⟨fuel, finish r, by rw [hr]; rfl, hQ⟩

/-- **A loop of known length.** `S k` describes the state before pass `k` if all passes so far were
fine, and the loop is left with a good result behind the last one; if no good result can come after
a pass that is not fine, the loop has a good result exactly if all passes are fine. -/
theorem exists_returns_iff_forall (n : ℕ) (S : ℕ → σ → Prop) (fine : ℕ → Prop) (Q : ρ → Prop)
    (hgo : ∀ k s, k < n → S k s → fine k → ∃ t, body s = .inl t ∧ S (k + 1) t)
    (hend : ∀ s, S n s → ∃ r, body s = .inr r ∧ Q r)
    (hbad : ∀ k s r, k < n → S k s → ¬ fine k → Returns body s r → ¬ Q r) (hs : S 0 s) :
    (∃ r, Returns body s r ∧ Q r) ↔ ∀ k < n, fine k := by
  have hfrom : ∀ m k s, k + m = n → S k s →
      ((∃ r, Returns body s r ∧ Q r) ↔ ∀ j, k ≤ j → j < n → fine j) := by
    intro m
    induction m with
    | zero =>
      intro k s hk hs
      obtain rfl : k = n := hk
      obtain ⟨r, hbody, hQ⟩ := hend s hs
      exact iff_of_true ⟨r, (returns_inr_iff hbody).mpr rfl, hQ⟩
        fun j hj hlt => absurd hlt (Nat.not_lt.mpr hj)
    | succ m ih =>
      intro k s hk hs
      by_cases hfine : fine k
      · obtain ⟨t, hbody, ht⟩ := hgo k s (by omega) hs hfine
        simp only [returns_inl_iff hbody]
        rw [ih (k + 1) t (by omega) ht]
        constructor
        · intro h j hj hlt
          rcases Nat.eq_or_lt_of_le hj with rfl | hj
          · exact hfine
          · exact h j hj hlt
        · exact fun h j hj hlt => h j (Nat.le_of_succ_le hj) hlt
      · refine iff_of_false ?_ fun h => hfine (h k (Nat.le_refl k) (by omega))
        rintro ⟨r, hr, hQ⟩
        exact hbad k s r (by omega) hs hfine hr hQ
  rw [hfrom n 0 s (Nat.zero_add n) hs]
  exact forall_congr' fun j => imp_iff_right (Nat.zero_le j)

end Loop

end Foundation
end CodeStrudy
