import CodeStrudy.OneTimeInit.Once
import Mathlib.Algebra.BigOperators.Group.Finset.Basic
import Mathlib.Algebra.Order.BigOperators.Group.Finset

/-!
# Every call returns

`one_time_init` of `practice/31.1` waits for its mutex only, and whoever holds the mutex can go on;
the routine is taken to come to its end.

## What is proved

* `exists_go`: as long as a call is in progress, one of the calls can go on.
* `calls_return`: from any state reached, all runs come to the return of all calls that are in
  progress, if no new ones are made.
-/

namespace CodeStrudy
namespace OneTimeInit

open Foundation

variable {τ : Type*} [DecidableEq τ] {s s' : State τ} {t : τ}

/-- How many steps of a call are left. -/
def Pc.rank : Pc → ℕ
  | .outside => 0
  | .ret _ => 1
  | .unlock _ => 2
  | .store => 3
  | .running => 4
  | .init => 5
  | .test => 6
  | .lock => 7

/-- What a step does to the program counters. -/
theorem pc_of_oneTimeInit (h : oneTimeInit s t = some s') :
    ∃ p : Pc, p.rank < (s.pc t).rank ∧ s'.pc = Function.update s.pc t p := by
  cases hpc : s.pc t <;> simp only [oneTimeInit, hpc] at h
  case outside => cases h
  case lock =>
    obtain ⟨-, h⟩ := Option.ite_none_right_eq_some.mp h
    cases h
    exact ⟨.test, by decide, rfl⟩
  case test =>
    cases h
    refine ⟨_, ?_, rfl⟩
    split <;> decide
  case init =>
    cases h
    exact ⟨.running, by decide, rfl⟩
  case running =>
    cases h
    exact ⟨.store, by decide, rfl⟩
  case store =>
    cases h
    exact ⟨.unlock 0, by decide, rfl⟩
  case unlock value =>
    cases h
    exact ⟨.ret value, Nat.lt_succ_self 1, rfl⟩
  case ret value =>
    cases h
    exact ⟨.outside, Nat.lt_succ_self 0, rfl⟩

/-- A thread in its section can go on. -/
theorem exists_go_of_critical (h : (s.pc t).Critical) : ∃ s', oneTimeInit s t = some s' := by
  cases hpc : s.pc t <;> rw [hpc] at h <;> simp only [oneTimeInit, hpc]
  case outside | lock | ret => exact absurd h id
  all_goals exact ⟨_, rfl⟩

/-- **As long as a call is in progress, one of the calls can go on.** -/
theorem exists_go (hI : Inv s) (h : ¬ ∀ t, s.pc t = .outside) :
    ∃ t s', oneTimeInit s t = some s' := by
  cases hmutex : s.mutex with
  | some u => exact ⟨u, exists_go_of_critical ((hI.owned u).mpr hmutex)⟩
  | none =>
    obtain ⟨t, ht⟩ := not_forall.mp h
    have hout : ¬ (s.pc t).Critical := fun hcrit => by
      cases hmutex.symm.trans ((hI.owned t).mp hcrit)
    refine ⟨t, ?_⟩
    cases hpc : s.pc t <;> rw [hpc] at hout <;> simp only [oneTimeInit, hpc]
    case outside => exact absurd hpc ht
    case lock =>
      rw [if_pos hmutex]
      exact ⟨_, rfl⟩
    case ret => exact ⟨_, rfl⟩
    all_goals exact absurd trivial hout

/-- The step belongs to a call that has been made. -/
def GoesOn (_ : State τ) : Label τ → Prop
  | .go _ => True
  | .call _ => False

instance : ∀ (s : State τ) (a : Label τ), Decidable (GoesOn s a)
  | _, .go _ => .isTrue trivial
  | _, .call _ => .isFalse id

/-- **Every call returns.**  For any number of threads, from every state reached and in any order of
the steps: if no new calls are made, all runs come to a state in which all calls have returned. -/
theorem calls_return [Fintype τ] (h : (machine τ).Reachable s) :
    ((machine τ).restrict GoesOn).Inevitable (fun s => ∀ t, s.pc t = .outside) s := by
  have hI : Inv s := by
    refine h.invariant ?_ inv_step
    rintro _ rfl
    exact inv_initial
  refine Machine.Inevitable.of_measure (I := Inv) (fun s => ∑ t, (s.pc t).rank)
    (fun s hI hout => ?_) (fun s a s' hI _ hst => ?_) hI
  · obtain ⟨t, s', hst⟩ := exists_go hI hout
    exact ⟨.go t, s', Machine.restrict_step_eq_some_iff.mpr ⟨trivial, hst⟩⟩
  · obtain ⟨hgo, hst⟩ := Machine.restrict_step_eq_some_iff.mp hst
    refine .inr ⟨inv_step s a s' hI hst, ?_⟩
    cases a with
    | call t => exact absurd hgo id
    | go t =>
      obtain ⟨p, hlt, hpc⟩ := pc_of_oneTimeInit hst
      refine Finset.sum_lt_sum (fun u _ => ?_) ⟨t, Finset.mem_univ t, ?_⟩
      · rw [hpc]
        by_cases hu : u = t
        · rw [hu, Function.update_self]
          exact hlt.le
        · rw [Function.update_of_ne hu]
      · rw [hpc, Function.update_self]
        exact hlt

/-- Two threads have called, and one of them has the mutex. -/
def twoCalls : List (Label (Fin 2)) :=
  [.call ⟨0, Nat.two_pos⟩, .go ⟨0, Nat.two_pos⟩, .call ⟨1, Nat.one_lt_two⟩, .go ⟨0, Nat.two_pos⟩]

theorem calls_return_two_threads :
    ∃ s, (machine (Fin 2)).run (initial (Fin 2)) twoCalls = some s ∧
      ((machine (Fin 2)).restrict GoesOn).Inevitable (fun s => ∀ t, s.pc t = .outside) s := by
  have hinit : (machine (Fin 2)).Reachable (initial (Fin 2)) := .init rfl
  exact ⟨_, rfl, calls_return (hinit.run twoCalls rfl)⟩

end OneTimeInit
end CodeStrudy
