import Mathlib.Logic.Function.Basic

/-!
# A mutex and the threads inside its sections

A mutex is the thread that holds it, if any.  `Owned` says that the threads inside their critical
sections are exactly the holder; the lemmas say which moves of one thread keep it so.  Nothing in
this file names a program.
-/

namespace CodeStrudy
namespace Foundation
namespace Mutex

variable {τ π : Type*} {holder : Option τ} {inside inside' : τ → Prop} {t u : τ}

/-- The threads inside their critical sections are those that hold the mutex. -/
def Owned (holder : Option τ) (inside : τ → Prop) : Prop := ∀ t, inside t ↔ holder = some t

/-- **Mutual exclusion.** -/
theorem Owned.eq_of_inside (h : Owned holder inside) (ht : inside t) (hu : inside u) : u = t :=
  Option.some.inj (((h u).mp hu).symm.trans ((h t).mp ht))

/-- With nobody inside the mutex is free. -/
theorem Owned.eq_none (h : Owned holder inside) (hout : ∀ t, ¬ inside t) : holder = none := by
  cases hh : holder with
  | none => rfl
  | some t => exact absurd ((h t).mpr hh) (hout t)

theorem Owned.congr (h : Owned holder inside) (hsame : ∀ t, inside' t ↔ inside t) :
    Owned holder inside' :=
  fun t => (hsame t).trans (h t)

/-- A thread locks the mutex. -/
theorem Owned.lock (h : Owned none inside) (hin : inside' t)
    (hother : ∀ u, u ≠ t → (inside' u ↔ inside u)) : Owned (some t) inside' := by
  intro u
  by_cases hu : u = t
  · rw [hu]
    exact iff_of_true hin rfl
  · rw [hother u hu, h u]
    exact iff_of_false (Option.some_ne_none u).symm fun ht => hu (Option.some.inj ht).symm

/-- The holder unlocks the mutex. -/
theorem Owned.unlock (h : Owned holder inside) (hin : inside t) (hout : ¬ inside' t)
    (hother : ∀ u, u ≠ t → (inside' u ↔ inside u)) : Owned none inside' := by
  intro u
  refine iff_of_false (fun hu => ?_) (Option.some_ne_none u).symm
  by_cases hut : u = t
  · exact hout (hut ▸ hu)
  · exact hut (h.eq_of_inside hin ((hother u hut).mp hu))

/-! ## Threads with program counters -/

variable [DecidableEq τ] {pc : τ → π} {C : π → Prop} {p : π}

/-- What one thread's new program counter means for the others. -/
theorem inside_update_of_ne (hu : u ≠ t) :
    C (Function.update pc t p u) ↔ C (pc u) := by
  rw [Function.update_of_ne hu]

/-- A thread moves on without entering or leaving its section. -/
theorem Owned.move (h : Owned holder fun t => C (pc t))
    (hp : C p ↔ C (pc t)) :
    Owned holder fun u => C (Function.update pc t p u) := by
  refine h.congr fun u => ?_
  by_cases hu : u = t
  · rw [hu, Function.update_self]
    exact hp
  · exact inside_update_of_ne hu

/-- A thread locks the mutex and enters its section. -/
theorem Owned.enter (h : Owned none fun t => C (pc t)) (hp : C p) :
    Owned (some t) fun u => C (Function.update pc t p u) := by
  refine h.lock ?_ fun u hu => inside_update_of_ne hu
  rw [Function.update_self]
  exact hp

/-- A thread unlocks the mutex and leaves its section. -/
theorem Owned.leave (h : Owned holder fun t => C (pc t)) (hin : C (pc t))
    (hp : ¬ C p) : Owned none fun u => C (Function.update pc t p u) := by
  refine h.unlock hin ?_ fun u hu => inside_update_of_ne hu
  rw [Function.update_self]
  exact hp

end Mutex
end Foundation
end CodeStrudy
