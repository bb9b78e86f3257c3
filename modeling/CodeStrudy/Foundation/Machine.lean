import Mathlib.Data.Nat.Notation
import Mathlib.Order.Defs.PartialOrder
import Mathlib.Tactic.ByContra

/-!
# Machines with a partial labelled step function

The programs of this development run as several parties at once, so what they do is a run of a
machine whose label says which party moved and what the kernel answered.  A step is a partial
function of the state and the label: `none` says the move is not possible there (the party is
blocked, or is at another point of its program).  Nothing in this file names a program.

## What is proved

* `ReachableUnder.invariant`: a property of the initial states that every admitted step keeps
  holds in every state reached.  The predicate `C` on state and label says which steps are
  admitted; `Reachable` is the case where all are.
* `restrict`: the machine with some of its steps only.
* `throughout_iff_respects`: the exact form of a run law.  When a step out of a good state leads
  to a good state exactly if it meets `C`, a run stays good from end to end exactly if all its
  steps meet `C`.  `throughout_iff_respects_of_invariant` is the form for an invariant that only
  the steps that meet `C` keep.
* `run_good_iff_respects`: when a fault lasts, the end of a run alone tells whether all steps of
  the run met `C`.
* `Inevitable.of_measure`: what every step comes nearer to is reached by every run that goes on.
* `Execution.invariant`: the invariant rule for whole runs, which go on as long as they can.
* `Simulation.exists_reachable`: reachable states of a machine that simulates another have a
  reachable counterpart there, so the invariants of the abstract machine transfer.
-/

namespace CodeStrudy
namespace Foundation

/-- A machine: its initial states and its partial step function. -/
structure Machine (σ : Type*) (α : Type*) where
  /-- The initial states. -/
  init : σ → Prop
  /-- One step; `none` when the label is not possible in the state. -/
  step : σ → α → Option σ

namespace Machine

variable {σ α τ β : Type*} (M : Machine σ α)

/-! ## Runs -/

/-- The state after a list of steps, if they are all possible. -/
def run : σ → List α → Option σ
  | s, [] => some s
  | s, a :: as => (M.step s a).bind fun t => run t as

theorem run_cons (s : σ) (a : α) (as : List α) :
    M.run s (a :: as) = (M.step s a).bind fun t => M.run t as := rfl

theorem run_append (s : σ) (as bs : List α) :
    M.run s (as ++ bs) = (M.run s as).bind fun t => M.run t bs := by
  induction as generalizing s with
  | nil => rfl
  | cons a as ih =>
    rw [List.cons_append, run_cons, run_cons, Option.bind_assoc]
    exact congrArg _ (funext ih)

/-- A run that goes on by one step. -/
theorem run_append_step {M : Machine σ α} {s t u : σ} {as : List α} {a : α}
    (hrun : M.run s as = some t) (hst : M.step t a = some u) : M.run s (as ++ [a]) = some u := by
  rw [run_append, hrun]
  show (M.step t a).bind some = some u
  rw [hst]
  rfl

/-- Every step of the run meets `C`. -/
def Respects (C : σ → α → Prop) : σ → List α → Prop
  | _, [] => True
  | s, a :: as => ∀ t, M.step s a = some t → C s a ∧ Respects C t as

instance decidableRespects (C : σ → α → Prop) [∀ s a, Decidable (C s a)] :
    ∀ s as, Decidable (M.Respects C s as)
  | _, [] => .isTrue trivial
  | s, a :: as =>
    match h : M.step s a with
    | none => .isTrue fun _ ht => nomatch h.symm.trans ht
    | some t =>
      have : Decidable (M.Respects C t as) := decidableRespects C t as
      decidable_of_iff (C s a ∧ M.Respects C t as)
        ⟨fun hC _ ht => Option.some.inj (h.symm.trans ht) ▸ hC, fun hC => hC t h⟩

/-! ## Reachable states -/

/-- The states reached from an initial state by steps that all meet `C`. -/
inductive ReachableUnder (C : σ → α → Prop) : σ → Prop
  | init {s : σ} : M.init s → ReachableUnder C s
  | step {s t : σ} {a : α} :
      ReachableUnder C s → C s a → M.step s a = some t → ReachableUnder C t

/-- The states reached from an initial state. -/
def Reachable (s : σ) : Prop := M.ReachableUnder (fun _ _ => True) s

variable {M}

theorem Reachable.init {s : σ} (h : M.init s) : M.Reachable s := ReachableUnder.init h

theorem Reachable.step {s t : σ} {a : α} (h : M.Reachable s) (hst : M.step s a = some t) :
    M.Reachable t :=
  ReachableUnder.step h trivial hst

/-- Admitting more steps reaches more states. -/
theorem ReachableUnder.mono {C D : σ → α → Prop} (hCD : ∀ s a, C s a → D s a) {s : σ}
    (h : M.ReachableUnder C s) : M.ReachableUnder D s := by
  induction h with
  | init h => exact .init h
  | step _ hC hst ih => exact ih.step (hCD _ _ hC) hst

theorem ReachableUnder.reachable {C : σ → α → Prop} {s : σ} (h : M.ReachableUnder C s) :
    M.Reachable s :=
  h.mono fun _ _ _ => trivial

/-- A run of admitted steps out of a state reached by admitted steps ends in such a state. -/
theorem ReachableUnder.run {C : σ → α → Prop} {s t : σ} (h : M.ReachableUnder C s)
    (as : List α) (hC : M.Respects C s as) (hrun : M.run s as = some t) :
    M.ReachableUnder C t := by
  induction as generalizing s with
  | nil =>
    have hst : s = t := Option.some.inj hrun
    exact hst ▸ h
  | cons a as ih =>
    rw [run_cons] at hrun
    obtain ⟨u, hu, hut⟩ := Option.bind_eq_some_iff.mp hrun
    obtain ⟨hCs, hCas⟩ := hC u hu
    exact ih (h.step hCs hu) hCas hut

/-- What holds of every step is met by every run. -/
theorem respects_of_forall {C : σ → α → Prop} (hC : ∀ s a, C s a) (s : σ) (as : List α) :
    M.Respects C s as := by
  induction as generalizing s with
  | nil => trivial
  | cons a as ih => exact fun t _ => ⟨hC s a, ih t⟩

theorem respects_true (s : σ) (as : List α) : M.Respects (fun _ _ => True) s as :=
  respects_of_forall (fun _ _ => trivial) s as

/-- A run out of a reachable state ends in a reachable state. -/
theorem Reachable.run {s t : σ} (h : M.Reachable s) (as : List α)
    (hrun : M.run s as = some t) : M.Reachable t :=
  ReachableUnder.run h as (respects_true s as) hrun

/-- A run from an initial state shows a reachable state. -/
theorem Reachable.exists_of_run {s : σ} (hs : M.init s) (as : List α) {p : σ → Bool}
    (h : (M.run s as).any p = true) : ∃ t, M.run s as = some t ∧ M.Reachable t ∧ p t = true := by
  obtain ⟨t, hrun, ht⟩ := (Option.any_eq_true _ _).mp h
  exact ⟨t, hrun, (Reachable.init hs).run as hrun, ht⟩

/-- **The invariant rule.**  What holds initially and is kept by every admitted step holds in
every state reached by admitted steps. -/
theorem ReachableUnder.invariant {C : σ → α → Prop} {I : σ → Prop}
    (hinit : ∀ s, M.init s → I s)
    (hstep : ∀ s a t, I s → C s a → M.step s a = some t → I t) {s : σ}
    (h : M.ReachableUnder C s) : I s := by
  induction h with
  | init h => exact hinit _ h
  | step _ hC hst ih => exact hstep _ _ _ ih hC hst

/-- The invariant rule when every step is admitted. -/
theorem Reachable.invariant {I : σ → Prop} (hinit : ∀ s, M.init s → I s)
    (hstep : ∀ s a t, I s → M.step s a = some t → I t) {s : σ} (h : M.Reachable s) : I s :=
  ReachableUnder.invariant hinit (fun s a t hI _ hst => hstep s a t hI hst) h

/-! ## Leaving steps out -/

variable (M)

/-- The machine with the steps that meet `C` only. -/
def restrict (C : σ → α → Prop) [∀ s a, Decidable (C s a)] : Machine σ α where
  init := M.init
  step s a := if C s a then M.step s a else none

variable {M}

theorem restrict_step_eq_some_iff {C : σ → α → Prop} [∀ s a, Decidable (C s a)] {s t : σ} {a : α} :
    (M.restrict C).step s a = some t ↔ C s a ∧ M.step s a = some t :=
  Option.ite_none_right_eq_some

/-! ## Exact run laws -/

variable (M)

/-- `P` holds in every state of the run, the first one included. -/
def Throughout (P : σ → Prop) : σ → List α → Prop
  | s, [] => P s
  | s, a :: as => P s ∧ ∀ t, M.step s a = some t → Throughout P t as

variable {M}

theorem Throughout.head {P : σ → Prop} {s : σ} {as : List α} (h : M.Throughout P s as) : P s := by
  cases as with
  | nil => exact h
  | cons a as => exact h.1

/-- A property that holds throughout a run holds at its end. -/
theorem Throughout.of_run {P : σ → Prop} {s t : σ} {as : List α} (h : M.Throughout P s as)
    (hrun : M.run s as = some t) : P t := by
  induction as generalizing s with
  | nil => exact Option.some.inj hrun ▸ h
  | cons a as ih =>
    obtain ⟨u, hu, hut⟩ := Option.bind_eq_some_iff.mp hrun
    exact ih (h.2 u hu) hut

/-- **The exact run law, for an invariant of the good part of a run.**  The steps that meet `C` keep
`I`, which makes a state good; a step out of such a state that fails `C` leaves the good states. -/
theorem throughout_iff_respects_of_invariant {C : σ → α → Prop} {I P : σ → Prop}
    (hP : ∀ s, I s → P s)
    (hkeep : ∀ s a t, I s → M.step s a = some t → C s a → I t)
    (hfail : ∀ s a t, I s → M.step s a = some t → ¬ C s a → ¬ P t) {s : σ} (as : List α)
    (hs : I s) : M.Throughout P s as ↔ M.Respects C s as := by
  induction as generalizing s with
  | nil => exact iff_of_true (hP s hs) trivial
  | cons a as ih =>
    constructor
    · intro h t ht
      have hC : C s a := by
        by_contra hC
        exact hfail s a t hs ht hC (h.2 t ht).head
      exact ⟨hC, (ih (hkeep s a t hs ht hC)).mp (h.2 t ht)⟩
    · refine fun h => ⟨hP s hs, fun t ht => ?_⟩
      obtain ⟨hC, hrest⟩ := h t ht
      exact (ih (hkeep s a t hs ht hC)).mpr hrest

/-- **The exact run law.**  If an invariant `I` makes every step out of a good state lead to a good
state exactly when the step meets `C`, then a run is good throughout exactly when all its steps
meet `C`: the first step that fails `C` is the one that leaves the good states. -/
theorem throughout_iff_respects {C : σ → α → Prop} {I P : σ → Prop}
    (hI : ∀ s a t, I s → M.step s a = some t → I t)
    (hP : ∀ s a t, I s → P s → M.step s a = some t → (P t ↔ C s a)) {s : σ} (as : List α)
    (hs : I s) (hPs : P s) : M.Throughout P s as ↔ M.Respects C s as := by
  refine throughout_iff_respects_of_invariant (I := fun s => I s ∧ P s) (fun _ h => h.2) ?_ ?_ as
    ⟨hs, hPs⟩
  · intro s a t h hst hC
    exact ⟨hI s a t h.1 hst, (hP s a t h.1 h.2 hst).mpr hC⟩
  · intro s a t h hst hC hPt
    exact hC ((hP s a t h.1 h.2 hst).mp hPt)

/-- What an invariant makes every step keep, a run keeps. -/
theorem run_keeps {I G : σ → Prop} (hI : ∀ s a t, I s → M.step s a = some t → I t)
    (hG : ∀ s a t, I s → G s → M.step s a = some t → G t) {s t : σ} (as : List α) (hs : I s)
    (hGs : G s) (hrun : M.run s as = some t) : G t := by
  induction as generalizing s with
  | nil => exact Option.some.inj hrun ▸ hGs
  | cons a as ih =>
    obtain ⟨u, hu, hut⟩ := Option.bind_eq_some_iff.mp hrun
    exact ih (hI s a u hs hu) (hG s a u hs hGs hu) hut

/-- **The law of lasting faults.**  If a step out of a good state leads to a good state exactly when
it meets `C`, and no step leads from the bad states back, then a run ends in a good state exactly
when all its steps meet `C`. -/
theorem run_good_iff_respects {C : σ → α → Prop} {I G : σ → Prop}
    (hI : ∀ s a t, I s → M.step s a = some t → I t)
    (hG : ∀ s a t, I s → G s → M.step s a = some t → (G t ↔ C s a))
    (hlast : ∀ s a t, I s → ¬ G s → M.step s a = some t → ¬ G t) {s t : σ} (as : List α)
    (hs : I s) (hGs : G s) (hrun : M.run s as = some t) : G t ↔ M.Respects C s as := by
  induction as generalizing s with
  | nil => exact iff_of_true (Option.some.inj hrun ▸ hGs) trivial
  | cons a as ih =>
    obtain ⟨u, hu, hut⟩ := Option.bind_eq_some_iff.mp hrun
    have hIu : I u := hI s a u hs hu
    constructor
    · intro hGt v hv
      obtain rfl : u = v := Option.some.inj (hu.symm.trans hv)
      have hGu : G u := by
        by_contra hGu
        exact run_keeps hI hlast as hIu hGu hut hGt
      exact ⟨(hG s a u hs hGs hu).mp hGu, (ih hIu hGu hut).mp hGt⟩
    · intro h
      obtain ⟨hC, hrest⟩ := h u hu
      exact (ih hIu ((hG s a u hs hGs hu).mpr hC) hut).mpr hrest

/-! ## Inevitability -/

variable (M)

/-- Every run out of the state that goes on as long as it can comes to a state of `P`. -/
inductive Inevitable (P : σ → Prop) : σ → Prop
  | now {s : σ} : P s → Inevitable P s
  | later {s : σ} : (∃ a t, M.step s a = some t) →
      (∀ a t, M.step s a = some t → Inevitable P t) → Inevitable P s

variable {M}

/-- **The measure rule.**  If outside of `P` a step is always possible, and every step leads to `P`
or makes the measure smaller, then `P` is inevitable. -/
theorem Inevitable.of_measure {I P : σ → Prop} (μ : σ → ℕ)
    (hgo : ∀ s, I s → ¬ P s → ∃ a t, M.step s a = some t)
    (hstep : ∀ s a t, I s → ¬ P s → M.step s a = some t → P t ∨ I t ∧ μ t < μ s) {s : σ}
    (hs : I s) : M.Inevitable P s := by
  induction h : μ s using Nat.strongRecOn generalizing s with
  | _ n ih =>
    by_cases hP : P s
    · exact .now hP
    · refine .later (hgo s hs hP) fun a t hst => ?_
      rcases hstep s a t hs hP hst with hPt | ⟨hIt, hlt⟩
      · exact .now hPt
      · exact ih (μ t) (h ▸ hlt) hIt rfl

/-- A state that has no step. -/
def Stuck (M : Machine σ α) (s : σ) : Prop := ∀ a, M.step s a = none

/-- What is inevitable and lasts stays inevitable along a run. -/
theorem Inevitable.run_of_stable {P : σ → Prop}
    (hP : ∀ s a t, P s → M.step s a = some t → P t) {s t : σ} (h : M.Inevitable P s) (as : List α)
    (hrun : M.run s as = some t) : M.Inevitable P t := by
  induction as generalizing s with
  | nil => exact Option.some.inj hrun ▸ h
  | cons a as ih =>
    obtain ⟨u, hu, hut⟩ := Option.bind_eq_some_iff.mp hrun
    refine ih ?_ hut
    cases h with
    | now hs => exact .now (hP s a u hs hu)
    | later _ hall => exact hall a u hu

/-- What is inevitable and final stays inevitable along a run. -/
theorem Inevitable.run {P : σ → Prop} (hfinal : ∀ s, P s → M.Stuck s) {s t : σ}
    (h : M.Inevitable P s) (as : List α) (hrun : M.run s as = some t) : M.Inevitable P t :=
  h.run_of_stable (fun s a _ hs hst => by cases (hfinal s hs a).symm.trans hst) as hrun

/-- Two outcomes that are final and exclude each other are not both inevitable. -/
theorem Inevitable.not_both {P Q : σ → Prop} (hP : ∀ s, P s → M.Stuck s)
    (hQ : ∀ s, Q s → M.Stuck s) (hPQ : ∀ s, P s → ¬ Q s) {s : σ} (h : M.Inevitable P s) :
    ¬ M.Inevitable Q s := by
  induction h with
  | now hPs =>
    intro hInev
    cases hInev with
    | now hQs => exact hPQ _ hPs hQs
    | later hgo _ =>
      obtain ⟨a, t, hst⟩ := hgo
      cases (hP _ hPs a).symm.trans hst
  | later hgo _ ih =>
    obtain ⟨a, t, hst⟩ := hgo
    intro hInev
    cases hInev with
    | now hQs => cases (hQ _ hQs a).symm.trans hst
    | later _ hall => exact ih a t hst (hall a t hst)

/-- **What an invariant keeps away.**  If every state of `I` fails `P` and every step keeps `I`,
then `P` is not inevitable. -/
theorem Inevitable.not_of_invariant {I P : σ → Prop} (hI : ∀ s a t, I s → M.step s a = some t → I t)
    (hP : ∀ s, I s → ¬ P s) {s : σ} (hs : I s) : ¬ M.Inevitable P s := by
  intro h
  induction h with
  | now hPs => exact hP _ hs hPs
  | later hgo _ ih =>
    obtain ⟨a, t, hst⟩ := hgo
    exact ih a t hst (hI _ a t hs hst)

/-- **The measure rule for one run.**  If out of every state of `I` some step leads to `P`, or to a
state of `I` that is nearer, then some run leads to `P`. -/
theorem exists_run_of_measure {I P : σ → Prop} (μ : σ → ℕ)
    (hstep : ∀ s, I s → ∃ a t, M.step s a = some t ∧ (P t ∨ I t ∧ μ t < μ s)) {s : σ}
    (hs : I s) : ∃ as t, M.run s as = some t ∧ P t := by
  induction h : μ s using Nat.strongRecOn generalizing s with
  | _ n ih =>
    obtain ⟨a, t, hst, hPt | ⟨hIt, hlt⟩⟩ := hstep s hs
    · exact ⟨[a], t, by rw [run_cons, hst]; rfl, hPt⟩
    · obtain ⟨as, u, hrun, hPu⟩ := ih (μ t) (h ▸ hlt) hIt rfl
      exact ⟨a :: as, u, by rw [run_cons, hst]; exact hrun, hPu⟩

/-! ## Whole runs -/

/-- A whole run: it goes on as long as it can, for ever or up to a state without a step, where it
stays. -/
structure Execution (M : Machine σ α) (s : σ) where
  state : ℕ → σ
  label : ℕ → α
  start : state 0 = s
  next : ∀ n, M.step (state n) (label n) = some (state (n + 1)) ∨
    M.Stuck (state n) ∧ state (n + 1) = state n

/-- **The invariant rule for a whole run**, whose steps are known to meet `C` as long as the
invariant holds. -/
theorem Execution.invariant {C : σ → α → Prop} {I : σ → Prop} {s : σ} (e : M.Execution s)
    (hs : I s) (hC : ∀ n, I (e.state n) → C (e.state n) (e.label n))
    (hstep : ∀ s a t, I s → C s a → M.step s a = some t → I t) (n : ℕ) : I (e.state n) := by
  induction n with
  | zero => exact e.start.symm ▸ hs
  | succ n ih =>
    rcases e.next n with hst | ⟨-, hsame⟩
    · exact hstep _ _ _ ih (hC n ih) hst
    · exact hsame.symm ▸ ih

/-- Where a step is possible, the run makes one. -/
theorem Execution.step_of_not_stuck {s : σ} (e : M.Execution s) {n : ℕ}
    (h : ¬ M.Stuck (e.state n)) : M.step (e.state n) (e.label n) = some (e.state (n + 1)) :=
  (e.next n).resolve_right fun hstuck => h hstuck.1

/-! ## Simulation -/

/-- A simulation of `M`, along the steps that meet `C`, by `N`: every step of `M` is matched by at
most one step of `N`. -/
structure Simulation (M : Machine σ α) (C : σ → α → Prop) (N : Machine τ β) where
  /-- Which abstract states stand for a concrete one. -/
  rel : σ → τ → Prop
  /-- Initial states have an initial counterpart. -/
  init : ∀ s, M.init s → ∃ t, N.init t ∧ rel s t
  /-- A concrete step is a stutter or one abstract step.  The abstract state is reachable, so its
  invariants may be used. -/
  step : ∀ s t a s', N.Reachable t → rel s t → C s a → M.step s a = some s' →
    rel s' t ∨ ∃ b t', N.step t b = some t' ∧ rel s' t'

/-- **Transfer along a simulation.**  A reachable concrete state has a reachable abstract
counterpart. -/
theorem Simulation.exists_reachable {C : σ → α → Prop} {N : Machine τ β}
    (S : Simulation M C N) {s : σ} (h : M.ReachableUnder C s) :
    ∃ t, N.Reachable t ∧ S.rel s t := by
  induction h with
  | init h =>
    obtain ⟨t, ht, hst⟩ := S.init _ h
    exact ⟨t, Reachable.init ht, hst⟩
  | step _ hC hst ih =>
    obtain ⟨t, ht, hrel⟩ := ih
    rcases S.step _ _ _ _ ht hrel hC hst with hrel' | ⟨b, t', hb, hrel'⟩
    · exact ⟨t, ht, hrel'⟩
    · exact ⟨t', ht.step hb, hrel'⟩

end Machine

end Foundation
end CodeStrudy
