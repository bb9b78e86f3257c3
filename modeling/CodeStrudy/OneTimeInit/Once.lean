import CodeStrudy.Foundation.Machine
import CodeStrudy.Foundation.Mutex
import Mathlib.Data.Int.Notation
import Mathlib.Data.List.Count

/-!
# One-time initialisation

`one_time_init` of `practice/31.1` runs a routine for the first of its callers, under a mutex that
all of them lock first.  Any number of threads call it, any number of times, on one control block
that was set up by `ONE_TIME_INITIALIZER`.  The routine starts and ends in two steps, and may take
as long as it likes between them.

## What is proved

`once_correct`: in every state reached the routine has been started at most once, no call has
returned before it was completed, each call has returned 0 if it ran the routine and -1 otherwise,
and the mutex is free if no call is in progress.
-/

namespace CodeStrudy
namespace OneTimeInit

open Foundation

/-- Where a thread is: outside of `one_time_init`, or at a step of it.  `init` is the call of the
routine, `running` is inside of it, and `store` is the assignment to `once->once`.  `unlock` and
`ret` carry the value to be returned. -/
inductive Pc where
  | outside
  | lock
  | test
  | init
  | running
  | store
  | unlock (value : ℤ)
  | ret (value : ℤ)
  deriving DecidableEq

/-- The thread is between its `pthread_mutex_lock` and its `pthread_mutex_unlock`. -/
def Pc.Critical : Pc → Prop
  | .test | .init | .running | .store | .unlock _ => True
  | _ => False

/-- A call that has returned. -/
structure Returned where
  /-- It ran the routine. -/
  ran : Bool
  value : ℤ
  deriving DecidableEq

/-- The control block, the threads, and the history of the calls. -/
structure State (τ : Type*) where
  /-- `once->once`. -/
  once : Bool
  /-- The thread that holds `once->mutex`. -/
  mutex : Option τ
  pc : τ → Pc
  /-- The thread's call in progress has started the routine. -/
  ran : τ → Bool
  /-- How often the routine has been started, and completed. -/
  started : ℕ
  completed : ℕ
  returned : List Returned

/-- A thread calls `one_time_init`, or goes on in its call. -/
inductive Label (τ : Type*) where
  | call (t : τ)
  | go (t : τ)

/-- The block as `ONE_TIME_INITIALIZER` sets it up. -/
def initial (τ : Type*) : State τ :=
  ⟨false, none, fun _ => .outside, fun _ => false, 0, 0, []⟩

variable {τ : Type*}

section Program

variable [DecidableEq τ]

/-- Thread `t` goes on to `p`. -/
def State.goto (s : State τ) (t : τ) (p : Pc) : State τ :=
  { s with pc := Function.update s.pc t p }

/-- The next step of `one_time_init` in thread `t`. -/
def oneTimeInit (s : State τ) (t : τ) : Option (State τ) :=
  match s.pc t with
  | .outside => none
  | .lock => if s.mutex = none then some { s.goto t .test with mutex := some t } else none
  | .test => some (s.goto t (if s.once then .unlock (-1) else .init))
  | .init => some { s.goto t .running with
      started := s.started + 1, ran := Function.update s.ran t true }
  | .running => some { s.goto t .store with completed := s.completed + 1 }
  | .store => some { s.goto t (.unlock 0) with once := true }
  | .unlock value => some { s.goto t (.ret value) with mutex := none }
  | .ret value => some { s.goto t .outside with
      ran := Function.update s.ran t false
      returned := s.returned ++ [⟨s.ran t, value⟩] }

/-- One step. -/
def step (s : State τ) : Label τ → Option (State τ)
  | .call t => if s.pc t = .outside then some (s.goto t .lock) else none
  | .go t => oneTimeInit s t

/-- The threads and the block. -/
def machine (τ : Type*) [DecidableEq τ] : Machine (State τ) (Label τ) where
  init s := s = initial τ
  step := step

end Program

/-! ## The property -/

/-- The value that a call returns. -/
def valueOf (ran : Bool) : ℤ := if ran then 0 else -1

/-- The routine runs for one call only, and before any call returns. -/
structure Correct (s : State τ) : Prop where
  started_le : s.started ≤ 1
  completed : s.returned ≠ [] → s.completed = 1
  value : ∀ r ∈ s.returned, r.value = valueOf r.ran
  /-- At most one call that has returned ran the routine. -/
  ran_le : s.returned.countP (·.ran) ≤ 1
  free : (∀ t, s.pc t = .outside) → s.mutex = none

/-! ## The outline -/

/-- What holds of a thread's call at each step of it. -/
def Outline (s : State τ) (ran : Bool) : Pc → Prop
  | .outside | .lock | .test => ran = false
  | .init => ran = false ∧ s.once = false
  | .running => ran = true ∧ s.once = false ∧ s.started = 1 ∧ s.completed = 0
  | .store => ran = true ∧ s.once = false ∧ s.started = 1 ∧ s.completed = 1
  | .unlock value | .ret value => s.once = true ∧ value = valueOf ran

/-- The routine is in progress in this thread. -/
def Pc.Initialising (p : Pc) : Prop := p = .running ∨ p = .store

/-- The invariant of the block. -/
structure Inv (s : State τ) : Prop where
  owned : Mutex.Owned s.mutex fun t => (s.pc t).Critical
  outline : ∀ t, Outline s (s.ran t) (s.pc t)
  on : s.once = true → s.started = 1 ∧ s.completed = 1
  off : s.once = false → (∀ t, ¬ (s.pc t).Initialising) → s.started = 0 ∧ s.completed = 0
  returned : s.returned ≠ [] → s.once = true
  value : ∀ r ∈ s.returned, r.value = valueOf r.ran
  /-- The call that ran the routine is one, in progress or returned. -/
  unique : ∀ t, s.ran t = true →
    s.returned.countP (·.ran) = 0 ∧ ∀ u, s.ran u = true → u = t
  ran_le : s.returned.countP (·.ran) ≤ 1

theorem inv_initial : Inv (initial τ) where
  owned := fun _ => iff_of_false id fun h => nomatch h
  outline := fun _ => rfl
  on := fun h => nomatch h
  off := fun _ _ => ⟨rfl, rfl⟩
  returned := fun h => absurd rfl h
  value := fun _ hr => nomatch hr
  unique := fun _ h => nomatch h
  ran_le := Nat.zero_le _

variable {s s' : State τ} {t u : τ} {p : Pc} {ran : Bool}

theorem Inv.started_le (h : Inv s) : s.started ≤ 1 := by
  cases honce : s.once with
  | true => exact Nat.le_of_eq (h.on honce).1
  | false =>
    by_cases hinit : ∀ u, ¬ (s.pc u).Initialising
    · rw [(h.off honce hinit).1]
      exact Nat.zero_le _
    · obtain ⟨u, hu⟩ := not_forall_not.mp hinit
      have hout := h.outline u
      rcases hu with hu | hu
      · rw [hu] at hout
        exact Nat.le_of_eq hout.2.2.1
      · rw [hu] at hout
        exact Nat.le_of_eq hout.2.2.1

theorem Inv.correct (h : Inv s) : Correct s where
  started_le := h.started_le
  completed := fun hne => (h.on (h.returned hne)).2
  value := h.value
  ran_le := h.ran_le
  free := fun hout => h.owned.eq_none fun t => by rw [hout t]; exact id

/-! ## Moves of one thread -/

/-- A step of another thread leaves what holds of a thread outside of its section. -/
theorem Outline.mono (h : Outline s ran p) (hp : ¬ p.Critical)
    (honce : s.once = true → s'.once = true) : Outline s' ran p := by
  cases p with
  | outside => exact h
  | lock => exact h
  | ret value => exact ⟨honce h.1, h.2⟩
  | test => exact absurd trivial hp
  | init => exact absurd trivial hp
  | running => exact absurd trivial hp
  | store => exact absurd trivial hp
  | unlock value => exact absurd trivial hp

/-- The routine is in progress in no thread when thread `t` is at its test or its call. -/
theorem Inv.not_initialising (h : Inv s) (ht : (s.pc t).Critical)
    (hp : ¬ (s.pc t).Initialising) (u : τ) : ¬ (s.pc u).Initialising := by
  intro hu
  have hcrit : (s.pc u).Critical := by
    rcases hu with hu | hu
    · rw [hu]
      trivial
    · rw [hu]
      trivial
  rw [h.owned.eq_of_inside ht hcrit] at hu
  exact hp hu

/-- Before the routine is started, no call has run it. -/
theorem Inv.ran_eq_false (h : Inv s) (honce : s.once = false)
    (hinit : ∀ u, ¬ (s.pc u).Initialising) (u : τ) : s.ran u = false := by
  have hout := h.outline u
  cases hpc : s.pc u with
  | outside => rwa [hpc] at hout
  | lock => rwa [hpc] at hout
  | test => rwa [hpc] at hout
  | init =>
    rw [hpc] at hout
    exact hout.1
  | running => exact absurd (Or.inl hpc) (hinit u)
  | store => exact absurd (Or.inr hpc) (hinit u)
  | unlock value =>
    rw [hpc] at hout
    exact absurd hout.1 (by simp [honce])
  | ret value =>
    rw [hpc] at hout
    exact absurd hout.1 (by simp [honce])

variable [DecidableEq τ]

/-- The outline after a step of thread `t` from its section: the others are not in theirs. -/
theorem Inv.outline_of_critical (h : Inv s) (ht : (s.pc t).Critical)
    (hpc : s'.pc = Function.update s.pc t p) (hran : ∀ u, u ≠ t → s'.ran u = s.ran u)
    (honce : s.once = true → s'.once = true) (hout : Outline s' (s'.ran t) p) :
    ∀ u, Outline s' (s'.ran u) (s'.pc u) := by
  intro u
  rw [hpc]
  by_cases hu : u = t
  · rw [hu, Function.update_self]
    exact hout
  · rw [Function.update_of_ne hu, hran u hu]
    exact (h.outline u).mono (fun hcrit => hu (h.owned.eq_of_inside ht hcrit)) honce

/-- A thread moves on, and may lock or unlock the mutex, but changes nothing else. -/
theorem Inv.goto (h : Inv s) {m : Option τ}
    (howned : Mutex.Owned m fun u => (Function.update s.pc t p u).Critical)
    (hinit : ¬ (s.pc t).Initialising) (hout : Outline s (s.ran t) p) :
    Inv { s.goto t p with mutex := m } where
  owned := howned
  outline := by
    intro u
    show Outline s (s.ran u) (Function.update s.pc t p u)
    by_cases hu : u = t
    · rw [hu, Function.update_self]
      exact hout
    · rw [Function.update_of_ne hu]
      exact h.outline u
  on := h.on
  off := by
    intro honce hnone
    refine h.off honce fun u => ?_
    by_cases hu : u = t
    · rw [hu]
      exact hinit
    · have hnot : ¬ (Function.update s.pc t p u).Initialising := hnone u
      rwa [Function.update_of_ne hu] at hnot
  returned := h.returned
  value := h.value
  unique := h.unique
  ran_le := h.ran_le

/-- The routine is started. -/
theorem Inv.start (h : Inv s) (hpc : s.pc t = .init) :
    Inv { s.goto t .running with
      started := s.started + 1, ran := Function.update s.ran t true } := by
  have hcrit : (s.pc t).Critical := hpc ▸ trivial
  have hout := h.outline t
  rw [hpc] at hout
  obtain ⟨-, honce⟩ := hout
  have hinit := h.not_initialising hcrit (by rw [hpc]; rintro (h | h) <;> cases h)
  have hran := h.ran_eq_false honce hinit
  obtain ⟨hstarted, hcompleted⟩ := h.off honce hinit
  have hreturned : s.returned = [] := by
    by_contra hne
    exact absurd (h.returned hne) (by simp [honce])
  refine ⟨h.owned.move (iff_of_true trivial hcrit), ?_, ?_, ?_, ?_, h.value, ?_, h.ran_le⟩
  · refine h.outline_of_critical hcrit rfl (fun u hu => Function.update_of_ne hu _ _) id ?_
    exact ⟨Function.update_self _ _ _, honce, by rw [hstarted], hcompleted⟩
  · exact fun hon => absurd hon (by simp [State.goto, honce])
  · intro _ hnone
    exact absurd (Or.inl (Function.update_self t _ _)) (hnone t)
  · exact fun hne => absurd hreturned hne
  · -- no other call has run the routine
    have honly : ∀ v, Function.update s.ran t true v = true → v = t := by
      intro v hv
      by_contra hvt
      rw [Function.update_of_ne hvt, hran v] at hv
      cases hv
    have hcount : s.returned.countP (·.ran) = 0 := by
      rw [hreturned]
      rfl
    intro v hv
    refine ⟨hcount, fun u hu => ?_⟩
    rw [honly u hu, honly v hv]

/-- The routine is completed. -/
theorem Inv.complete (h : Inv s) (hpc : s.pc t = .running) :
    Inv { s.goto t .store with completed := s.completed + 1 } := by
  have hcrit : (s.pc t).Critical := hpc ▸ trivial
  have hout := h.outline t
  rw [hpc] at hout
  obtain ⟨hran, honce, hstarted, hcompleted⟩ := hout
  refine ⟨h.owned.move (iff_of_true trivial hcrit), ?_, ?_, ?_, h.returned, h.value, h.unique,
    h.ran_le⟩
  · refine h.outline_of_critical hcrit rfl (fun _ _ => rfl) id ?_
    exact ⟨hran, honce, hstarted, by rw [hcompleted]⟩
  · exact fun hon => absurd hon (by simp [State.goto, honce])
  · intro _ hnone
    exact absurd (Or.inr (Function.update_self t _ _)) (hnone t)

/-- The flag is set. -/
theorem Inv.setOnce (h : Inv s) (hpc : s.pc t = .store) :
    Inv { s.goto t (.unlock 0) with once := true } := by
  have hcrit : (s.pc t).Critical := hpc ▸ trivial
  have hout := h.outline t
  rw [hpc] at hout
  obtain ⟨hran, -, hstarted, hcompleted⟩ := hout
  refine ⟨h.owned.move (iff_of_true trivial hcrit), ?_, fun _ => ⟨hstarted, hcompleted⟩,
    (fun hoff => nomatch hoff), fun _ => rfl, h.value, h.unique, h.ran_le⟩
  refine h.outline_of_critical hcrit rfl (fun _ _ => rfl) (fun _ => rfl) ⟨rfl, ?_⟩
  show 0 = valueOf (s.ran t)
  rw [hran]
  rfl

/-- A call returns. -/
theorem Inv.ret {value : ℤ} (h : Inv s) (hpc : s.pc t = .ret value) :
    Inv { s.goto t .outside with
      ran := Function.update s.ran t false
      returned := s.returned ++ [⟨s.ran t, value⟩] } := by
  have hout := h.outline t
  rw [hpc] at hout
  obtain ⟨honce, hvalue⟩ := hout
  have hran : ∀ u, Function.update s.ran t false u = true → u ≠ t ∧ s.ran u = true := by
    intro u hu
    by_cases hut : u = t
    · rw [hut, Function.update_self] at hu
      cases hu
    · rw [Function.update_of_ne hut] at hu
      exact ⟨hut, hu⟩
  refine ⟨h.owned.move (by rw [hpc]; exact Iff.rfl), ?_, h.on, fun hoff => ?_, fun _ => honce, ?_,
    ?_, ?_⟩
  · intro u
    show Outline s (Function.update s.ran t false u) (Function.update s.pc t .outside u)
    by_cases hu : u = t
    · rw [hu, Function.update_self, Function.update_self]
      rfl
    · rw [Function.update_of_ne hu, Function.update_of_ne hu]
      exact h.outline u
  · exact absurd honce (by simp [show s.once = false from hoff])
  · intro r hr
    rcases List.mem_append.mp hr with hr | hr
    · exact h.value r hr
    · rw [List.mem_singleton.mp hr]
      exact hvalue
  · intro u hu
    obtain ⟨hut, hu⟩ := hran u hu
    obtain ⟨hcount, honly⟩ := h.unique u hu
    have ht : s.ran t = false := eq_false_of_ne_true fun ht => hut (honly t ht).symm
    refine ⟨?_, fun v hv => honly v (hran v hv).2⟩
    rw [List.countP_append, hcount, ht]
    rfl
  · rw [List.countP_append]
    cases ht : s.ran t with
    | false => exact h.ran_le
    | true =>
      rw [(h.unique t ht).1]
      exact Nat.le_refl 1

theorem inv_step (s : State τ) (a : Label τ) (s' : State τ) (h : Inv s)
    (hst : (machine τ).step s a = some s') : Inv s' := by
  rcases a with t | t
  · obtain ⟨hpc, hs'⟩ := Option.ite_none_right_eq_some.mp hst
    rw [← Option.some.inj hs']
    have hout := h.outline t
    rw [hpc] at hout
    exact h.goto (h.owned.move (by rw [hpc]; exact Iff.rfl))
      (by rw [hpc]; rintro (h | h) <;> cases h) hout
  · simp only [machine, step, oneTimeInit] at hst
    have hout := h.outline t
    split at hst
    · cases hst
    · rename_i hpc
      obtain ⟨hfree, hs'⟩ := Option.ite_none_right_eq_some.mp hst
      rw [← Option.some.inj hs']
      rw [hpc] at hout
      have howned := h.owned
      rw [hfree] at howned
      exact h.goto (howned.enter (C := Pc.Critical) trivial)
        (by rw [hpc]; rintro (h | h) <;> cases h) hout
    · rename_i hpc
      rw [← Option.some.inj hst]
      rw [hpc] at hout
      have hno : ¬ (s.pc t).Initialising := by
        rw [hpc]
        rintro (h | h) <;> cases h
      cases honce : s.once with
      | true =>
        rw [if_pos rfl]
        refine h.goto (h.owned.move (by rw [hpc]; exact Iff.rfl)) hno ⟨honce, ?_⟩
        rw [show s.ran t = false from hout]
        rfl
      | false =>
        rw [if_neg Bool.false_ne_true]
        exact h.goto (h.owned.move (by rw [hpc]; exact Iff.rfl)) hno ⟨hout, honce⟩
    · rename_i hpc
      exact Option.some.inj hst ▸ h.start hpc
    · rename_i hpc
      exact Option.some.inj hst ▸ h.complete hpc
    · rename_i hpc
      exact Option.some.inj hst ▸ h.setOnce hpc
    · rename_i value hpc
      rw [← Option.some.inj hst]
      rw [hpc] at hout
      exact h.goto (h.owned.leave (C := Pc.Critical) (by rw [hpc]; trivial) id)
        (by rw [hpc]; rintro (h | h) <;> cases h) hout
    · rename_i value hpc
      exact Option.some.inj hst ▸ h.ret hpc

/-! ## The result -/

/-- **One-time initialisation.**  For any number of threads that call `one_time_init` on one control
block any number of times, in any order of their steps. -/
theorem once_correct (τ : Type*) [DecidableEq τ] (s : State τ) (h : (machine τ).Reachable s) :
    Correct s := by
  have hI : Inv s := by
    refine h.invariant ?_ inv_step
    rintro _ rfl
    exact inv_initial
  exact hI.correct

/-- Thread 0 runs the routine while thread 1 waits for the mutex; both return. -/
theorem once_correct_two_threads : ∃ s : State ℕ, s.returned = [⟨true, 0⟩, ⟨false, -1⟩] ∧
    Correct s := by
  have hrun := (Machine.Reachable.init (M := machine ℕ) (s := initial ℕ) rfl).run
    [.call 0, .go 0, .call 1, .go 0, .go 0, .go 0, .go 0, .go 0, .go 1, .go 0, .go 1, .go 1,
      .go 1] rfl
  exact ⟨_, rfl, once_correct ℕ _ hrun⟩

end OneTimeInit
end CodeStrudy
