import CodeStrudy.Foundation.Children
import CodeStrudy.Foundation.Machine

/-!
# How the forking servers reap their children

The file servers of `routines/46.7.svmsg` and `practice/46.4` fork a child for each request and
leave it to the handler of `SIGCHLD` to wait for it.  Their main loops and their handlers are the
same.  While the handler runs `SIGCHLD` is blocked and the main loop stands still; children may
terminate at any time.

The handler's loop goes on while `waitpid` returns -1, so it ends with the first child it takes.
The handlers of `practice/46.6` and `routines/60.4.id_echo_tcp` go on while `waitpid` returns a
child.  The server is stated for both loops.

## What is proved

* `reaped_iff`: with the loop of 46.7 and 46.4 every handler execution returns, and a run that comes
  to rest leaves no dead child exactly if no child terminated while a `SIGCHLD` was pending.
* `reaped_of_sigchldHandler`: with the other loop it never leaves one.
-/

namespace CodeStrudy
namespace SvmsgFile

open Foundation

namespace Reaping

/-! ## The server -/

/-- The server's children, whether its handler is running, and whether its loop has ended. -/
structure State where
  children : Children
  handling : Bool
  ended : Bool
  deriving DecidableEq

/-- One move: the main loop receives a request and forks, or fails to; its `msgrcv` fails; a child
terminates; `SIGCHLD` is delivered; the handler calls `waitpid`. -/
inductive Label where
  | request (forked : Bool)
  | msgrcvFails
  | exit
  | deliver
  | handler
  deriving DecidableEq

/-- The loop condition of `SIGCHILD_Hanler` in 46.7 and 46.4: `waitpid(-1, NULL, WNOHANG) == -1`. -/
def sigchildHanler (r : WaitResult) : Bool := r = .echild

/-- The loop condition of `SIGCHLD_Handler` in 46.6: `waitpid(-1, NULL, WNOHANG) > 0`. -/
def sigchldHandler (r : WaitResult) : Bool := r = .reaped

/-- The main loop can move: the handler is not running and `main` has not left the loop. -/
def State.idle (s : State) : Bool := !s.handling && !s.ended

/-- One step, with `again` the loop condition of the handler. -/
def step (again : WaitResult → Bool) (s : State) : Label → Option State
  | .request forked =>
    if s.idle then
      some (if forked then { s with children := s.children.fork } else { s with ended := true })
    else none
  | .msgrcvFails => if s.idle then some { s with ended := true } else none
  | .exit => s.children.exit.map fun c => { s with children := c }
  | .deliver =>
    if s.idle then s.children.deliver.map fun c => { s with children := c, handling := true }
    else none
  | .handler =>
    if s.handling then
      let (r, c) := s.children.waitpid
      some { s with children := c, handling := again r }
    else none

/-- The server starts its loop without children. -/
def initial : State := ⟨.empty, false, false⟩

/-- The server and its children. -/
def server (again : WaitResult → Bool) : Machine State Label where
  init s := s = initial
  step := step again

/-- The server is in its loop, which has not ended, no handler is running and no `SIGCHLD` is
pending. -/
def Quiescent (s : State) : Prop := s.idle = true ∧ s.children.pending = false

instance (s : State) : Decidable (Quiescent s) := inferInstanceAs (Decidable (_ ∧ _))

/-- No child terminates while a `SIGCHLD` is pending. -/
def Announced (s : State) (a : Label) : Prop := a = .exit → s.children.pending = false

instance (s : State) (a : Label) : Decidable (Announced s a) :=
  inferInstanceAs (Decidable (_ → _))

variable {again : WaitResult → Bool} {s t : State}

/-- Everything a step can do to the children and to the handler. -/
inductive Effect (again : WaitResult → Bool) (s : State) : Label → State → Prop
  /-- The main loop moves, and may have forked. -/
  | main {a : Label} {c : Children} {ended : Bool} : s.handling = false → a ≠ .exit →
      (c = s.children ∨ c = s.children.fork) → Effect again s a ⟨c, s.handling, ended⟩
  /-- A child terminates. -/
  | exit {c : Children} : s.children.exit = some c → Effect again s .exit { s with children := c }
  /-- The handler is started. -/
  | deliver {c : Children} : s.handling = false → s.children.deliver = some c →
      Effect again s .deliver { s with children := c, handling := true }
  /-- The handler calls `waitpid`. -/
  | handler : s.handling = true →
      Effect again s .handler
        { s with children := s.children.waitpid.2, handling := again s.children.waitpid.1 }

theorem not_handling_of_idle (h : s.idle = true) : s.handling = false := by
  rw [State.idle, Bool.and_eq_true, Bool.not_eq_true', Bool.not_eq_true'] at h
  exact h.1

theorem effect_of_step {a : Label} (h : step again s a = some t) : Effect again s a t := by
  rcases a with forked | _ | _ | _ | _
  · obtain ⟨hidle, ht⟩ := Option.ite_none_right_eq_some.mp h
    have hs := not_handling_of_idle hidle
    rw [← Option.some.inj ht]
    rcases forked with _ | _
    · exact .main hs (by decide) (Or.inl rfl)
    · exact .main hs (by decide) (Or.inr rfl)
  · obtain ⟨hidle, ht⟩ := Option.ite_none_right_eq_some.mp h
    rw [← Option.some.inj ht]
    exact .main (not_handling_of_idle hidle) (by decide) (Or.inl rfl)
  · obtain ⟨c, hc, rfl⟩ := Option.map_eq_some_iff.mp h
    exact .exit hc
  · obtain ⟨hidle, ht⟩ := Option.ite_none_right_eq_some.mp h
    obtain ⟨c, hc, rfl⟩ := Option.map_eq_some_iff.mp ht
    exact .deliver (not_handling_of_idle hidle) hc
  · obtain ⟨hs, ht⟩ := Option.ite_none_right_eq_some.mp h
    rw [← Option.some.inj ht]
    exact .handler hs

/-- While the handler runs it can go on. -/
theorem exists_step_of_handling (h : s.handling = true) :
    ∃ a t, (server again).step s a = some t :=
  ⟨.handler, _, if_pos h⟩

/-! ## The loop that ends with the first child -/

/-- How many dead children there are that neither the pending signal nor the running handler stands
for. -/
def State.unannounced (s : State) : ℤ := s.children.unannounced - s.handling.toNat

/-- The handler finds a dead child. -/
theorem dead_pos_of_handling (hs : 0 ≤ s.unannounced) (h : s.handling = true) :
    0 < s.children.dead := by
  rw [State.unannounced, h, Children.unannounced, Bool.toNat_true] at hs
  omega

/-- **What a step does to the dead children nobody stands for**: they grow by one when a child
terminates while a signal is pending, and do not change otherwise. -/
theorem unannounced_step {a : Label} (hs : 0 ≤ s.unannounced)
    (h : step sigchildHanler s a = some t) :
    t.unannounced = s.unannounced + (decide (a = .exit) && s.children.pending).toNat := by
  rcases effect_of_step h with ⟨-, ha, rfl | rfl⟩ | hc | ⟨hh, hc⟩ | hh
  · simp [State.unannounced, ha]
  · simp [State.unannounced, ha]
  · have hexit := Children.unannounced_exit hc
    simp only [State.unannounced, hexit, decide_true, Bool.true_and]
    omega
  · have hdeliver := Children.unannounced_deliver hc
    simp [State.unannounced, hdeliver, hh]
  · -- the handler takes a child and returns
    have hdead := dead_pos_of_handling hs hh
    rw [Children.waitpid_of_dead_pos hdead]
    simp only [State.unannounced, Children.unannounced, hh, sigchildHanler, reduceCtorEq,
      decide_false, Bool.false_and, Bool.toNat_false, Bool.toNat_true]
    omega

theorem unannounced_nonneg_step (s : State) (a : Label) (t : State) (hs : 0 ≤ s.unannounced)
    (h : (server sigchildHanler).step s a = some t) : 0 ≤ t.unannounced := by
  rw [unannounced_step hs h]
  omega

/-- A step keeps all dead children stood for exactly if it meets `Announced`. -/
theorem unannounced_step_iff (s : State) (a : Label) (t : State) (hs : 0 ≤ s.unannounced)
    (hzero : s.unannounced = 0) (h : (server sigchildHanler).step s a = some t) :
    t.unannounced = 0 ↔ Announced s a := by
  rw [unannounced_step hs h, hzero, Announced]
  by_cases ha : a = .exit
  · cases s.children.pending <;> simp [ha]
  · simp [ha]

/-- A dead child nobody stands for stays one. -/
theorem unannounced_lasts (s : State) (a : Label) (t : State) (hs : 0 ≤ s.unannounced)
    (hne : ¬ s.unannounced = 0) (h : (server sigchildHanler).step s a = some t) :
    ¬ t.unannounced = 0 := by
  rw [unannounced_step hs h]
  omega

/-- The handler returns: it finds a child at its first call, whatever happens before. -/
theorem inevitable_return (hs : 0 ≤ s.unannounced) :
    (server sigchildHanler).Inevitable (fun t => t.handling = false) s := by
  refine .of_measure (I := fun s => 0 ≤ s.unannounced) (fun s => s.children.running) ?_ ?_ hs
  · intro s _ hh
    exact exists_step_of_handling (Bool.eq_true_of_not_eq_false hh)
  · intro s a t hs hh hst
    rw [Bool.not_eq_false] at hh
    have hkeep := unannounced_nonneg_step s a t hs hst
    rcases effect_of_step hst with ⟨hno, -, -⟩ | hc | ⟨hno, -⟩ | -
    · exact absurd hh (by simp [hno])
    · obtain ⟨hpos, rfl⟩ := Children.exit_eq_some_iff.mp hc
      exact Or.inr ⟨hkeep, Nat.sub_lt hpos Nat.one_pos⟩
    · exact absurd hh (by simp [hno])
    · rw [Children.waitpid_of_dead_pos (dead_pos_of_handling hs hh)]
      exact Or.inl rfl

theorem dead_eq_zero_iff (h : Quiescent s) : s.children.dead = 0 ↔ s.unannounced = 0 := by
  obtain ⟨hidle, hpending⟩ := h
  simp [State.unannounced, Children.unannounced, not_handling_of_idle hidle, hpending]

/-- **Which runs leave no dead child.**  At the end of every run of the server of 46.7 and 46.4,
with any number of requests: a running handler returns whatever happens, and if the server is
quiescent, its loop not ended, no dead child is left exactly when no child terminated while a
`SIGCHLD` was pending. -/
theorem reaped_iff {as : List Label} (hrun : (server sigchildHanler).run initial as = some s) :
    (server sigchildHanler).Inevitable (fun t => t.handling = false) s ∧
      (Quiescent s →
        (s.children.dead = 0 ↔ (server sigchildHanler).Respects Announced initial as)) := by
  have hzero : initial.unannounced = 0 := rfl
  have hkeep : 0 ≤ s.unannounced :=
    Machine.run_keeps (I := fun _ => True) (fun _ _ _ _ _ => trivial)
      (fun s a t _ hs h => unannounced_nonneg_step s a t hs h) as trivial hzero.ge hrun
  refine ⟨inevitable_return hkeep, fun hq => ?_⟩
  rw [dead_eq_zero_iff hq]
  exact Machine.run_good_iff_respects unannounced_nonneg_step unannounced_step_iff
    unannounced_lasts as hzero.ge hzero hrun

/-- One child, which terminates and is taken. -/
theorem reaped_one_child :
    (server sigchildHanler).Inevitable (fun t => t.handling = false) initial ∧
      (Quiescent initial → (initial.children.dead = 0 ↔
        (server sigchildHanler).Respects Announced initial
          [.request true, .exit, .deliver, .handler])) :=
  reaped_iff rfl

/-- Two children terminate before the signal is delivered: the handler takes one of them, and the
other stays with no signal to come. -/
theorem not_reaped : ¬ ∀ s, (server sigchildHanler).Reachable s →
    (server sigchildHanler).Inevitable (fun t => t.handling = false) s ∧
      (Quiescent s → s.children.dead = 0) := by
  intro h
  have hrun : (server sigchildHanler).run initial
      [.request true, .request true, .exit, .exit, .deliver, .handler] =
      some ⟨⟨0, 1, false⟩, false, false⟩ := rfl
  have hdead := (h _ ((Machine.Reachable.init (M := server sigchildHanler) rfl).run _ hrun)).2
    (by decide)
  exact absurd hdead (by decide)

/-! ## The loop that goes on while there are children -/

/-- A dead child has a signal or a running handler to come for it. -/
def Awaited (s : State) : Prop :=
  0 < s.children.dead → s.children.pending = true ∨ s.handling = true

theorem awaited_step (s : State) (a : Label) (t : State) (hs : Awaited s)
    (h : (server sigchldHandler).step s a = some t) : Awaited t := by
  rcases effect_of_step h with ⟨-, -, rfl | rfl⟩ | hc | ⟨-, hc⟩ | hh
  · exact hs
  · exact hs
  · obtain ⟨-, rfl⟩ := Children.exit_eq_some_iff.mp hc
    exact fun _ => Or.inl rfl
  · exact fun _ => Or.inr rfl
  · by_cases hdead : 0 < s.children.dead
    · rw [Children.waitpid_of_dead_pos hdead]
      exact fun _ => Or.inr rfl
    · have hzero : s.children.dead = 0 := Nat.eq_zero_of_not_pos hdead
      rw [Children.waitpid_of_dead_eq_zero hzero]
      exact fun hpos => absurd hpos hdead

/-- **The sibling loop misses no child.**  With the loop of 46.6 and 60.4, in every state reached
with no `SIGCHLD` pending and no handler running there is no dead child, and a running handler
returns. -/
theorem reaped_of_sigchldHandler (h : (server sigchldHandler).Reachable s) :
    (server sigchldHandler).Inevitable (fun t => t.handling = false) s ∧
      (Quiescent s → s.children.dead = 0) := by
  constructor
  · refine .of_measure (I := fun _ => True)
      (fun s => 2 * s.children.running + s.children.dead) ?_ ?_ trivial
    · intro s _ hh
      exact exists_step_of_handling (Bool.eq_true_of_not_eq_false hh)
    · intro s a t _ hh hst
      rw [Bool.not_eq_false] at hh
      rcases effect_of_step hst with ⟨hno, -, -⟩ | hc | ⟨hno, -⟩ | -
      · exact absurd hh (by simp [hno])
      · obtain ⟨hpos, rfl⟩ := Children.exit_eq_some_iff.mp hc
        refine Or.inr ⟨trivial, ?_⟩
        show 2 * (s.children.running - 1) + (s.children.dead + 1) < _
        omega
      · exact absurd hh (by simp [hno])
      · by_cases hdead : 0 < s.children.dead
        · rw [Children.waitpid_of_dead_pos hdead]
          refine Or.inr ⟨trivial, ?_⟩
          show 2 * s.children.running + (s.children.dead - 1) < _
          omega
        · rw [Children.waitpid_of_dead_eq_zero (Nat.eq_zero_of_not_pos hdead)]
          refine Or.inl ?_
          show sigchldHandler (if 0 < s.children.running then .zero else .echild) = false
          split <;> rfl
  · intro hq
    have hawaited : Awaited s := by
      refine h.invariant ?_ awaited_step
      rintro _ rfl
      exact fun hpos => absurd hpos (lt_irrefl 0)
    by_contra hne
    rcases hawaited (Nat.pos_of_ne_zero hne) with hp | hh
    · exact absurd hp (by simp [hq.2])
    · exact absurd hh (by simp [not_handling_of_idle hq.1])

end Reaping
end SvmsgFile
end CodeStrudy
