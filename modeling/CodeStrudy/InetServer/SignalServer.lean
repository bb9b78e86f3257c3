import CodeStrudy.Foundation.Machine
import CodeStrudy.InetServer.Sockets
import Mathlib.Data.List.Count

/-!
# The signal-driven server

`signalServer` of `practice/62.2/server.c` has the kernel raise `SIGUSR1` when a connection arrives
and `SIGUSR2` when a datagram does, and forks one child in each handler.  Both are standard signals,
so an arrival while the signal is pending adds nothing to it.  A handler blocks its own signal and
may be interrupted by the other one: the handlers that have not returned are a stack.

The machine starts in the loop at the end of `signalServer`, when the sockets are set up and nothing
has arrived.

## What is proved

`left_nothing_iff`: when the server has come to rest, nothing is left in its sockets exactly if
nothing arrived while its signal was pending, and no child failed in its `accept` or `recvfrom`. -/

namespace CodeStrudy
namespace InetServer

open Foundation

namespace SignalServer

/-- The sockets, the pending signals and the running handlers. -/
structure State where
  socket : Kind → Socket
  /-- `SIGUSR1` or `SIGUSR2` is pending. -/
  pending : Kind → Bool
  /-- The handlers that have not returned, the innermost first: `sigusr1Handler` or
  `sigusr2Handler`, and whether it has forked. -/
  handlers : List (Kind × Bool)
  /-- The server has left through an `ERROUT`. -/
  exited : Bool

/-- One move: of a client or a child at a socket; of the kernel, which delivers a signal; of the
innermost handler, which forks or fails to, or returns. -/
inductive Label where
  | socket (kind : Kind) (m : Move)
  | deliver (kind : Kind)
  | fork (ok : Bool)
  | ret
  deriving DecidableEq

/-- A signal is generated by every arrival. -/
def State.raise (s : State) (kind : Kind) (m : Move) : Kind → Bool :=
  if m = .arrive then Function.update s.pending kind true else s.pending

/-- `sigusr1Handler` and `sigusr2Handler` at their `fork`. -/
def fork (ok : Bool) (s : State) : Option State :=
  match s.handlers with
  | (kind, false) :: rest =>
    if ok then
      some { s with
        socket := Function.update s.socket kind (s.socket kind).fork
        handlers := (kind, true) :: rest }
    else some { s with handlers := [], exited := true }
  | _ => none

/-- The innermost handler returns. -/
def ret (s : State) : Option State :=
  match s.handlers with
  | (_, true) :: rest => some { s with handlers := rest }
  | _ => none

/-- One step. -/
def step (s : State) : Label → Option State
  | .socket kind m => ((s.socket kind).move m).map fun k =>
      { s with socket := Function.update s.socket kind k, pending := s.raise kind m }
  | .deliver kind =>
    if s.pending kind = true ∧ kind ∉ s.handlers.map Prod.fst ∧ s.exited = false then
      some { s with
        pending := Function.update s.pending kind false
        handlers := (kind, false) :: s.handlers }
    else none
  | .fork ok => fork ok s
  | .ret => ret s

/-- The server in its loop, before anything has arrived. -/
def initial : State := ⟨fun _ => .fresh, fun _ => false, [], false⟩

/-- The server, its children and its clients. -/
def machine : Machine State Label where
  init s := s = initial
  step := step

/-! ## The property -/

/-- The server is running, no signal is pending, no handler runs and no child is alive. -/
structure Quiescent (s : State) : Prop where
  running : s.exited = false
  pending : ∀ kind, s.pending kind = false
  handlers : s.handlers = []
  waiting : ∀ kind, (s.socket kind).waiting = 0
  serving : ∀ kind, (s.socket kind).serving = 0

/-- No connection is pending or accepted and not answered, and no datagram is unread. -/
def Served (s : State) : Prop :=
  ∀ kind, (s.socket kind).queued = 0 ∧ (s.socket kind).serving = 0

/-- Nothing arrives while its signal is pending, and neither the `accept` or `recvfrom` of a child
nor a `fork` fails. -/
def Announced (s : State) : Label → Prop
  | .socket kind .arrive => s.pending kind = false
  | .socket _ .fail => False
  | .fork ok => ok = true
  | _ => True

instance : ∀ s a, Decidable (Announced s a)
  | s, .socket kind .arrive => inferInstanceAs (Decidable (s.pending kind = false))
  | _, .socket _ .fail => .isFalse id
  | _, .fork ok => inferInstanceAs (Decidable (ok = true))
  | _, .socket _ .take | _, .socket _ .finish | _, .deliver _ | _, .ret => .isTrue trivial

/-! ## What nobody is on its way to -/

/-- How much is queued beyond what the pending signal, the handlers before their `fork` and the
children before their `accept` or `recvfrom` stand for. -/
def State.unannounced (s : State) (kind : Kind) : ℤ :=
  (s.socket kind).unclaimed - (s.pending kind).toNat - s.handlers.count (kind, false)

/-- What a step loses: the arrival that a pending signal swallows, what a failing child was on its
way to, and what the handlers stand for that end with the server. -/
def lost (s : State) (a : Label) (kind : Kind) : ℕ :=
  match a with
  | .socket kind' .arrive => if kind' = kind then (s.pending kind).toNat else 0
  | .socket kind' .fail => if kind' = kind then 1 else 0
  | .fork false => s.handlers.count (kind, false)
  | _ => 0

variable {s t : State} {kind : Kind}

theorem unannounced_socket {kind' : Kind} {m : Move}
    (h : step s (.socket kind' m) = some t) :
    t.unannounced kind = s.unannounced kind + lost s (.socket kind' m) kind := by
  obtain ⟨k, hk, rfl⟩ := Option.map_eq_some_iff.mp h
  have hmove := Socket.unclaimed_move hk
  by_cases hkind : kind' = kind
  · subst hkind
    simp only [State.unannounced, Function.update_self, hmove]
    rcases m with _ | _ | _ | _
    · simp only [State.raise, if_true, Function.update_self, lost, Bool.toNat_true, true_or]
      omega
    · simp [State.raise, lost]
    · simp only [State.raise, reduceCtorEq, if_false, lost, if_true, or_true]
      omega
    · simp [State.raise, lost]
  · have hne : kind ≠ kind' := fun h => hkind h.symm
    have hraise : s.raise kind' m kind = s.pending kind := by
      unfold State.raise
      split
      · exact Function.update_of_ne hne _ _
      · rfl
    have hlost : lost s (.socket kind' m) kind = 0 := by
      rcases m with _ | _ | _ | _
      · exact if_neg hkind
      · rfl
      · exact if_neg hkind
      · rfl
    simp [State.unannounced, Function.update_of_ne hne, hraise, hlost]

theorem unannounced_deliver {kind' : Kind} (h : step s (.deliver kind') = some t) :
    t.unannounced kind = s.unannounced kind := by
  obtain ⟨⟨hp, -, -⟩, ht⟩ := Option.ite_none_right_eq_some.mp h
  obtain rfl := Option.some.inj ht
  by_cases hkind : kind = kind'
  · subst hkind
    simp only [State.unannounced, Function.update_self, hp, List.count_cons_self, Bool.toNat_true,
      Bool.toNat_false]
    omega
  · have hne : (kind', false) ≠ (kind, false) := fun h => hkind (Prod.mk.inj h).1.symm
    simp [State.unannounced, Function.update_of_ne hkind, List.count_cons_of_ne hne]

theorem unannounced_fork {ok : Bool} (h : fork ok s = some t) :
    t.unannounced kind = s.unannounced kind + lost s (.fork ok) kind := by
  unfold fork at h
  split at h
  · rename_i kind' rest hh
    rcases ok with _ | _
    · -- the server exits, and what its handlers stood for is lost
      obtain rfl := Option.some.inj h
      simp only [State.unannounced, lost, List.count_nil]
      omega
    · obtain rfl := Option.some.inj h
      have htrue : (kind', true) ≠ (kind, false) := fun h => nomatch (Prod.mk.inj h).2
      by_cases hkind : kind = kind'
      · subst hkind
        simp only [State.unannounced, Function.update_self, Socket.unclaimed_fork, hh, lost,
          List.count_cons_of_ne htrue, List.count_cons_self]
        omega
      · have hfalse : (kind', false) ≠ (kind, false) := fun h => hkind (Prod.mk.inj h).1.symm
        simp [State.unannounced, Function.update_of_ne hkind, hh, lost,
          List.count_cons_of_ne htrue, List.count_cons_of_ne hfalse]
  · cases h

theorem unannounced_ret (h : ret s = some t) : t.unannounced kind = s.unannounced kind := by
  unfold ret at h
  split at h
  · rename_i kind' rest hh
    obtain rfl := Option.some.inj h
    have htrue : (kind', true) ≠ (kind, false) := fun h => nomatch (Prod.mk.inj h).2
    simp [State.unannounced, hh, List.count_cons_of_ne htrue]
  · cases h

/-- **What a step does to what nobody is on its way to**: it grows by what the step loses. -/
theorem unannounced_step {a : Label} (h : step s a = some t) (kind : Kind) :
    t.unannounced kind = s.unannounced kind + lost s a kind := by
  rcases a with ⟨kind', m⟩ | kind' | ok | _
  · exact unannounced_socket h
  · rw [unannounced_deliver h]
    exact (add_zero _).symm
  · exact unannounced_fork h
  · rw [unannounced_ret h]
    exact (add_zero _).symm

/-- A step loses nothing exactly if it meets `Announced`. -/
theorem announced_iff {a : Label} (h : step s a = some t) :
    Announced s a ↔ ∀ kind, lost s a kind = 0 := by
  rcases a with ⟨kind', m⟩ | kind' | ok | _
  · rcases m with _ | _ | _ | _
    · constructor
      · intro hp kind
        show (if kind' = kind then (s.pending kind).toNat else 0) = 0
        split
        · rename_i hkind
          rw [← hkind, show s.pending kind' = false from hp, Bool.toNat_false]
        · rfl
      · intro hlost
        have hp : (s.pending kind').toNat = 0 := by simpa [lost] using hlost kind'
        exact Bool.toNat_eq_zero.mp hp
    · exact iff_of_true trivial fun _ => rfl
    · refine iff_of_false id fun hlost => ?_
      simpa [lost] using hlost kind'
    · exact iff_of_true trivial fun _ => rfl
  · exact iff_of_true trivial fun _ => rfl
  · rcases ok with _ | _
    · refine iff_of_false Bool.false_ne_true fun hlost => ?_
      simp only [step, fork] at h
      split at h
      · rename_i kind' rest hh
        have hcount := hlost kind'
        simp [lost, hh] at hcount
      · cases h
    · exact iff_of_true rfl fun _ => rfl
  · exact iff_of_true trivial fun _ => rfl

/-! ## The result -/

theorem unannounced_nonneg_step (s : State) (a : Label) (t : State)
    (hs : ∀ kind, 0 ≤ s.unannounced kind) (h : machine.step s a = some t) :
    ∀ kind, 0 ≤ t.unannounced kind := by
  intro kind
  rw [unannounced_step h kind]
  have := hs kind
  omega

theorem unannounced_step_iff (s : State) (a : Label) (t : State)
    (_ : ∀ kind, 0 ≤ s.unannounced kind) (hzero : ∀ kind, s.unannounced kind = 0)
    (h : machine.step s a = some t) : (∀ kind, t.unannounced kind = 0) ↔ Announced s a := by
  rw [announced_iff h]
  refine forall_congr' fun kind => ?_
  rw [unannounced_step h kind, hzero kind, zero_add, Int.natCast_eq_zero]

theorem unannounced_lasts (s : State) (a : Label) (t : State)
    (hs : ∀ kind, 0 ≤ s.unannounced kind) (hne : ¬ ∀ kind, s.unannounced kind = 0)
    (h : machine.step s a = some t) : ¬ ∀ kind, t.unannounced kind = 0 := by
  refine fun ht => hne fun kind => ?_
  have hstep := unannounced_step h kind
  have hpos := hs kind
  rw [ht kind] at hstep
  omega

theorem served_iff_unannounced (h : Quiescent s) :
    Served s ↔ ∀ kind, s.unannounced kind = 0 := by
  refine forall_congr' fun kind => ?_
  simp [State.unannounced, Socket.unclaimed, h.pending kind, h.handlers, h.waiting kind,
    h.serving kind]

/-- **Which runs leave no request behind.**  In every run of the server, with any arrivals in any
order with its signals, handlers and children, that ends in a quiescent state: no connection and no
datagram is left exactly when every step of the run meets `Announced`. -/
theorem left_nothing_iff {as : List Label} (hrun : machine.run initial as = some s)
    (hq : Quiescent s) : Served s ↔ machine.Respects Announced initial as := by
  have hzero : ∀ kind, initial.unannounced kind = 0 := fun _ => rfl
  rw [served_iff_unannounced hq]
  exact Machine.run_good_iff_respects unannounced_nonneg_step unannounced_step_iff
    unannounced_lasts as (fun kind => (hzero kind).ge) hzero hrun

/-- One connection arrives and is served. -/
theorem served_one_connection : ∃ s,
    machine.run initial [.socket .tcp .arrive, .deliver .tcp, .fork true, .ret,
      .socket .tcp .take, .socket .tcp .finish] = some s ∧ Quiescent s ∧
    (Served s ↔ machine.Respects Announced initial [.socket .tcp .arrive, .deliver .tcp,
      .fork true, .ret, .socket .tcp .take, .socket .tcp .finish]) := by
  refine ⟨_, rfl, ?hq, left_nothing_iff rfl ?hq⟩
  exact ⟨rfl, fun kind => by rcases kind <;> rfl, rfl, fun kind => by rcases kind <;> rfl,
    fun kind => by rcases kind <;> rfl⟩

/-- Two connections arrive before the first signal is delivered: one child is forked, it takes one
of them, and the other is left. -/
theorem not_served : ¬ ∀ s, machine.Reachable s → Quiescent s → Served s := by
  intro h
  have hrun := (Machine.Reachable.init (M := machine) (s := initial) rfl).run
    [.socket .tcp .arrive, .socket .tcp .arrive, .deliver .tcp, .fork true, .ret,
      .socket .tcp .take, .socket .tcp .finish] rfl
  have hserved := h _ hrun ⟨rfl, fun kind => by rcases kind <;> rfl, rfl,
    fun kind => by rcases kind <;> rfl, fun kind => by rcases kind <;> rfl⟩
  exact absurd (hserved .tcp).1 (by decide)

end SignalServer
end InetServer
end CodeStrudy
