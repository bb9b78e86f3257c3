import CodeStrudy.Foundation.Machine
import CodeStrudy.InetServer.Sockets

/-!
# The poll server

`pollServer` of `practice/62.2/server.c` polls its sockets and forks a child for each of them that
is ready.  It does not take the connection or the datagram itself: until the child has done so, the
socket is ready still, and the next `poll` says so again.

## What is proved

`forked_throughout_iff`: a run never forks more children than connections and datagrams have arrived
exactly if each `fork` finds more of them queued than there are children with nothing taken.
-/

namespace CodeStrudy
namespace InetServer

open Foundation

namespace PollServer

/-- `events` of a `struct pollfd`. -/
inductive Events where
  | pollin
  | pollhup
  deriving DecidableEq

/-- A `struct pollfd`, with the socket for its descriptor. -/
structure Pollfd where
  fd : Kind
  events : Events
  deriving DecidableEq

/-- `readPoll`. -/
def readPoll : List Pollfd := [⟨.tcp, .pollin⟩, ⟨.tcp, .pollhup⟩, ⟨.udp, .pollin⟩]

/-- The sockets and the parent. -/
structure State where
  socket : Kind → Socket
  /-- The entries of `readPoll` still to come in the parent's loop over them that have `POLLIN` in
  `revents`. -/
  ready : List Pollfd
  /-- The parent has left through an `ERROUT`. -/
  exited : Bool

/-- One move: of a client or a child at a socket; of the parent, whose `poll` returns or fails, with
`EINTR` or not, or whose `fork` succeeds or not. -/
inductive Label where
  | socket (kind : Kind) (m : Move)
  | poll
  | pollFails (eintr : Bool)
  | fork (ok : Bool)
  deriving DecidableEq

/-- Whether `poll` sets `POLLIN` in an entry: the entry asks for it and the socket is readable. -/
def State.pollin (s : State) (p : Pollfd) : Bool :=
  p.events = .pollin && 0 < (s.socket p.fd).queued

/-- The parent is at its `poll`. -/
def State.polling (s : State) : Bool := s.ready.isEmpty && !s.exited

/-- One step. -/
def step (s : State) : Label → Option State
  | .socket kind m => ((s.socket kind).move m).map fun k =>
      { s with socket := Function.update s.socket kind k }
  | .poll => if s.polling then some { s with ready := readPoll.filter s.pollin } else none
  | .pollFails eintr =>
    if s.polling then some (if eintr then s else { s with exited := true }) else none
  | .fork ok =>
    match s.ready with
    | [] => none
    | p :: rest =>
      if ok then
        some { s with
          socket := Function.update s.socket p.fd (s.socket p.fd).fork
          ready := rest }
      else some { s with ready := [], exited := true }

/-- The server before its first `poll`. -/
def initial : State := ⟨fun _ => .fresh, [], false⟩

/-- The server, its children and its clients. -/
def machine : Machine State Label where
  init s := s = initial
  step := step

/-! ## The property -/

/-- The sum of a count over the two sockets. -/
def State.total (s : State) (f : Socket → ℕ) : ℕ := f (s.socket .tcp) + f (s.socket .udp)

/-- No more children have been forked than connections and datagrams have arrived. -/
def Bounded (s : State) : Prop := s.total Socket.forked ≤ s.total Socket.arrived

/-- A `fork` finds more connections and datagrams queued than there are children that wait in their
`accept` or `recvfrom`, or failed there. -/
def Unclaimed (s : State) : Label → Prop
  | .fork true => s.total Socket.waiting + s.total Socket.failed < s.total Socket.queued
  | _ => True

instance : ∀ s a, Decidable (Unclaimed s a)
  | s, .fork true => inferInstanceAs
      (Decidable (s.total Socket.waiting + s.total Socket.failed < s.total Socket.queued))
  | _, .fork false | _, .socket _ _ | _, .poll | _, .pollFails _ => .isTrue trivial

variable {s t : State}

/-- What a step does to the sockets. -/
theorem socket_step {a : Label} (h : step s a = some t) :
    t.socket = s.socket ∧ a ≠ .fork true ∨
    (∃ kind m k, a = .socket kind m ∧ (s.socket kind).move m = some k ∧
      t.socket = Function.update s.socket kind k) ∨
    ∃ kind, a = .fork true ∧ t.socket = Function.update s.socket kind (s.socket kind).fork := by
  rcases a with ⟨kind, m⟩ | _ | eintr | ok
  · obtain ⟨k, hk, rfl⟩ := Option.map_eq_some_iff.mp h
    exact Or.inr (Or.inl ⟨kind, m, k, rfl, hk, rfl⟩)
  · obtain ⟨-, ht⟩ := Option.ite_none_right_eq_some.mp h
    exact Or.inl ⟨by rw [← Option.some.inj ht], by decide⟩
  · obtain ⟨-, ht⟩ := Option.ite_none_right_eq_some.mp h
    refine Or.inl ⟨?_, by simp⟩
    rw [← Option.some.inj ht]
    split <;> rfl
  · simp only [step] at h
    split at h
    · cases h
    · rename_i p rest hready
      rcases ok with _ | _
      · rw [← Option.some.inj h]
        exact Or.inl ⟨rfl, by decide⟩
      · rw [← Option.some.inj h]
        exact Or.inr (Or.inr ⟨p.fd, rfl, rfl⟩)

/-- A count over the sockets changes by what it changes at the one socket that changes. -/
theorem total_update {kind : Kind} {k : Socket}
    (h : t.socket = Function.update s.socket kind k) (f : Socket → ℕ) :
    t.total f + f (s.socket kind) = s.total f + f k := by
  unfold State.total
  rw [h]
  rcases kind with _ | _
  · rw [Function.update_self, Function.update_of_ne (by decide)]
    omega
  · rw [Function.update_self, Function.update_of_ne (by decide)]
    omega

/-- Both sockets are balanced. -/
def Balanced (s : State) : Prop := ∀ kind, (s.socket kind).Balanced

theorem balanced_update {kind : Kind} {k : Socket} (hs : Balanced s) (hk : k.Balanced)
    (h : t.socket = Function.update s.socket kind k) : Balanced t := by
  intro kind'
  rw [h]
  by_cases hkind : kind' = kind
  · rw [hkind, Function.update_self]
    exact hk
  · rw [Function.update_of_ne hkind]
    exact hs kind'

theorem balanced_step (s : State) (a : Label) (t : State) (hs : Balanced s)
    (h : machine.step s a = some t) : Balanced t := by
  rcases socket_step h with ⟨hsame, -⟩ | ⟨kind, m, k, -, hk, hsocket⟩ | ⟨kind, -, hsocket⟩
  · intro kind
    rw [hsame]
    exact hs kind
  · exact balanced_update hs ((hs kind).move hk) hsocket
  · exact balanced_update hs (hs kind).fork hsocket

/-- The children with nothing taken are fewer than what is queued exactly if fewer have been forked
than have arrived. -/
theorem waiting_lt_iff (hs : Balanced s) :
    s.total Socket.waiting + s.total Socket.failed < s.total Socket.queued ↔
      s.total Socket.forked < s.total Socket.arrived := by
  have htcp := hs .tcp
  have hudp := hs .udp
  unfold Socket.Balanced at htcp hudp
  unfold State.total
  omega

/-- Nothing but the parent's `fork` adds to the children forked. -/
theorem forked_move {k k' : Socket} {m : Move} (h : k.move m = some k') :
    k'.forked = k.forked ∧ k.arrived ≤ k'.arrived := by
  rcases Socket.move_cases h with ⟨-, rfl⟩ | ⟨-, -, rfl⟩ | ⟨-, -, rfl⟩ | ⟨-, rfl⟩
  · exact ⟨rfl, Nat.le_succ _⟩
  · exact ⟨rfl, le_rfl⟩
  · exact ⟨rfl, le_rfl⟩
  · exact ⟨rfl, le_rfl⟩

/-- A step keeps the bound exactly if it meets `Unclaimed`. -/
theorem bounded_step_iff (s : State) (a : Label) (t : State) (hI : Balanced s) (hs : Bounded s)
    (h : machine.step s a = some t) : Bounded t ↔ Unclaimed s a := by
  unfold Bounded at hs ⊢
  rcases socket_step h with ⟨hsame, ha⟩ | ⟨kind, m, k, rfl, hk, hsocket⟩ | ⟨kind, rfl, hsocket⟩
  · have hunclaimed : Unclaimed s a := by
      rcases a with _ | _ | _ | ok
      · trivial
      · trivial
      · trivial
      · rcases ok with _ | _
        · trivial
        · exact absurd rfl ha
    refine iff_of_true ?_ hunclaimed
    simpa [State.total, hsame] using hs
  · refine iff_of_true ?_ trivial
    have hforked := total_update hsocket Socket.forked
    have harrived := total_update hsocket Socket.arrived
    obtain ⟨h1, h2⟩ := forked_move hk
    omega
  · -- one more child, and nothing more has arrived
    have hforked := total_update hsocket Socket.forked
    have harrived := total_update hsocket Socket.arrived
    have h1 : (s.socket kind).fork.forked = (s.socket kind).forked + 1 := rfl
    have h2 : (s.socket kind).fork.arrived = (s.socket kind).arrived := rfl
    show _ ↔ s.total Socket.waiting + s.total Socket.failed < s.total Socket.queued
    rw [waiting_lt_iff hI]
    omega

/-- **When the children stay within the arrivals.**  For every run of the server, with arrivals and
children in any order with its polls: in every state of the run no more children have been forked
than connections and datagrams have arrived, exactly when every step of the run meets
`Unclaimed`. -/
theorem forked_throughout_iff (as : List Label) :
    machine.Throughout Bounded initial as ↔ machine.Respects Unclaimed initial as :=
  Machine.throughout_iff_respects (M := machine) balanced_step bounded_step_iff as
    (fun _ => rfl) (Nat.zero_le _)

/-- One connection arrives, and the parent polls again before the child's `accept`: two children are
forked. -/
theorem not_bounded : ¬ ∀ s, machine.Reachable s → Bounded s := by
  intro h
  have hrun := (Machine.Reachable.init (M := machine) (s := initial) rfl).run
    [.socket .tcp .arrive, .poll, .fork true, .poll, .fork true] rfl
  exact absurd (h _ hrun) (by unfold Bounded; decide)

end PollServer
end InetServer
end CodeStrudy
