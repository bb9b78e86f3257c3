import CodeStrudy.Foundation.Machine
import CodeStrudy.InetServer.Sockets
import Mathlib.Data.Finset.Card

/-!
# The descriptors of the select and the epoll server

`selectServer` and `epollServer` of `practice/62.2/server.c` serve a ready socket themselves, by
`tcpHandle` or `udpHandle`, in one process that runs on.  Here a step is one iteration of their
loops, with what the kernel answers in it, and the state is the set of open descriptors at its head;
an iteration that ends in `ERROUT` has no next state.

`tcpHandle` does not close the descriptor that `accept` gives it.  The names are the source's: its
parameter is the listening socket, and `lfd` is the connection.

## What is proved

`descriptors_throughout_iff`: a run of either server has the same descriptors at the head of every
iteration exactly if no iteration handles a connection.
-/

namespace CodeStrudy
namespace InetServer

open Foundation

namespace Descriptors

/-- What the kernel answers in `tcpHandle`: the descriptor of the connection, if `accept` succeeds,
and whether `read` does.  The result of `write` is not looked at. -/
structure TcpAnswer where
  accept : Option ℕ
  read : Bool
  deriving DecidableEq

/-- What the kernel answers in `udpHandle`: whether `recvfrom` succeeds, and whether `sendto` sends
all of it. -/
structure UdpAnswer where
  recvfrom : Bool
  sendto : Bool
  deriving DecidableEq

/-- `tcpHandle`: the open descriptors after it, if it returns.  A new descriptor is one that is not
open. -/
def tcpHandle (ans : TcpAnswer) (fds : Finset ℕ) : Option (Finset ℕ) :=
  match ans.accept with
  | none => none
  | some lfd => if lfd ∉ fds ∧ ans.read = true then some (insert lfd fds) else none

/-- `udpHandle`: the open descriptors after it, if it returns. -/
def udpHandle (ans : UdpAnswer) (fds : Finset ℕ) : Option (Finset ℕ) :=
  if ans.recvfrom && ans.sendto then some fds else none

/-- A ready descriptor: which one, whether `EPOLLIN` is among its events, and what the kernel
answers in its handler. -/
structure Event where
  fd : Kind
  epollin : Bool
  tcp : TcpAnswer
  udp : UdpAnswer
  deriving DecidableEq

/-- The handler of a descriptor, chosen by comparing it with `tcpFd`. -/
def handle (e : Event) (fds : Finset ℕ) : Option (Finset ℕ) :=
  if e.fd = .tcp then tcpHandle e.tcp fds else udpHandle e.udp fds

/-! ## The two loops -/

/-- An iteration of `selectServer`: `select` fails, with `EINTR` or not; it times out; or it returns
a set of descriptors, of which one is handled. -/
inductive SelectIteration where
  | error (eintr : Bool)
  | timeout
  | ready (tcpSet udpSet : Bool) (tcp : TcpAnswer) (udp : UdpAnswer)
  deriving DecidableEq

/-- The body of the loop of `selectServer`. -/
def selectStep (fds : Finset ℕ) : SelectIteration → Option (Finset ℕ)
  | .error eintr => if eintr then some fds else none
  | .timeout => some fds
  | .ready tcpSet udpSet tcp udp =>
    if tcpSet then tcpHandle tcp fds
    else if udpSet then udpHandle udp fds
    else none

/-- An iteration of `epollServer`: `epoll_wait` fails, with `EINTR` or not, or it returns at most
two events. -/
inductive EpollIteration where
  | error (eintr : Bool)
  | ready (evList : List Event)
  deriving DecidableEq

/-- The loop over the events that `epoll_wait` has returned. -/
def dispatch : List Event → Finset ℕ → Option (Finset ℕ)
  | [], fds => some fds
  | e :: es, fds => if e.epollin then (handle e fds).bind (dispatch es) else dispatch es fds

/-- The body of the loop of `epollServer`. -/
def epollStep (fds : Finset ℕ) : EpollIteration → Option (Finset ℕ)
  | .error eintr => if eintr then some fds else none
  | .ready evList => if evList.length ≤ 2 then dispatch evList fds else none

/-- `selectServer`, entered with the descriptors `fds`. -/
def selectServer (fds : Finset ℕ) : Machine (Finset ℕ) SelectIteration where
  init s := s = fds
  step := selectStep

/-- The loop of `epollServer`, entered with the descriptors `fds`, those of the epoll instance among
them. -/
def epollServer (fds : Finset ℕ) : Machine (Finset ℕ) EpollIteration where
  init s := s = fds
  step := epollStep

/-! ## What the iterations keep -/

/-- The iteration of `selectServer` handles no connection. -/
def SelectIteration.NoConnection : SelectIteration → Prop
  | .ready tcpSet _ _ _ => tcpSet = false
  | _ => True

/-- The event leads to `tcpHandle`. -/
def Event.isConnection (e : Event) : Bool := e.epollin && e.fd = .tcp

/-- The iteration of `epollServer` handles no connection. -/
def EpollIteration.NoConnection : EpollIteration → Prop
  | .ready evList => ∀ e ∈ evList, e.isConnection = false
  | _ => True

variable {fds t : Finset ℕ}

/-- `tcpHandle` leaves one more descriptor open. -/
theorem card_tcpHandle {ans : TcpAnswer} (h : tcpHandle ans fds = some t) :
    fds ⊆ t ∧ t.card = fds.card + 1 := by
  unfold tcpHandle at h
  split at h
  · cases h
  · rename_i lfd _
    obtain ⟨⟨hnew, -⟩, ht⟩ := Option.ite_none_right_eq_some.mp h
    rw [← Option.some.inj ht]
    exact ⟨Finset.subset_insert _ _, Finset.card_insert_of_notMem hnew⟩

/-- `udpHandle` leaves the descriptors as they are. -/
theorem udpHandle_eq {ans : UdpAnswer} (h : udpHandle ans fds = some t) : t = fds :=
  (Option.some.inj (Option.ite_none_right_eq_some.mp h).2).symm

/-- Handling an event leaves as many descriptors open as it accepts connections. -/
theorem card_handle {e : Event} (he : e.epollin = true) (h : handle e fds = some t) :
    fds ⊆ t ∧ t.card = fds.card + e.isConnection.toNat := by
  unfold handle at h
  split at h
  · rename_i hfd
    have hconn : e.isConnection = true := by simp [Event.isConnection, he, hfd]
    rw [hconn]
    exact card_tcpHandle h
  · rename_i hfd
    have hconn : e.isConnection = false := by simp [Event.isConnection, hfd]
    rw [hconn, udpHandle_eq h]
    exact ⟨Finset.Subset.refl _, rfl⟩

/-- One more descriptor is open for each event that led to `tcpHandle`. -/
theorem card_dispatch {es : List Event} (h : dispatch es fds = some t) :
    fds ⊆ t ∧ t.card = fds.card + es.countP (·.isConnection) := by
  induction es generalizing fds with
  | nil =>
    rw [← Option.some.inj h]
    exact ⟨Finset.Subset.refl _, rfl⟩
  | cons e es ih =>
    unfold dispatch at h
    split at h
    · rename_i he
      obtain ⟨u, hu, hut⟩ := Option.bind_eq_some_iff.mp h
      obtain ⟨hsub, hcard⟩ := card_handle he hu
      obtain ⟨hsub', hcard'⟩ := ih hut
      refine ⟨hsub.trans hsub', ?_⟩
      rw [hcard', hcard, List.countP_cons]
      rcases e.isConnection with _ | _
      · simp
      · simp
        omega
    · rename_i he
      have hconn : e.isConnection = false := by simp [Event.isConnection, he]
      rw [List.countP_cons_of_neg (by simp [hconn])]
      exact ih h

theorem eq_iff_of_card {n : ℕ} (h : fds ⊆ t ∧ t.card = fds.card + n) : t = fds ↔ n = 0 := by
  obtain ⟨hsub, hcard⟩ := h
  constructor
  · intro ht
    rw [ht] at hcard
    omega
  · intro hn
    exact (Finset.eq_of_subset_of_card_le hsub (by omega)).symm

/-- An iteration of `selectServer` keeps the descriptors exactly if it handles no connection. -/
theorem selectStep_iff {a : SelectIteration} (h : selectStep fds a = some t) :
    t = fds ↔ a.NoConnection := by
  rcases a with eintr | _ | ⟨tcpSet, udpSet, tcp, udp⟩
  · obtain ⟨-, ht⟩ := Option.ite_none_right_eq_some.mp h
    exact iff_of_true (Option.some.inj ht).symm trivial
  · exact iff_of_true (Option.some.inj h).symm trivial
  · simp only [selectStep] at h
    split at h
    · rename_i htcp
      rw [eq_iff_of_card (card_tcpHandle h), SelectIteration.NoConnection, htcp]
      decide
    · rename_i htcp
      obtain ⟨-, hudp⟩ := Option.ite_none_right_eq_some.mp h
      exact iff_of_true (udpHandle_eq hudp) (Bool.eq_false_of_not_eq_true htcp)

/-- An iteration of `epollServer` keeps the descriptors exactly if it handles no connection. -/
theorem epollStep_iff {a : EpollIteration} (h : epollStep fds a = some t) :
    t = fds ↔ a.NoConnection := by
  rcases a with eintr | evList
  · obtain ⟨-, ht⟩ := Option.ite_none_right_eq_some.mp h
    exact iff_of_true (Option.some.inj ht).symm trivial
  · obtain ⟨-, ht⟩ := Option.ite_none_right_eq_some.mp h
    rw [eq_iff_of_card (card_dispatch ht), List.countP_eq_zero]
    exact forall₂_congr fun e _ => Bool.not_eq_true _ ▸ Iff.rfl

/-- **When the descriptors stay the same.**  For every set of descriptors the loops are entered with
and every sequence of iterations of any length: at the head of every iteration the open descriptors
are those at entry, exactly when no iteration handles a connection. -/
theorem descriptors_throughout_iff (fds : Finset ℕ) :
    (∀ as, (selectServer fds).Throughout (· = fds) fds as ↔
      (selectServer fds).Respects (fun _ a => a.NoConnection) fds as) ∧
    (∀ as, (epollServer fds).Throughout (· = fds) fds as ↔
      (epollServer fds).Respects (fun _ a => a.NoConnection) fds as) := by
  constructor
  · intro as
    refine Machine.throughout_iff_respects (M := selectServer fds) (I := fun _ => True)
      (fun _ _ _ _ _ => trivial) ?_ as trivial rfl
    rintro s a t - rfl h
    exact selectStep_iff h
  · intro as
    refine Machine.throughout_iff_respects (M := epollServer fds) (I := fun _ => True)
      (fun _ _ _ _ _ => trivial) ?_ as trivial rfl
    rintro s a t - rfl h
    exact epollStep_iff h

/-- One connection is handled: its descriptor 5 is open at the head of the next iteration. -/
theorem not_descriptors_throughout : ¬ ∀ fds : Finset ℕ,
    (∀ as, (selectServer fds).Throughout (· = fds) fds as) ∧
      ∀ as, (epollServer fds).Throughout (· = fds) fds as := by
  intro h
  have hrun := (h {0, 1, 2, 3, 4}).1 [.ready true false ⟨some 5, true⟩ ⟨true, true⟩]
  have hnext : ({5, 0, 1, 2, 3, 4} : Finset ℕ) = {0, 1, 2, 3, 4} := hrun.2 _ rfl
  exact absurd hnext (by decide)

end Descriptors
end InetServer
end CodeStrudy
