import Mathlib.Logic.Function.Basic
import Mathlib.Tactic.Ring

/-!
# The two sockets of the server, and the children that serve them

`practice/62.2/server.c` waits for connections on `tcpFd` and for datagrams on `udpFd`.  Its poll
server and its signal server fork a child for each event they see, and the child runs `tcpHandle` or
`udpHandle`: it takes one connection or one datagram from the socket, answers, and exits.  The two
handlers are alike in what they do to their sockets, so a socket is one structure with two uses.

What a child does is split where other processes can come between: its `accept` or `recvfrom`, which
succeeds (`take`) or fails and leads to `ERROUT` (`fail`), and everything after it up to its exit
(`finish`).
-/

namespace CodeStrudy
namespace InetServer

/-- Which socket: the listening one of `tcpFd`, or `udpFd`. -/
inductive Kind where
  | tcp
  | udp
  deriving DecidableEq

/-- A socket and the children forked for it. -/
structure Socket where
  /-- Connections not accepted, or datagrams not read. -/
  queued : ℕ
  /-- Children before their `accept` or `recvfrom`. -/
  waiting : ℕ
  /-- Children that have taken a connection or a datagram and not exited. -/
  serving : ℕ
  /-- All connections or datagrams that have arrived. -/
  arrived : ℕ
  /-- All children that have been forked. -/
  forked : ℕ
  /-- The children whose `accept` or `recvfrom` failed. -/
  failed : ℕ
  deriving DecidableEq

/-- What the clients and the children do to a socket. -/
inductive Move where
  | arrive
  | take
  | fail
  | finish
  deriving DecidableEq

namespace Socket

/-- The socket when the server starts. -/
def fresh : Socket := ⟨0, 0, 0, 0, 0, 0⟩

/-- A child is forked for the socket. -/
def fork (k : Socket) : Socket := { k with waiting := k.waiting + 1, forked := k.forked + 1 }

/-- A move of a client or of a child.  With nothing queued a child cannot take anything. -/
def move (k : Socket) : Move → Option Socket
  | .arrive => some { k with queued := k.queued + 1, arrived := k.arrived + 1 }
  | .take =>
    if 0 < k.waiting ∧ 0 < k.queued then
      some { k with waiting := k.waiting - 1, queued := k.queued - 1, serving := k.serving + 1 }
    else none
  | .fail =>
    if 0 < k.waiting then some { k with waiting := k.waiting - 1, failed := k.failed + 1 }
    else none
  | .finish => if 0 < k.serving then some { k with serving := k.serving - 1 } else none

/-- What arrived and is not queued any more was taken by a child that neither waits nor failed. -/
def Balanced (k : Socket) : Prop := k.arrived + k.waiting + k.failed = k.forked + k.queued

/-- How many connections or datagrams are queued beyond those that a child is on its way to. -/
def unclaimed (k : Socket) : ℤ := k.queued - k.waiting

variable {k k' : Socket} {m : Move}

/-- What a move does, one line for each. -/
theorem move_cases (h : k.move m = some k') :
    m = .arrive ∧ k' = { k with queued := k.queued + 1, arrived := k.arrived + 1 } ∨
    m = .take ∧ (0 < k.waiting ∧ 0 < k.queued) ∧ k' = { k with
      waiting := k.waiting - 1, queued := k.queued - 1, serving := k.serving + 1 } ∨
    m = .fail ∧ 0 < k.waiting ∧
      k' = { k with waiting := k.waiting - 1, failed := k.failed + 1 } ∨
    m = .finish ∧ k' = { k with serving := k.serving - 1 } := by
  rcases m with _ | _ | _ | _
  · exact Or.inl ⟨rfl, (Option.some.inj h).symm⟩
  · obtain ⟨hpos, hk⟩ := Option.ite_none_right_eq_some.mp h
    exact Or.inr (Or.inl ⟨rfl, hpos, (Option.some.inj hk).symm⟩)
  · obtain ⟨hpos, hk⟩ := Option.ite_none_right_eq_some.mp h
    exact Or.inr (Or.inr (Or.inl ⟨rfl, hpos, (Option.some.inj hk).symm⟩))
  · obtain ⟨-, hk⟩ := Option.ite_none_right_eq_some.mp h
    exact Or.inr (Or.inr (Or.inr ⟨rfl, (Option.some.inj hk).symm⟩))

theorem Balanced.fork (h : k.Balanced) : k.fork.Balanced := by
  unfold Balanced at h ⊢
  show k.arrived + (k.waiting + 1) + k.failed = k.forked + 1 + k.queued
  omega

theorem Balanced.move (h : k.Balanced) (hm : k.move m = some k') : k'.Balanced := by
  unfold Balanced at h ⊢
  rcases move_cases hm with ⟨-, rfl⟩ | ⟨-, ⟨hw, hq⟩, rfl⟩ | ⟨-, hw, rfl⟩ | ⟨-, rfl⟩
  · show k.arrived + 1 + k.waiting + k.failed = k.forked + (k.queued + 1)
    omega
  · show k.arrived + (k.waiting - 1) + k.failed = k.forked + (k.queued - 1)
    omega
  · show k.arrived + (k.waiting - 1) + (k.failed + 1) = k.forked + k.queued
    omega
  · exact h

@[simp] theorem unclaimed_fork (k : Socket) : k.fork.unclaimed = k.unclaimed - 1 := by
  show (k.queued : ℤ) - ((k.waiting + 1 : ℕ) : ℤ) = k.queued - k.waiting - 1
  push_cast
  ring

/-- An arrival is unclaimed, and so is what a failing child was on its way to. -/
theorem unclaimed_move (hm : k.move m = some k') :
    k'.unclaimed = k.unclaimed + if m = .arrive ∨ m = .fail then 1 else 0 := by
  rcases move_cases hm with ⟨rfl, rfl⟩ | ⟨rfl, ⟨hw, hq⟩, rfl⟩ | ⟨rfl, hw, rfl⟩ | ⟨rfl, rfl⟩
  · show ((k.queued + 1 : ℕ) : ℤ) - k.waiting = k.queued - k.waiting + 1
    omega
  · show ((k.queued - 1 : ℕ) : ℤ) - ((k.waiting - 1 : ℕ) : ℤ) = k.queued - k.waiting + 0
    omega
  · show (k.queued : ℤ) - ((k.waiting - 1 : ℕ) : ℤ) = k.queued - k.waiting + 1
    omega
  · show (k.queued : ℤ) - k.waiting = k.queued - k.waiting + 0
    omega

end Socket

end InetServer
end CodeStrudy
