import Mathlib.Tactic.Ring

/-!
# Child processes and `SIGCHLD`

What a process has of its children: how many are running, how many have terminated and have not
been waited for, and whether a `SIGCHLD` is pending.  A signal is one bit, so a child that
terminates while one is pending adds nothing to it.  Nothing in this file names a program.

## What is proved

`unannounced` counts the dead children that no pending signal stands for.  It changes in two ways
only: it grows by one when a child terminates while a signal is pending (`unannounced_exit`), and it
moves with the delivery of a signal and with the child that a `waitpid` takes.
-/

namespace CodeStrudy
namespace Foundation

/-- The children of a process. -/
structure Children where
  /-- Children that have not terminated. -/
  running : ℕ
  /-- Terminated children that have not been waited for. -/
  dead : ℕ
  /-- A `SIGCHLD` is pending. -/
  pending : Bool
  deriving DecidableEq

/-- The result of `waitpid(-1, &status, WNOHANG)`: the id of a dead child, zero, or -1 with
`ECHILD`. -/
inductive WaitResult where
  | reaped
  | zero
  | echild
  deriving DecidableEq

namespace Children

/-- A process that has not called `fork`. -/
def empty : Children := ⟨0, 0, false⟩

/-- The children that have not been waited for. -/
def unreaped (c : Children) : ℕ := c.running + c.dead

/-- `fork` has succeeded. -/
def fork (c : Children) : Children := { c with running := c.running + 1 }

/-- A child terminates, and `SIGCHLD` is generated. -/
def exit (c : Children) : Option Children :=
  if 0 < c.running then some ⟨c.running - 1, c.dead + 1, true⟩ else none

/-- The pending signal is delivered. -/
def deliver (c : Children) : Option Children :=
  if c.pending then some { c with pending := false } else none

/-- `waitpid(-1, &status, WNOHANG)`. -/
def waitpid (c : Children) : WaitResult × Children :=
  if 0 < c.dead then (.reaped, { c with dead := c.dead - 1 })
  else if 0 < c.running then (.zero, c)
  else (.echild, c)

theorem exit_eq_some_iff {c d : Children} :
    c.exit = some d ↔ 0 < c.running ∧ d = ⟨c.running - 1, c.dead + 1, true⟩ := by
  rw [exit, Option.ite_none_right_eq_some, Option.some.injEq]
  exact and_congr_right fun _ => eq_comm

theorem deliver_eq_some_iff {c d : Children} :
    c.deliver = some d ↔ c.pending = true ∧ d = { c with pending := false } := by
  rw [deliver, Option.ite_none_right_eq_some, Option.some.injEq]
  exact and_congr_right fun _ => eq_comm

theorem waitpid_of_dead_pos {c : Children} (h : 0 < c.dead) :
    c.waitpid = (.reaped, { c with dead := c.dead - 1 }) := if_pos h

/-- When `waitpid` takes no child there is no dead one, and nothing changes. -/
theorem waitpid_of_dead_eq_zero {c : Children} (h : c.dead = 0) :
    c.waitpid = (if 0 < c.running then .zero else .echild, c) := by
  rw [waitpid, if_neg (by omega)]
  split <;> rfl

/-- A child that terminates stays to be waited for. -/
theorem unreaped_exit {c d : Children} (h : c.exit = some d) : d.unreaped = c.unreaped := by
  obtain ⟨hpos, rfl⟩ := exit_eq_some_iff.mp h
  show c.running - 1 + (c.dead + 1) = c.running + c.dead
  omega

theorem unreaped_deliver {c d : Children} (h : c.deliver = some d) :
    d.unreaped = c.unreaped := by
  obtain ⟨-, rfl⟩ := deliver_eq_some_iff.mp h
  rfl

@[simp] theorem unreaped_fork (c : Children) : c.fork.unreaped = c.unreaped + 1 := by
  show c.running + 1 + c.dead = c.running + c.dead + 1
  omega

/-! ## Dead children without a signal -/

/-- How many dead children there are beyond the one that the pending signal stands for. -/
def unannounced (c : Children) : ℤ := c.dead - c.pending.toNat

@[simp] theorem unannounced_empty : empty.unannounced = 0 := rfl

@[simp] theorem unannounced_fork (c : Children) : c.fork.unannounced = c.unannounced := rfl

/-- A death is announced exactly if no signal was pending. -/
theorem unannounced_exit {c d : Children} (h : c.exit = some d) :
    d.unannounced = c.unannounced + c.pending.toNat := by
  obtain ⟨-, rfl⟩ := exit_eq_some_iff.mp h
  show ((c.dead + 1 : ℕ) : ℤ) - ((1 : ℕ) : ℤ) = (c.dead : ℤ) - c.pending.toNat + c.pending.toNat
  push_cast
  ring

theorem unannounced_deliver {c d : Children} (h : c.deliver = some d) :
    d.unannounced = c.unannounced + 1 := by
  obtain ⟨hp, rfl⟩ := deliver_eq_some_iff.mp h
  show (c.dead : ℤ) - ((0 : ℕ) : ℤ) = (c.dead : ℤ) - c.pending.toNat + 1
  rw [hp, Bool.toNat_true]
  push_cast
  ring

end Children

end Foundation
end CodeStrudy
