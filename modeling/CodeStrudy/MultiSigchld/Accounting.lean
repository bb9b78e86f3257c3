import CodeStrudy.Foundation.CString
import CodeStrudy.Foundation.Children
import CodeStrudy.Foundation.Machine

/-!
# Counting children in a signal handler

`routines/26.5.multi_SIGCHLD` forks a child for each argument and waits until all of them have been
reaped.  The handler of `SIGCHLD` reaps and counts down `numLiveChildren`; `main` tests it and
suspends itself in `sigsuspend`, the only place where the signal is not blocked.  The kernel puts
the old mask back when the handler returns, so a `sigsuspend` delivers one signal.

`main` declares `argc` as a `char`.  With more than 126 arguments it may be negative in there, and
then so is the counter, and no child is forked.

## What is proved

`accounted_iff`: the counter is right and no wakeup is lost, in every state of every run, exactly
if `argc` has reached `main` as a positive number.
-/

namespace CodeStrudy
namespace MultiSigchld

open Foundation

/-- Where the process is: `main` in its loop of forks, at the test of its other loop, in
`sigsuspend`; the handler in its loop, or in its `sleep` behind it; `main` behind its loops, or past
its exit after a failed `fork`. -/
inductive Pc where
  | forking
  | test
  | suspended
  | reaping
  | sleeping
  | left
  | failed
  deriving DecidableEq

/-- The process and its children. -/
structure State where
  pc : Pc
  i : ℤ
  numLiveChildren : ℤ
  children : Children
  deriving DecidableEq

/-- One move: of `main`, whose `fork` succeeds or not; of a child, which terminates; of the kernel,
which delivers `SIGCHLD`; of the handler. -/
inductive Label where
  | main (forked : Bool)
  | exit
  | deliver
  | handler
  deriving DecidableEq

/-- `main` before its loop of forks, when it has set the counter and blocked the signal. -/
def initial (argc : ℤ) : State := ⟨.forking, 1, argc - 1, .empty⟩

/-- A step of `main`. -/
def main (argc : ℤ) (forked : Bool) (s : State) : Option State :=
  match s.pc with
  | .forking =>
    if s.i < argc then
      if forked then some { s with i := s.i + 1, children := s.children.fork }
      else some { s with pc := .failed }
    else some { s with pc := .test }
  | .test => some { s with pc := if 0 < s.numLiveChildren then .suspended else .left }
  | _ => none

/-- A step of `sigchldHandler`: a pass of its loop, or its return after the `sleep`.  The test of
`errno` after the loop never fails, since `ECHILD` is the only error `waitpid` has here. -/
def sigchldHandler (s : State) : Option State :=
  match s.pc with
  | .reaping =>
    match s.children.waitpid with
    | (.reaped, c) => some { s with children := c, numLiveChildren := s.numLiveChildren - 1 }
    | (_, c) => some { s with children := c, pc := .sleeping }
  | .sleeping => some { s with pc := .test }
  | _ => none

/-- One step. -/
def step (argc : ℤ) (s : State) : Label → Option State
  | .main forked => main argc forked s
  | .exit => s.children.exit.map fun c => { s with children := c }
  | .deliver =>
    if s.pc = .suspended then
      s.children.deliver.map fun c => { s with children := c, pc := .reaping }
    else none
  | .handler => sigchldHandler s

/-- The program. -/
def machine (argc : ℤ) : Machine State Label where
  init s := s = initial argc
  step := step argc

/-! ## The property -/

/-- The children not yet reaped, those not yet forked among them. -/
def State.notReaped (argc : ℤ) (s : State) : ℕ := (argc - s.i).toNat + s.children.unreaped

/-- The counter is right, no wakeup is lost, and `main` leaves its loop when all children are
reaped, and only then. -/
structure Accounted (argc : ℤ) (s : State) : Prop where
  count : s.numLiveChildren = s.notReaped argc
  awake : s.pc = .suspended → 0 < s.numLiveChildren →
    0 < s.children.running ∨ s.children.pending = true
  leaves : ∀ forked t, s.pc = .test → (machine argc).step s (.main forked) = some t →
    (t.pc = .left ↔ s.notReaped argc = 0)
  left : s.pc = .left → s.notReaped argc = 0

/-- What holds in every state reached, if `argc` is positive. -/
structure Inv (argc : ℤ) (s : State) : Prop where
  i_le : s.i ≤ argc
  count : s.numLiveChildren = s.notReaped argc
  forked : s.pc = .forking ∨ s.pc = .failed ∨ s.i = argc
  /-- A dead child has a signal or the handler's loop to come for it. -/
  awaited : 0 < s.children.dead → s.children.pending = true ∨ s.pc = .reaping
  left : s.pc = .left → s.notReaped argc = 0

variable {argc : ℤ} {s t : State}

theorem inv_initial (h : 1 ≤ argc) : Inv argc (initial argc) where
  i_le := h
  count := by
    show argc - 1 = (((argc - 1).toNat + 0 : ℕ) : ℤ)
    omega
  forked := Or.inl rfl
  awaited := fun hpos => absurd hpos (lt_irrefl 0)
  left := fun h => nomatch h

/-! ## Steps -/

theorem inv_main {forked : Bool} (hI : Inv argc s) (h : main argc forked s = some t) :
    Inv argc t := by
  unfold main at h
  split at h
  · rename_i hpc
    have hnot : s.pc ≠ .reaping := by simp [hpc]
    split at h
    · rename_i hlt
      rcases forked with _ | _
      · obtain rfl := Option.some.inj h
        exact ⟨hI.i_le, hI.count, Or.inr (Or.inl rfl),
          fun hd => Or.inl ((hI.awaited hd).resolve_right hnot), fun h => nomatch h⟩
      · obtain rfl := Option.some.inj h
        refine ⟨Int.add_one_le_of_lt hlt, ?_, Or.inl hpc,
          fun hd => Or.inl ((hI.awaited hd).resolve_right hnot), fun hl => ?_⟩
        · rw [hI.count]
          show (((argc - s.i).toNat + s.children.unreaped : ℕ) : ℤ) =
            ((argc - (s.i + 1)).toNat + s.children.fork.unreaped : ℕ)
          rw [Children.unreaped_fork]
          omega
        · exact absurd (hpc.symm.trans hl) (by decide)
    · rename_i hge
      obtain rfl := Option.some.inj h
      exact ⟨hI.i_le, hI.count, Or.inr (Or.inr (le_antisymm hI.i_le (not_lt.mp hge))),
        fun hd => Or.inl ((hI.awaited hd).resolve_right hnot), fun h => nomatch h⟩
  · rename_i hpc
    have hi : s.i = argc := by simpa [hpc] using hI.forked
    obtain rfl := Option.some.inj h
    refine ⟨hI.i_le, hI.count, Or.inr (Or.inr hi),
      fun hd => Or.inl ((hI.awaited hd).resolve_right (by simp [hpc])), fun hl => ?_⟩
    -- `main` leaves its loop, so the counter is not positive
    have hle : ¬ 0 < s.numLiveChildren := fun hpos => by simp [hpos] at hl
    show s.notReaped argc = 0
    have hcount := hI.count
    omega
  · cases h

theorem inv_sigchldHandler (hI : Inv argc s) (h : sigchldHandler s = some t) : Inv argc t := by
  unfold sigchldHandler at h
  split at h
  · rename_i hpc
    have hi : s.i = argc := by simpa [hpc] using hI.forked
    by_cases hdead : 0 < s.children.dead
    · rw [Children.waitpid_of_dead_pos hdead] at h
      obtain rfl := Option.some.inj h
      refine ⟨hI.i_le, ?_, Or.inr (Or.inr hi), fun _ => Or.inr hpc, fun hl => ?_⟩
      · show s.numLiveChildren - 1 =
          (((argc - s.i).toNat + (s.children.running + (s.children.dead - 1)) : ℕ) : ℤ)
        rw [hI.count, State.notReaped, Children.unreaped]
        omega
      · exact absurd (hpc.symm.trans hl) (by decide)
    · have hzero : s.children.dead = 0 := Nat.eq_zero_of_not_pos hdead
      have ht : t = { s with pc := .sleeping } := by
        rw [Children.waitpid_of_dead_eq_zero hzero] at h
        split at h
        · rename_i heq
          split at heq <;> cases heq
        · rename_i heq
          rw [← Option.some.inj h, ← (Prod.mk.inj heq).2]
      rw [ht]
      exact ⟨hI.i_le, hI.count, Or.inr (Or.inr hi), fun hd => absurd hd hdead, fun h => nomatch h⟩
  · rename_i hpc
    have hi : s.i = argc := by simpa [hpc] using hI.forked
    obtain rfl := Option.some.inj h
    exact ⟨hI.i_le, hI.count, Or.inr (Or.inr hi),
      fun hd => Or.inl ((hI.awaited hd).resolve_right (by simp [hpc])), fun h => nomatch h⟩
  · cases h

theorem inv_step (s : State) (a : Label) (t : State) (hI : Inv argc s)
    (h : (machine argc).step s a = some t) : Inv argc t := by
  rcases a with forked | _ | _ | _
  · exact inv_main hI h
  · obtain ⟨c, hc, rfl⟩ := Option.map_eq_some_iff.mp h
    have hsame : ({ s with children := c } : State).notReaped argc = s.notReaped argc :=
      congrArg ((argc - s.i).toNat + ·) (Children.unreaped_exit hc)
    obtain ⟨-, rfl⟩ := Children.exit_eq_some_iff.mp hc
    exact ⟨hI.i_le, hsame ▸ hI.count, hI.forked, fun _ => Or.inl rfl,
      fun hl => hsame.trans (hI.left hl)⟩
  · obtain ⟨hpc, hd⟩ := Option.ite_none_right_eq_some.mp h
    obtain ⟨c, hc, rfl⟩ := Option.map_eq_some_iff.mp hd
    have hi : s.i = argc := by simpa [hpc] using hI.forked
    have hsame : ({ s with children := c, pc := .reaping } : State).notReaped argc =
        s.notReaped argc :=
      congrArg ((argc - s.i).toNat + ·) (Children.unreaped_deliver hc)
    exact ⟨hI.i_le, hsame ▸ hI.count, Or.inr (Or.inr hi), fun _ => Or.inr rfl, fun h => nomatch h⟩
  · exact inv_sigchldHandler hI h

/-! ## The result -/

theorem Inv.accounted (hI : Inv argc s) : Accounted argc s where
  count := hI.count
  awake := by
    intro hpc hpos
    have hi : s.i = argc := by simpa [hpc] using hI.forked
    have hcount : s.numLiveChildren = (s.children.running + s.children.dead : ℕ) := by
      rw [hI.count, State.notReaped, hi, sub_self, Int.toNat_zero, Nat.zero_add,
        Children.unreaped]
    by_cases hrun : 0 < s.children.running
    · exact Or.inl hrun
    · have hdead : 0 < s.children.dead := by omega
      exact Or.inr ((hI.awaited hdead).resolve_right (by simp [hpc]))
  leaves := by
    intro forked t hpc h
    have hcount := hI.count
    simp only [machine, step, main, hpc, Option.some.injEq] at h
    rw [← h]
    by_cases hpos : 0 < s.numLiveChildren
    · simp only [hpos, if_true, reduceCtorEq, false_iff]
      omega
    · simp only [hpos, if_false, true_iff]
      omega
  left := hI.left

/-- **Accounting.** For every number of words on the command line: in every state reached by `main`,
the handler and the children in any order the counter is the number of children not yet reaped, a
suspended `main` has a running child or a pending signal to wake it, and `main` leaves its loop
exactly when all children are reaped; provided that `argc`, as `main` sees it, is positive, and
never otherwise. -/
theorem accounted_iff (n : ℕ) :
    (∀ s, (machine (charArgc n)).Reachable s → Accounted (charArgc n) s) ↔ 1 ≤ charArgc n := by
  constructor
  · intro h
    have hcount : charArgc n - 1 = (((charArgc n - 1).toNat + 0 : ℕ) : ℤ) :=
      (h (initial (charArgc n)) (Machine.Reachable.init (M := machine (charArgc n)) rfl)).count
    omega
  · intro hpos s hs
    have hI : Inv (charArgc n) s := by
      refine hs.invariant ?_ inv_step
      rintro _ rfl
      exact inv_initial hpos
    exact hI.accounted

/-- With 127 arguments `argc` is -128: the counter starts at -129, and no child is forked. -/
theorem not_accounted : ¬ ∀ n s, (machine (charArgc n)).Reachable s → Accounted (charArgc n) s := by
  intro h
  have hcount := (h 128 (initial (charArgc 128))
    (Machine.Reachable.init (M := machine (charArgc 128)) rfl)).count
  exact absurd hcount (by decide)

end MultiSigchld
end CodeStrudy
