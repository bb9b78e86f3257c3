import CodeStrudy.ThreadMultijoin.Program

/-!
# How `main` leaves its loop

In `routines/30.4.thread_multijoin` the loop over `numLive` ends before the loop that joins: the
brace that closes it stands behind the wait.  Nothing in the loop changes `numLive` or releases the
mutex, so when the wait is over `main` comes back to its `pthread_mutex_lock` with the mutex held.

## What is proved

* `joins_throughout_iff`: a run keeps `main` from locking a mutex it holds, and from leaving with a
  thread not joined, exactly if `main` never finds a thread counted when it tests `numNoJoined`.
* `not_exited`: with at least one thread `main` never reaches its exit.
-/

namespace CodeStrudy
namespace ThreadMultijoin

open Foundation

/-- `main` is not at its lock with the mutex held, and at its exit it has joined every thread
once. -/
structure Joins (n : ℕ) (s : State) : Prop where
  lock : ¬ (s.main = .lock ∧ s.mutex = some .main)
  exit : s.main = .exited → ∀ k < n, s.joined k = 1

/-- When `main` tests `numNoJoined`, no thread has been counted. -/
def Waits (s : State) : Label → Prop
  | .main _ => s.main = .whileNone → s.numNoJoined = 0
  | _ => True

instance : ∀ s a, Decidable (Waits s a)
  | s, .main _ => inferInstanceAs (Decidable (s.main = .whileNone → s.numNoJoined = 0))
  | _, .thread _ | _, .wake => .isTrue trivial

/-- What holds as long as every step has met `Waits`: `main` holds the mutex at its test only. -/
structure Waiting (n : ℕ) (s : State) : Prop where
  inv : Inv n s
  main : s.mutex = some .main → s.main = .whileNone

variable {n k : ℕ} {s t : State}

theorem Waiting.joins (h : Waiting n s) : Joins n s where
  lock := by
    rintro ⟨hlock, hmain⟩
    exact absurd (hlock.symm.trans (h.main hmain)) (by decide)
  exit := by
    intro hexit k hk
    have hout := h.inv.outline
    rw [hexit] at hout
    have hzero : n = 0 := hout
    omega

theorem waiting_initial (n : ℕ) : Waiting n (initial n) := ⟨inv_initial n, fun h => nomatch h⟩

/-- A step of a thread does not give the mutex to `main`, nor move it from its test. -/
theorem main_threadEffect (hs : ThreadEffect k s t) (hmain : t.mutex = some .main) :
    s.mutex = some .main ∧ (s.main = .whileNone → t.main = .whileNone) := by
  cases hs with
  | start hpc => exact ⟨hmain, id⟩
  | sleep hpc => exact ⟨hmain, id⟩
  | lock hpc hfree => exact nomatch Option.some.inj hmain
  | count hpc => exact ⟨hmain, id⟩
  | mark hpc => exact ⟨hmain, id⟩
  | unlock hpc => exact nomatch hmain
  | signal hpc =>
    refine ⟨hmain, fun htest => ?_⟩
    show (if s.main = .waiting then .woken else s.main) = .whileNone
    rw [htest]
    rfl

/-- A step of `main` that finds nobody counted leaves it without the mutex, or at the test. -/
theorem main_mainEffect (h : Waiting n s) (hs : MainEffect n s t)
    (hwaits : s.main = .whileNone → s.numNoJoined = 0) (hmain : t.mutex = some .main) :
    t.main = .whileNone := by
  have hnot : ∀ {p : MainPc}, s.main = p → p ≠ .whileNone → s.mutex ≠ some .main :=
    fun hpc hp hmutex => hp (hpc.symm.trans (h.main hmutex))
  cases hs with
  | assign hpc hnew => exact absurd hmain (hnot hpc (by decide))
  | live hpc hge =>
    unfold whileLive at hmain
    split at hmain
    · exact absurd hmain (hnot hpc (by decide))
    · exact absurd hmain (hnot hpc (by decide))
  | create hpc hnew => exact absurd hmain (hnot hpc (by decide))
  | failed hpc => exact absurd hmain (hnot hpc (by decide))
  | next hpc hnew => exact absurd hmain (hnot hpc (by decide))
  | lock hpc hfree hlive => rfl
  | wait hpc hmutex hzero hlive => exact nomatch hmain
  | again hpc hmutex hne hlive => exact absurd (hwaits hpc) hne
  | joinEnd hpc hzero => exact absurd hmain (hnot hpc (by decide))
  | unlock hpc hzero hmutex => exact nomatch hmain
  | leave hpc hzero hmutex => exact absurd hmain hmutex

theorem waiting_step (s : State) (a : Label) (t : State) (h : Waiting n s)
    (hs : (machine n).step s a = some t) (hC : Waits s a) : Waiting n t := by
  refine ⟨inv_step s a t h.inv hs, fun hmain => ?_⟩
  rcases a with created | k | _
  · exact main_mainEffect h (h.inv.mainEffect hs) hC hmain
  · obtain ⟨hmutex, hkeep⟩ :=
      main_threadEffect (threadEffect (Option.ite_none_left_eq_some.mp hs).2) hmain
    exact hkeep (h.main hmutex)
  · obtain ⟨hpc, ht⟩ := Option.ite_none_right_eq_some.mp hs
    obtain rfl := Option.some.inj ht
    exact absurd (hpc.symm.trans (h.main hmain)) (by decide)

/-- When `main` finds a thread counted, it goes back to its lock with the mutex held. -/
theorem not_joins_of_not_waits (s : State) (a : Label) (t : State) (h : Waiting n s)
    (hs : (machine n).step s a = some t) (hC : ¬ Waits s a) : ¬ Joins n t := by
  intro ht
  rcases a with created | k | _
  · obtain ⟨hpc, hcount⟩ := Classical.not_imp.mp hC
    have hout := h.inv.outline
    rw [hpc] at hout
    obtain ⟨⟨hlive, hn⟩, hmain⟩ := hout
    have hpos : 0 < s.numLive := by omega
    have hstep : mainStep n created s = some { s with main := .lock } := by
      simp only [mainStep, hpc]
      rw [if_neg hcount, whileLive, if_pos hpos]
    obtain rfl := Option.some.inj (hstep.symm.trans hs)
    exact ht.lock ⟨rfl, hmain⟩
  · exact hC trivial
  · exact hC trivial

/-! ## The results -/

/-- **When `main` does not lock itself out.**  For every number of threads and every run: in every
state of the run `main` does not lock a mutex it holds, and has joined every thread once if it is at
its exit, exactly when every step of the run meets `Waits`. -/
theorem joins_throughout_iff (n : ℕ) (as : List Label) :
    (machine n).Throughout (Joins n) (initial n) as ↔
      (machine n).Respects Waits (initial n) as :=
  Machine.throughout_iff_respects_of_invariant (M := machine n) (fun _ h => h.joins)
    waiting_step not_joins_of_not_waits as (waiting_initial n)

/-- **`main` does not come to its exit**, unless there is no thread. -/
theorem not_exited (hn : 0 < n) (h : (machine n).Reachable s) : s.main ≠ .exited := by
  intro hexit
  have hI : Inv n s := by
    refine h.invariant ?_ inv_step
    rintro _ rfl
    exact inv_initial n
  have hout := hI.outline
  rw [hexit] at hout
  have hzero : n = 0 := hout
  omega

/-- One thread ends before `main` comes to its loop: `main` finds it counted and locks the mutex
again. -/
theorem not_joins : ¬ ∀ n, 0 < n → ∀ s, (machine n).Reachable s → Joins n s := by
  intro h
  have hrun := (Machine.Reachable.init (M := machine 1) (s := initial 1) rfl).run
    [.main true, .main true, .thread 0, .thread 0, .thread 0, .thread 0, .thread 0, .thread 0,
      .thread 0, .main true, .main true, .main true, .main true] rfl
  exact (h 1 (by decide) _ hrun).lock ⟨rfl, rfl⟩

end ThreadMultijoin
end CodeStrudy
