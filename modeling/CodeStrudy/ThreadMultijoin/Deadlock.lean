import CodeStrudy.ThreadMultijoin.MainLoop

/-!
# Where the program stops

`routines/30.4.thread_multijoin` with at least one thread: as long as somebody can go on, somebody
does, and it is not over.

## What is proved

* `holds_step`: when `main` holds the mutex, it is at its test or back at its lock.
* `stuck_iff`: the states in which nobody can go on are those behind a failed `pthread_create`, and
  those in which `main` waits for the mutex that it holds itself.
-/

namespace CodeStrudy
namespace ThreadMultijoin

open Foundation

/-- When `main` holds the mutex, it is at its test or back at its lock. -/
structure Holds (n : ℕ) (s : State) : Prop where
  inv : Inv n s
  main : s.mutex = some .main → s.main = .whileNone ∨ s.main = .lock

variable {n k : ℕ} {s t : State}

theorem holds_initial (n : ℕ) : Holds n (initial n) := ⟨inv_initial n, nofun⟩

/-- A step of a thread leaves a `main` with the mutex where it is. -/
theorem mainPc_threadEffect (hs : ThreadEffect k s t) (hpc : s.main ≠ .waiting) :
    t.main = s.main := by
  cases hs with
  | signal => exact if_neg hpc
  | _ => rfl

theorem holds_mainEffect (hn : 0 < n) (h : Holds n s) (hs : MainEffect n s t)
    (hmain : t.mutex = some .main) : t.main = .whileNone ∨ t.main = .lock := by
  -- before its first lock `main` does not hold the mutex
  have hfree : ∀ {pc : MainPc}, s.main = pc → pc ≠ .whileNone → pc ≠ .lock →
      s.mutex ≠ some .main := by
    rintro pc rfl hne hne' hheld
    rcases h.main hheld with hpc | hpc
    · exact hne hpc
    · exact hne' hpc
  cases hs with
  | assign hpc => exact absurd hmain (hfree hpc nofun nofun)
  | live hpc =>
    have hmutex : (whileLive { s with numLive := (n : ℤ) }).mutex = s.mutex := by
      unfold whileLive
      split <;> rfl
    exact absurd (hmutex.symm.trans hmain) (hfree hpc nofun nofun)
  | create hpc => exact absurd hmain (hfree hpc nofun nofun)
  | failed hpc => exact absurd hmain (hfree hpc nofun nofun)
  | next hpc => exact absurd hmain (hfree hpc nofun nofun)
  | lock => exact .inl rfl
  | wait => cases hmain
  | again => exact .inr rfl
  | joinEnd _ hzero => omega
  | unlock _ hzero => omega
  | leave _ hzero => omega

theorem holds_step (hn : 0 < n) (s : State) (a : Label) (t : State) (h : Holds n s)
    (hs : (machine n).step s a = some t) : Holds n t := by
  refine ⟨inv_step s a t h.inv hs, fun hmain => ?_⟩
  rcases a with created | k | _
  · exact holds_mainEffect hn h (h.inv.mainEffect hs) hmain
  · have heffect := threadEffect (Option.ite_none_left_eq_some.mp hs).2
    have hpc := h.main (main_threadEffect heffect hmain).1
    have hne : s.main ≠ .waiting := by
      rintro hwait
      rw [hwait] at hpc
      rcases hpc with hpc | hpc <;> cases hpc
    rw [mainPc_threadEffect heffect hne]
    exact hpc
  · obtain ⟨hpc, ht⟩ := Option.ite_none_right_eq_some.mp hs
    obtain rfl := Option.some.inj ht
    have hback := h.main hmain
    rw [hpc] at hback
    rcases hback with hback | hback <;> cases hback

/-- `main` waits for the mutex that it holds, and the threads wait for it, or have ended. -/
structure LockedOut (s : State) : Prop where
  main : s.main = .lock
  mutex : s.mutex = some .main
  thread : ∀ k, s.thread k = .none ∨ s.thread k = .lock ∨ s.thread k = .returned

theorem LockedOut.stuck (h : LockedOut s) : (machine n).Stuck s := by
  rintro (created | k | _)
  · show mainStep n created s = none
    simp only [mainStep, h.main, h.mutex, reduceCtorEq, if_false]
  · show (if s.main.Ended then none else threadStep k s) = none
    rw [if_neg (by rw [h.main]; decide)]
    rcases h.thread k with hpc | hpc | hpc <;>
      simp only [threadStep, hpc, h.mutex, reduceCtorEq, if_false]
  · show (if s.main = .waiting then _ else none) = none
    rw [h.main]
    rfl

theorem stuck_of_failed (h : s.main = .failed) : (machine n).Stuck s := by
  rintro (created | k | _)
  · show mainStep n created s = none
    simp only [mainStep, h]
  · exact if_pos (.inr h)
  · show (if s.main = .waiting then _ else none) = none
    rw [h]
    rfl

/-- A thread that cannot go on has not begun, waits for the mutex, or has ended. -/
theorem thread_of_stuck (h : threadStep k s = none) :
    s.thread k = .none ∨ s.thread k = .returned ∨ s.thread k = .lock ∧ s.mutex ≠ none := by
  cases hpc : s.thread k <;> simp only [threadStep, hpc] at h
  case none => exact .inl rfl
  case returned => exact .inr (.inl rfl)
  case lock =>
    refine .inr (.inr ⟨rfl, fun hfree => ?_⟩)
    rw [if_pos hfree] at h
    cases h
  all_goals cases h

/-- **Where the program stops.**  For every number of threads, one at least, and every run: nobody
can go on exactly if `main` has left after a failed `pthread_create`, or it waits for the mutex that
it holds itself, with all threads ended or waiting for the same mutex. -/
theorem stuck_iff (hn : 0 < n) (h : (machine n).Reachable s) :
    (machine n).Stuck s ↔ s.main = .failed ∨ LockedOut s := by
  have hs : Holds n s := by
    refine h.invariant ?_ (holds_step hn)
    rintro _ rfl
    exact holds_initial n
  refine ⟨fun hstuck => ?_, fun h => h.elim stuck_of_failed LockedOut.stuck⟩
  have hmain : mainStep n true s = none := hstuck (.main true)
  have hout := hs.inv.outline
  have hthread : ¬ s.main.Ended → ∀ k, threadStep k s = none := fun hlive k =>
    (if_neg hlive).symm.trans (hstuck (.thread k))
  -- a mutex that is not free is `main`'s, as a thread that holds it can go on
  have hholder : ¬ s.main.Ended → s.mutex ≠ none → s.mutex = some .main := by
    intro hlive hheld
    obtain ⟨tid, htid⟩ := Option.ne_none_iff_exists'.mp hheld
    cases tid with
    | main => exact htid
    | thread k =>
      have hcrit : (s.thread k).Critical := (hs.inv.owned (.thread k)).mpr htid
      rcases thread_of_stuck (hthread hlive k) with hpc | hpc | ⟨hpc, -⟩ <;>
        rw [hpc] at hcrit <;> rcases hcrit with h | h | h <;> cases h
  cases hpc : s.main <;> simp only [mainStep, hpc] at hmain <;> rw [hpc] at hout
  case assign => split at hmain <;> cases hmain
  case create | next | whileNone | joinTest | unlock => cases hmain
  case lock =>
    have hlive : ¬ s.main.Ended := by
      rw [hpc]
      decide
    have hheld : s.mutex ≠ none := fun hfree => by
      rw [if_pos hfree] at hmain
      cases hmain
    refine .inr ⟨hpc, hholder hlive hheld, fun k => ?_⟩
    rcases thread_of_stuck (hthread hlive k) with hk | hk | ⟨hk, -⟩
    · exact .inl hk
    · exact .inr (.inr hk)
    · exact .inr (.inl hk)
  case waiting =>
    have hwake : (if s.main = .waiting then some { s with main := .woken } else none) = none :=
      hstuck .wake
    rw [if_pos hpc] at hwake
    cases hwake
  case woken =>
    have hheld : s.mutex ≠ none := fun hfree => by
      rw [if_pos hfree] at hmain
      cases hmain
    have hback := hs.main (hholder (by rw [hpc]; decide) hheld)
    rw [hpc] at hback
    rcases hback with hback | hback <;> cases hback
  case join => exact absurd hout id
  case exited =>
    have hzero : n = 0 := hout
    omega
  case failed => exact .inl rfl

/-- One thread ends before `main` comes to its loop. -/
def oneThread : List Label :=
  [.main true, .main true, .thread 0, .thread 0, .thread 0, .thread 0, .thread 0, .thread 0,
    .thread 0, .main true, .main true, .main true, .main true]

theorem stuck_oneThread :
    ∃ s, (machine 1).run (initial 1) oneThread = some s ∧
      ((machine 1).Stuck s ↔ s.main = .failed ∨ LockedOut s) := by
  have hinit : (machine 1).Reachable (initial 1) := .init rfl
  exact ⟨_, rfl, stuck_iff (by decide) (hinit.run oneThread rfl)⟩

end ThreadMultijoin
end CodeStrudy
