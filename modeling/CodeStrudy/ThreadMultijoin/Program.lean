import CodeStrudy.Foundation.Machine
import CodeStrudy.Foundation.Mutex
import Mathlib.Data.Int.Notation

/-!
# The program that joins its threads as they end

`routines/30.4.thread_multijoin` creates a thread for each argument.  Every thread is given the
address of `main`'s loop variable `i`, reads it when it comes to run, and takes what it finds there
for the index of its own entry in `threads`.  When it ends it counts itself in `numNoJoined` and
marks the entry, under the mutex.  `main` waits for the count on a condition variable and is to join
the threads that are marked.

Every access to a shared variable is a step of its own; operations on the mutex are atomic, and
`pthread_cond_wait` releases the mutex in one step and takes it back in another.  A wait may end
without a signal.  `n` is `argc - 1`.  An entry that is written outside of `threads` changes nothing
that is modelled.

`Inv` is what holds in every state reached, whatever the threads have read.
-/

namespace CodeStrudy
namespace ThreadMultijoin

open Foundation

/-- `enum status`. -/
inductive Status where
  | alive
  | terminated
  | joined
  deriving DecidableEq

/-- `struct thread_info`; `id` is the thread that `pthread_create` has put there. -/
structure ThreadInfo where
  id : Option ℕ
  status : Status
  deriving DecidableEq

/-- Where `main` is.  `assign` is the head of the loop that creates the threads, up to the
assignment of the status, and `next` its `i++`; `whileNone` is the test of `numNoJoined`; in
`waiting` it is inside `pthread_cond_wait`, and in `woken` it is to take the mutex back; `joinTest`
is the head of the loop that joins, up to the test of the status.  `failed` is its exit after a
failed `pthread_create`. -/
inductive MainPc where
  | assign
  | create
  | next
  | lock
  | whileNone
  | waiting
  | woken
  | joinTest
  | join
  | unlock
  | exited
  | failed
  deriving DecidableEq

/-- Where a thread is: not created, or at a step of `threadFunc`, or returned. -/
inductive ThreadPc where
  | none
  | start
  | sleep
  | lock
  | count
  | mark
  | unlock
  | signal
  | returned
  deriving DecidableEq

/-- The thread is between its `pthread_mutex_lock` and its `pthread_mutex_unlock`. -/
def ThreadPc.Critical (p : ThreadPc) : Prop := p = .count ∨ p = .mark ∨ p = .unlock

/-- `main`, or the thread created in the round of the loop with this index. -/
inductive Tid where
  | main
  | thread (k : ℕ)
  deriving DecidableEq

structure State where
  main : MainPc
  i : ℕ
  numLive : ℤ
  numNoJoined : ℤ
  threads : List ThreadInfo
  mutex : Option Tid
  thread : ℕ → ThreadPc
  /-- What a thread has read through its argument. -/
  id : ℕ → Option ℕ
  /-- How often a thread has been joined. -/
  joined : ℕ → ℕ

/-- `calloc` has cleared the entries, and no thread is created. -/
def initial (n : ℕ) : State where
  main := .assign
  i := 0
  numLive := 0
  numNoJoined := 0
  threads := List.replicate n ⟨none, .alive⟩
  mutex := none
  thread := fun _ => .none
  id := fun _ => none
  joined := fun _ => 0

/-- A step of `main`, with whether its `pthread_create` succeeds; a step of a thread; or the end of
`main`'s wait without a signal. -/
inductive Label where
  | main (created : Bool)
  | thread (k : ℕ)
  | wake
  deriving DecidableEq

/-- An entry of `threads` gets a new status. -/
def setStatus (threads : List ThreadInfo) (k : ℕ) (status : Status) : List ThreadInfo :=
  threads.modify k fun th => { th with status := status }

/-- `pthread_create(&threads[i].id, NULL, threadFunc, &i)`. -/
def create (s : State) : State :=
  { s with
    threads := s.threads.modify s.i fun th => { th with id := some s.i }
    thread := Function.update s.thread s.i .start
    main := .next }

/-- The test of `numLive`, which is `main`'s own: into the body of the loop, or on to the loop that
joins. -/
def whileLive (s : State) : State :=
  if 0 < s.numLive then { s with main := .lock } else { s with i := 0, main := .joinTest }

/-- The head of the loop that joins: the loop condition, and the test of the status. -/
def joinTest (n : ℕ) (s : State) : State :=
  if s.i < n then
    if s.threads[s.i]?.map ThreadInfo.status = some .terminated then { s with main := .join }
    else { s with i := s.i + 1 }
  else { s with main := .unlock }

/-- The body of the loop that joins; `pthread_join` waits until the thread has returned. -/
def join (s : State) : Option State :=
  match s.threads[s.i]?.bind ThreadInfo.id with
  | none => none
  | some k =>
    if s.thread k = .returned then
      some { s with
        joined := Function.update s.joined k (s.joined k + 1)
        threads := setStatus s.threads s.i .joined
        numNoJoined := s.numNoJoined - 1
        numLive := s.numLive - 1
        i := s.i + 1
        main := .joinTest }
    else none

/-- A step of `main`.  A thread that locks the mutex while it holds it waits for ever. -/
def mainStep (n : ℕ) (created : Bool) (s : State) : Option State :=
  match s.main with
  | .assign =>
    if s.i < n then some { s with threads := setStatus s.threads s.i .alive, main := .create }
    else some (whileLive { s with numLive := n })
  | .create => some (if created then create s else { s with main := .failed })
  | .next => some { s with i := s.i + 1, main := .assign }
  | .lock =>
    if s.mutex = none then some { s with mutex := some .main, main := .whileNone } else none
  | .whileNone =>
    some (if s.numNoJoined = 0 then { s with mutex := none, main := .waiting } else whileLive s)
  | .waiting => none
  | .woken =>
    if s.mutex = none then some { s with mutex := some .main, main := .whileNone } else none
  | .joinTest => some (joinTest n s)
  | .join => join s
  | .unlock =>
    some { s with mutex := if s.mutex = some .main then none else s.mutex, main := .exited }
  | .exited | .failed => none

/-- A step of `threadFunc` in thread `k`. -/
def threadStep (k : ℕ) (s : State) : Option State :=
  match s.thread k with
  | .start => some { s with
      id := Function.update s.id k (some s.i)
      thread := Function.update s.thread k .sleep }
  | .sleep => some { s with thread := Function.update s.thread k .lock }
  | .lock =>
    if s.mutex = none then
      some { s with mutex := some (.thread k), thread := Function.update s.thread k .count }
    else none
  | .count => some { s with
      numNoJoined := s.numNoJoined + 1
      thread := Function.update s.thread k .mark }
  | .mark => some { s with
      threads := match s.id k with
        | some id => setStatus s.threads id .terminated
        | none => s.threads
      thread := Function.update s.thread k .unlock }
  | .unlock => some { s with mutex := none, thread := Function.update s.thread k .signal }
  | .signal => some { s with
      main := if s.main = .waiting then .woken else s.main
      thread := Function.update s.thread k .returned }
  | .none | .returned => none

/-- `main` has left the program, and the threads with it. -/
def MainPc.Ended (p : MainPc) : Prop := p = .exited ∨ p = .failed

instance (p : MainPc) : Decidable p.Ended := inferInstanceAs (Decidable (_ ∨ _))

/-- One step. -/
def step (n : ℕ) (s : State) : Label → Option State
  | .main created => mainStep n created s
  | .thread k => if s.main.Ended then none else threadStep k s
  | .wake => if s.main = .waiting then some { s with main := .woken } else none

/-- The program, with `n` arguments. -/
def machine (n : ℕ) : Machine State Label where
  init s := s = initial n
  step := step n

/-! ## The invariant -/

/-- Who is inside a section of the mutex: the threads by where they are, `main` when it holds it. -/
def State.inside (s : State) : Tid → Prop
  | .main => s.mutex = some .main
  | .thread k => (s.thread k).Critical

/-- `main` has not come to the loop that joins. -/
def MainPc.BeforeJoin (p : MainPc) : Prop :=
  p ≠ .joinTest ∧ p ≠ .join ∧ p ≠ .unlock ∧ p ≠ .exited

/-- What holds at each step of `main`. -/
def Outline (n : ℕ) (s : State) : MainPc → Prop
  | .assign | .create => ∀ k, s.i ≤ k → s.thread k = .none
  | .next => ∀ k, s.i < k → s.thread k = .none
  | .lock | .waiting | .woken => s.numLive = n ∧ 0 < n
  | .whileNone => (s.numLive = n ∧ 0 < n) ∧ s.mutex = some .main
  -- the loop that joins is reached without threads only
  | .joinTest | .unlock | .exited => n = 0
  | .join => False
  | .failed => True

/-- What holds in every state reached. -/
structure Inv (n : ℕ) (s : State) : Prop where
  owned : Mutex.Owned s.mutex s.inside
  outline : Outline n s s.main

theorem inv_initial (n : ℕ) : Inv n (initial n) where
  owned := by
    intro tid
    rcases tid with _ | k
    · exact Iff.rfl
    · refine iff_of_false ?_ fun h => nomatch h
      rintro (h | h | h) <;> cases h
  outline := fun _ _ => rfl

variable {n k : ℕ} {s t : State}

/-! ### Steps of `main` -/

/-- `main` locks the mutex. -/
theorem Inv.owned_lock (h : Inv n s) (hfree : s.mutex = none) :
    Mutex.Owned (some .main) ({ s with mutex := some .main } : State).inside := by
  have howned := h.owned
  rw [hfree] at howned
  refine howned.lock rfl fun tid htid => ?_
  rcases tid with _ | k
  · exact absurd rfl htid
  · exact Iff.rfl

/-- `main` unlocks the mutex. -/
theorem Inv.owned_unlock (h : Inv n s) (hmain : s.mutex = some .main) :
    Mutex.Owned none ({ s with mutex := none } : State).inside := by
  refine h.owned.unlock (t := .main) hmain (fun hno => nomatch hno) fun tid htid => ?_
  rcases tid with _ | k
  · exact absurd rfl htid
  · exact Iff.rfl

/-- A created thread is outside of its section. -/
theorem Inv.owned_create (h : Inv n s) (hnew : s.thread s.i = .none) :
    Mutex.Owned s.mutex (create s).inside := by
  refine h.owned.congr fun tid => ?_
  rcases tid with _ | k
  · exact Iff.rfl
  · show (Function.update s.thread s.i .start k).Critical ↔ (s.thread k).Critical
    by_cases hk : k = s.i
    · rw [hk, Function.update_self, hnew]
      simp [ThreadPc.Critical]
    · rw [Function.update_of_ne hk]

/-- `main` comes to the test of `numLive`. -/
theorem inv_whileLive (howned : Mutex.Owned s.mutex s.inside) (hlive : s.numLive = n) :
    Inv n (whileLive s) := by
  unfold whileLive
  split
  · exact ⟨howned, hlive, by omega⟩
  · refine ⟨howned, ?_⟩
    show n = 0
    omega

/-- What a step of `main` can do in a state reached.  The loop that joins is reached without threads
only, and finds its end at once. -/
inductive MainEffect (n : ℕ) (s : State) : State → Prop
  | assign : s.main = .assign → (∀ k, s.i ≤ k → s.thread k = .none) →
      MainEffect n s { s with threads := setStatus s.threads s.i .alive, main := .create }
  | live : s.main = .assign → ¬ s.i < n → MainEffect n s (whileLive { s with numLive := n })
  | create : s.main = .create → (∀ k, s.i ≤ k → s.thread k = .none) → MainEffect n s (create s)
  | failed : s.main = .create → MainEffect n s { s with main := .failed }
  | next : s.main = .next → (∀ k, s.i < k → s.thread k = .none) →
      MainEffect n s { s with i := s.i + 1, main := .assign }
  | lock : s.main = .lock ∨ s.main = .woken → s.mutex = none → s.numLive = n ∧ 0 < n →
      MainEffect n s { s with mutex := some .main, main := .whileNone }
  | wait : s.main = .whileNone → s.mutex = some .main → s.numNoJoined = 0 →
      s.numLive = n ∧ 0 < n → MainEffect n s { s with mutex := none, main := .waiting }
  | again : s.main = .whileNone → s.mutex = some .main → s.numNoJoined ≠ 0 →
      s.numLive = n ∧ 0 < n → MainEffect n s { s with main := .lock }
  | joinEnd : s.main = .joinTest → n = 0 → MainEffect n s { s with main := .unlock }
  | unlock : s.main = .unlock → n = 0 → s.mutex = some .main →
      MainEffect n s { s with mutex := none, main := .exited }
  | leave : s.main = .unlock → n = 0 → s.mutex ≠ some .main →
      MainEffect n s { s with main := .exited }

theorem Inv.mainEffect {created : Bool} (h : Inv n s) (hs : mainStep n created s = some t) :
    MainEffect n s t := by
  have hout := h.outline
  unfold mainStep at hs
  split at hs
  all_goals rename_i hpc; rw [hpc] at hout
  · split at hs
    · exact Option.some.inj hs ▸ .assign hpc hout
    · rename_i hge
      exact Option.some.inj hs ▸ .live hpc hge
  · rcases created with _ | _
    · exact Option.some.inj hs ▸ .failed hpc
    · exact Option.some.inj hs ▸ .create hpc hout
  · exact Option.some.inj hs ▸ .next hpc hout
  · obtain ⟨hfree, ht⟩ := Option.ite_none_right_eq_some.mp hs
    exact Option.some.inj ht ▸ .lock (Or.inl hpc) hfree hout
  · obtain ⟨hlive, hmain⟩ := hout
    split at hs
    · rename_i hzero
      exact Option.some.inj hs ▸ .wait hpc hmain hzero hlive
    · rename_i hne
      have hlock : whileLive s = { s with main := .lock } := if_pos (by omega)
      rw [hlock] at hs
      exact Option.some.inj hs ▸ .again hpc hmain hne hlive
  · cases hs
  · obtain ⟨hfree, ht⟩ := Option.ite_none_right_eq_some.mp hs
    exact Option.some.inj ht ▸ .lock (Or.inr hpc) hfree hout
  · have hzero : n = 0 := hout
    have hunlock : joinTest n s = { s with main := .unlock } := if_neg (by omega)
    rw [hunlock] at hs
    exact Option.some.inj hs ▸ .joinEnd hpc hzero
  · exact hout.elim
  · by_cases hmain : s.mutex = some .main
    · rw [if_pos hmain] at hs
      exact Option.some.inj hs ▸ .unlock hpc hout hmain
    · rw [if_neg hmain] at hs
      exact Option.some.inj hs ▸ .leave hpc hout hmain
  · cases hs
  · cases hs

theorem Inv.of_mainEffect (h : Inv n s) (hs : MainEffect n s t) : Inv n t := by
  cases hs with
  | assign hpc hnew => exact ⟨h.owned, hnew⟩
  | live hpc hge => exact inv_whileLive h.owned rfl
  | create hpc hnew =>
    refine ⟨h.owned_create (hnew s.i (Nat.le_refl _)), fun k hk => ?_⟩
    have hne : k ≠ s.i := Nat.ne_of_gt hk
    show Function.update s.thread s.i .start k = .none
    rw [Function.update_of_ne hne]
    exact hnew k (Nat.le_of_lt hk)
  | failed hpc => exact ⟨h.owned, trivial⟩
  | next hpc hnew => exact ⟨h.owned, hnew⟩
  | lock hpc hfree hlive => exact ⟨h.owned_lock hfree, hlive, rfl⟩
  | wait hpc hmain hzero hlive => exact ⟨h.owned_unlock hmain, hlive⟩
  | again hpc hmain hne hlive => exact ⟨h.owned, hlive⟩
  | joinEnd hpc hzero => exact ⟨h.owned, hzero⟩
  | unlock hpc hzero hmain => exact ⟨h.owned_unlock hmain, hzero⟩
  | leave hpc hzero hmain => exact ⟨h.owned, hzero⟩

/-! ### Steps of the threads -/

/-- What holds of `main` when another thread has moved and the mutex was not `main`'s. -/
theorem Outline.of_thread {p : MainPc} {q : ThreadPc} (h : Outline n s p)
    (hk : s.thread k ≠ .none) (hthread : t.thread = Function.update s.thread k q)
    (hi : t.i = s.i) (hlive : t.numLive = s.numLive)
    (hmutex : s.mutex = some .main → t.mutex = some .main) : Outline n t p := by
  have hnone : ∀ j, s.thread j = .none → t.thread j = .none := by
    intro j hj
    have hne : j ≠ k := fun hjk => hk (hjk ▸ hj)
    rw [hthread, Function.update_of_ne hne, hj]
  cases p with
  | assign => exact fun j hj => hnone j (h j (hi ▸ hj))
  | create => exact fun j hj => hnone j (h j (hi ▸ hj))
  | next => exact fun j hj => hnone j (h j (hi ▸ hj))
  | lock => exact ⟨hlive.trans h.1, h.2⟩
  | waiting => exact ⟨hlive.trans h.1, h.2⟩
  | woken => exact ⟨hlive.trans h.1, h.2⟩
  | whileNone => exact ⟨⟨hlive.trans h.1.1, h.1.2⟩, hmutex h.2⟩
  | joinTest => exact h
  | unlock => exact h
  | exited => exact h
  | join => exact h
  | failed => trivial

/-- A thread moves on without entering or leaving its section. -/
theorem Inv.owned_thread {q : ThreadPc} (h : Inv n s)
    (hq : q.Critical ↔ (s.thread k).Critical) (hmutex : t.mutex = s.mutex)
    (hthread : t.thread = Function.update s.thread k q) : Mutex.Owned t.mutex t.inside := by
  rw [hmutex]
  refine h.owned.congr fun tid => ?_
  rcases tid with _ | j
  · show t.mutex = some .main ↔ s.mutex = some .main
    rw [hmutex]
  · show (t.thread j).Critical ↔ (s.thread j).Critical
    rw [hthread]
    by_cases hj : j = k
    · rw [hj, Function.update_self]
      exact hq
    · rw [Function.update_of_ne hj]

/-- What a step of thread `k` can do. -/
inductive ThreadEffect (k : ℕ) (s : State) : State → Prop
  | start : s.thread k = .start → ThreadEffect k s { s with
      id := Function.update s.id k (some s.i)
      thread := Function.update s.thread k .sleep }
  | sleep : s.thread k = .sleep →
      ThreadEffect k s { s with thread := Function.update s.thread k .lock }
  | lock : s.thread k = .lock → s.mutex = none → ThreadEffect k s { s with
      mutex := some (.thread k)
      thread := Function.update s.thread k .count }
  | count : s.thread k = .count → ThreadEffect k s { s with
      numNoJoined := s.numNoJoined + 1
      thread := Function.update s.thread k .mark }
  | mark : s.thread k = .mark → ThreadEffect k s { s with
      threads := match s.id k with
        | some id => setStatus s.threads id .terminated
        | none => s.threads
      thread := Function.update s.thread k .unlock }
  | unlock : s.thread k = .unlock → ThreadEffect k s { s with
      mutex := none
      thread := Function.update s.thread k .signal }
  | signal : s.thread k = .signal → ThreadEffect k s { s with
      main := if s.main = .waiting then .woken else s.main
      thread := Function.update s.thread k .returned }

theorem threadEffect (hs : threadStep k s = some t) : ThreadEffect k s t := by
  unfold threadStep at hs
  split at hs
  all_goals rename_i hpc
  · exact Option.some.inj hs ▸ .start hpc
  · exact Option.some.inj hs ▸ .sleep hpc
  · obtain ⟨hfree, ht⟩ := Option.ite_none_right_eq_some.mp hs
    exact Option.some.inj ht ▸ .lock hpc hfree
  · exact Option.some.inj hs ▸ .count hpc
  · exact Option.some.inj hs ▸ .mark hpc
  · exact Option.some.inj hs ▸ .unlock hpc
  · exact Option.some.inj hs ▸ .signal hpc
  · cases hs
  · cases hs

/-- A thread locks the mutex. -/
theorem Inv.owned_thread_lock (h : Inv n s) (hfree : s.mutex = none) :
    Mutex.Owned (some (.thread k)) ({ s with
      mutex := some (.thread k), thread := Function.update s.thread k .count } : State).inside := by
  have howned := h.owned
  rw [hfree] at howned
  refine howned.lock (t := .thread k) ?_ fun tid htid => ?_
  · show (Function.update s.thread k .count k).Critical
    rw [Function.update_self]
    exact Or.inl rfl
  · rcases tid with _ | j
    · exact iff_of_false (fun hno => nomatch hno) fun hno => by
        rw [State.inside, hfree] at hno
        cases hno
    · have hj : j ≠ k := fun hjk => htid (congrArg Tid.thread hjk)
      show (Function.update s.thread k .count j).Critical ↔ (s.thread j).Critical
      rw [Function.update_of_ne hj]

/-- A thread unlocks the mutex. -/
theorem Inv.owned_thread_unlock (h : Inv n s) (hpc : s.thread k = .unlock) :
    Mutex.Owned none ({ s with
      mutex := none, thread := Function.update s.thread k .signal } : State).inside := by
  have hcrit : (s.thread k).Critical := Or.inr (Or.inr hpc)
  have hmine : s.mutex = some (.thread k) := (h.owned (.thread k)).mp hcrit
  refine h.owned.unlock (t := .thread k) hcrit ?_ fun tid htid => ?_
  · show ¬ (Function.update s.thread k .signal k).Critical
    rw [Function.update_self]
    rintro (h | h | h) <;> cases h
  · rcases tid with _ | j
    · exact iff_of_false (fun hno => nomatch hno) fun hno => by
        rw [State.inside, hmine] at hno
        cases hno
    · have hj : j ≠ k := fun hjk => htid (congrArg Tid.thread hjk)
      show (Function.update s.thread k .signal j).Critical ↔ (s.thread j).Critical
      rw [Function.update_of_ne hj]

theorem Inv.of_threadEffect (h : Inv n s) (hs : ThreadEffect k s t) : Inv n t := by
  cases hs with
  | start hpc =>
    exact ⟨h.owned_thread (by simp [hpc, ThreadPc.Critical]) rfl rfl,
      h.outline.of_thread (by simp [hpc]) rfl rfl rfl id⟩
  | sleep hpc =>
    exact ⟨h.owned_thread (by simp [hpc, ThreadPc.Critical]) rfl rfl,
      h.outline.of_thread (by simp [hpc]) rfl rfl rfl id⟩
  | lock hpc hfree =>
    refine ⟨h.owned_thread_lock hfree,
      h.outline.of_thread (by simp [hpc]) rfl rfl rfl fun hmain => ?_⟩
    rw [hfree] at hmain
    cases hmain
  | count hpc =>
    exact ⟨h.owned_thread (by simp [hpc, ThreadPc.Critical]) rfl rfl,
      h.outline.of_thread (by simp [hpc]) rfl rfl rfl id⟩
  | mark hpc =>
    exact ⟨h.owned_thread (by simp [hpc, ThreadPc.Critical]) rfl rfl,
      h.outline.of_thread (by simp [hpc]) rfl rfl rfl id⟩
  | unlock hpc =>
    refine ⟨h.owned_thread_unlock hpc,
      h.outline.of_thread (by simp [hpc]) rfl rfl rfl fun hmain => ?_⟩
    rw [(h.owned (.thread k)).mp (Or.inr (Or.inr hpc))] at hmain
    cases hmain
  | signal hpc =>
    refine ⟨h.owned_thread (by simp [hpc, ThreadPc.Critical]) rfl rfl, ?_⟩
    show Outline n _ (if s.main = .waiting then .woken else s.main)
    have hout := h.outline
    split
    · rename_i hmain
      rw [hmain] at hout
      exact Outline.of_thread (p := .woken) hout (by simp [hpc]) rfl rfl rfl id
    · exact hout.of_thread (by simp [hpc]) rfl rfl rfl id

theorem inv_step (s : State) (a : Label) (t : State) (h : Inv n s)
    (hs : (machine n).step s a = some t) : Inv n t := by
  rcases a with created | k | _
  · exact h.of_mainEffect (h.mainEffect hs)
  · exact h.of_threadEffect (threadEffect (Option.ite_none_left_eq_some.mp hs).2)
  · obtain ⟨hpc, ht⟩ := Option.ite_none_right_eq_some.mp hs
    have hout := h.outline
    rw [hpc] at hout
    exact Option.some.inj ht ▸ ⟨h.owned, hout⟩

end ThreadMultijoin
end CodeStrudy
