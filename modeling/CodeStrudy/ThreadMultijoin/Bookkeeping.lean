import CodeStrudy.ThreadMultijoin.Program
import Mathlib.Tactic.Ring

/-!
# The count of the threads that have ended

In `routines/30.4.thread_multijoin` a thread that ends adds one to `numNoJoined` and marks an entry
of `threads`, the one whose index it has read in `main`'s loop variable.  `main` may have moved on
by then, so the index may be another thread's, or past the array, or that of an entry that `main` is
still to initialise.

## What is proved

`bookkept_iff`: with the mutex free, the count is the number of marked entries and every index lies
in the array exactly if every thread has read an index in the array, every mark was set on an
unmarked entry, and `main` has initialised no marked one.
-/

namespace CodeStrudy
namespace ThreadMultijoin

open Foundation

/-- The entry is marked `TS_TERMINATED`. -/
def ThreadInfo.isTerminated (th : ThreadInfo) : Bool := th.status = .terminated

/-- How many entries are marked. -/
def State.terminated (s : State) : ℕ := s.threads.countP ThreadInfo.isTerminated

/-- Every index that a thread has read lies in the array. -/
def InRange (s : State) : Prop := ∀ k v, s.id k = some v → v < s.threads.length

/-- The count is right and the indices are good. -/
structure Bookkept (s : State) : Prop where
  count : s.numNoJoined = s.terminated
  ids : InRange s

/-- There is an entry with this index, and it is not marked. -/
def Unmarked (s : State) (v : ℕ) : Prop := ∃ th, s.threads[v]? = some th ∧ th.isTerminated = false

/-- A thread reads an index in the array. -/
def Reads (s : State) : Label → Prop
  | .thread k => s.thread k = .start → s.i < s.threads.length
  | .main _ | .wake => True

/-- A thread marks an entry that is not marked, and `main` initialises one that is not. -/
def Marks (s : State) : Label → Prop
  | .main _ => s.main = .assign → s.i < s.threads.length → Unmarked s s.i
  | .thread k => s.thread k = .mark → ∃ v, s.id k = some v ∧ Unmarked s v
  | .wake => True

/-- The steps that keep the books right. -/
def Apart (s : State) (a : Label) : Prop := Reads s a ∧ Marks s a

/-! ## Marks -/

variable {n k : ℕ} {s t : State}

theorem countP_modify {α : Type*} {p : α → Bool} {f : α → α} :
    ∀ {l : List α} {i : ℕ} {a : α}, l[i]? = some a →
      (l.modify i f).countP p + (p a).toNat = l.countP p + (p (f a)).toNat
  | [], _, _, h => nomatch h
  | b :: l, 0, a, h => by
    obtain rfl := Option.some.inj h
    rw [List.modify_zero_cons, List.countP_cons, List.countP_cons]
    cases p b <;> cases p (f b) <;> simp
  | b :: l, i + 1, a, h => by
    have ih := countP_modify (p := p) (f := f) (l := l) h
    rw [List.modify_succ_cons, List.countP_cons, List.countP_cons]
    omega

/-- What is modified without changing `p` counts as before. -/
theorem countP_modify_of_eq {α : Type*} {p : α → Bool} {f : α → α} (hf : ∀ a, p (f a) = p a)
    (l : List α) (i : ℕ) : (l.modify i f).countP p = l.countP p := by
  cases hi : l[i]? with
  | none => rw [List.modify_eq_self (List.getElem?_eq_none_iff.mp hi)]
  | some a =>
    have h := countP_modify (p := p) (f := f) hi
    rw [hf a] at h
    omega

/-- An unmarked entry is marked. -/
theorem terminated_mark {v : ℕ} (h : Unmarked s v) :
    (setStatus s.threads v .terminated).countP ThreadInfo.isTerminated = s.terminated + 1 := by
  obtain ⟨th, hth, hno⟩ := h
  have hmod := countP_modify (p := ThreadInfo.isTerminated)
    (f := fun th => { th with status := .terminated }) hth
  rw [hno] at hmod
  exact hmod

/-- A mark on a marked entry, or outside of the array, changes nothing. -/
theorem terminated_mark_of_not {v : ℕ} (h : ¬ Unmarked s v) :
    (setStatus s.threads v .terminated).countP ThreadInfo.isTerminated = s.terminated := by
  cases hv : s.threads[v]? with
  | none => rw [setStatus, List.modify_eq_self (List.getElem?_eq_none_iff.mp hv)]; rfl
  | some th =>
    have hyes : th.isTerminated = true := by
      by_contra hno
      exact h ⟨th, hv, eq_false_of_ne_true hno⟩
    have hmod := countP_modify (p := ThreadInfo.isTerminated)
      (f := fun th => { th with status := .terminated }) hv
    rw [hyes] at hmod
    exact Nat.add_right_cancel hmod

/-- Initialising an unmarked entry changes nothing. -/
theorem terminated_assign {v : ℕ} (h : Unmarked s v) :
    (setStatus s.threads v .alive).countP ThreadInfo.isTerminated = s.terminated := by
  obtain ⟨th, hth, hno⟩ := h
  have hmod := countP_modify (p := ThreadInfo.isTerminated)
    (f := fun th => { th with status := .alive }) hth
  rw [hno] at hmod
  exact hmod

/-- Initialising a marked entry takes its mark away. -/
theorem terminated_assign_of_not {v : ℕ} (hv : v < s.threads.length) (h : ¬ Unmarked s v) :
    (setStatus s.threads v .alive).countP ThreadInfo.isTerminated + 1 = s.terminated := by
  have hth := List.getElem?_eq_getElem hv
  have hyes : s.threads[v].isTerminated = true := by
    by_contra hno
    exact h ⟨_, hth, eq_false_of_ne_true hno⟩
  have hmod := countP_modify (p := ThreadInfo.isTerminated)
    (f := fun th => { th with status := .alive }) hth
  rw [hyes] at hmod
  exact hmod

/-! ## The surplus of the count over the marks -/

/-- One if the holder of the mutex has counted itself and not set its mark. -/
def State.marking (s : State) : ℕ :=
  match s.mutex with
  | some (.thread k) => if s.thread k = .mark then 1 else 0
  | _ => 0

/-- How far the count is above the number of marks, but for the mark that is to come. -/
def State.surplus (s : State) : ℤ := s.numNoJoined - s.terminated - s.marking

theorem marking_of_free (h : s.mutex = none) : s.marking = 0 := by
  rw [State.marking, h]

theorem marking_of_main (h : s.mutex = some .main) : s.marking = 0 := by
  rw [State.marking, h]

theorem marking_of_thread (h : s.mutex = some (.thread k)) :
    s.marking = if s.thread k = .mark then 1 else 0 := by
  rw [State.marking, h]

theorem marking_of_ne (h : s.mutex = some (.thread k)) (hk : s.thread k ≠ .mark) :
    s.marking = 0 := by
  rw [marking_of_thread h, if_neg hk]

theorem marking_congr (hmutex : t.mutex = s.mutex)
    (hthread : ∀ j, t.thread j = .mark ↔ s.thread j = .mark) : t.marking = s.marking := by
  unfold State.marking
  rw [hmutex]
  split
  · rename_i j _
    exact if_congr (hthread j) rfl rfl
  · rfl

/-- A thread that moves on, neither to its mark nor from it, changes no mark that is to come. -/
theorem marking_thread {q : ThreadPc} (hmutex : t.mutex = s.mutex)
    (hthread : t.thread = Function.update s.thread k q) (hk : s.thread k ≠ .mark)
    (hq : q ≠ .mark) : t.marking = s.marking := by
  refine marking_congr hmutex fun j => ?_
  rw [hthread]
  by_cases hj : j = k
  · rw [hj, Function.update_self]
    exact iff_of_false hq hk
  · rw [Function.update_of_ne hj]

/-- A step that leaves the three counts alone leaves the surplus alone. -/
theorem surplus_congr (hcount : t.numNoJoined = s.numNoJoined)
    (hterm : t.terminated = s.terminated) (hmarking : t.marking = s.marking) :
    t.surplus = s.surplus := by
  rw [State.surplus, State.surplus, hcount, hterm, hmarking]

/-! ## Steps -/

/-- What a step does to the surplus. -/
def Adds (s : State) (a : Label) (t : State) : Prop :=
  (Marks s a → t.surplus = s.surplus) ∧ (¬ Marks s a → t.surplus = s.surplus + 1)

theorem adds_of_eq {a : Label} (hmarks : Marks s a) (h : t.surplus = s.surplus) : Adds s a t :=
  ⟨fun _ => h, fun hno => absurd hmarks hno⟩

/-- `main` initialises an entry. -/
theorem adds_assign {created : Bool} (hpc : s.main = .assign) :
    Adds s (.main created)
      { s with threads := setStatus s.threads s.i .alive, main := .create } := by
  constructor
  · intro hmarks
    by_cases hlt : s.i < s.threads.length
    · exact surplus_congr rfl (terminated_assign (hmarks hpc hlt)) rfl
    · refine surplus_congr rfl ?_ rfl
      show (setStatus s.threads s.i .alive).countP ThreadInfo.isTerminated = s.terminated
      rw [setStatus, List.modify_eq_self (not_lt.mp hlt)]
      rfl
  · intro hno
    obtain ⟨-, hno⟩ := Classical.not_imp.mp hno
    obtain ⟨hlt, hno⟩ := Classical.not_imp.mp hno
    have hterm := terminated_assign_of_not hlt hno
    show s.numNoJoined - ((setStatus s.threads s.i .alive).countP ThreadInfo.isTerminated : ℕ) -
      (s.marking : ℤ) = s.numNoJoined - s.terminated - s.marking + 1
    omega

/-- `main` creates a thread. -/
theorem surplus_create (hnew : s.thread s.i = .none) : (create s).surplus = s.surplus := by
  refine surplus_congr rfl ?_ (marking_thread rfl rfl (by simp [hnew]) (by decide))
  exact countP_modify_of_eq (f := fun th : ThreadInfo => { th with id := some s.i })
    (fun _ => rfl) _ _

/-- `main` comes to the test of `numLive`. -/
theorem surplus_whileLive (s : State) :
    (whileLive s).surplus = s.surplus ∧ (whileLive s).id = s.id ∧
      (whileLive s).threads = s.threads := by
  unfold whileLive
  split
  · exact ⟨rfl, rfl, rfl⟩
  · exact ⟨rfl, rfl, rfl⟩

/-- A step of `main` that only moves it, and may take or give back the mutex. -/
theorem adds_move {created : Bool} (hpc : s.main ≠ .assign) (hcount : t.numNoJoined = s.numNoJoined)
    (hthreads : t.threads = s.threads) (hmarking : t.marking = s.marking) :
    Adds s (.main created) t :=
  adds_of_eq (fun h => absurd h hpc)
    (surplus_congr hcount (congrArg (List.countP ThreadInfo.isTerminated) hthreads) hmarking)

theorem adds_mainEffect {created : Bool} (hlen : s.threads.length = n) (hs : MainEffect n s t) :
    Adds s (.main created) t ∧ t.id = s.id ∧ t.threads.length = s.threads.length := by
  cases hs with
  | assign hpc hnew => exact ⟨adds_assign hpc, rfl, List.length_modify ..⟩
  | live hpc hge =>
    obtain ⟨hsurplus, hid, hthreads⟩ := surplus_whileLive { s with numLive := (n : ℤ) }
    refine ⟨adds_of_eq (fun _ hlt => ?_) hsurplus, hid, congrArg List.length hthreads⟩
    exact absurd (hlen ▸ hlt) hge
  | create hpc hnew =>
    refine ⟨adds_of_eq (fun h => absurd (hpc.symm.trans h) (by decide)) ?_, rfl,
      List.length_modify ..⟩
    exact surplus_create (hnew s.i le_rfl)
  | failed hpc => exact ⟨adds_move (by simp [hpc]) rfl rfl rfl, rfl, rfl⟩
  | next hpc hnew => exact ⟨adds_move (by simp [hpc]) rfl rfl rfl, rfl, rfl⟩
  | lock hpc hfree hlive =>
    have hne : s.main ≠ .assign := by
      rcases hpc with hpc | hpc
      · simp [hpc]
      · simp [hpc]
    exact ⟨adds_move hne rfl rfl (marking_of_free hfree).symm, rfl, rfl⟩
  | wait hpc hmain hzero hlive =>
    exact ⟨adds_move (by simp [hpc]) rfl rfl (marking_of_main hmain).symm, rfl, rfl⟩
  | again hpc hmain hne hlive => exact ⟨adds_move (by simp [hpc]) rfl rfl rfl, rfl, rfl⟩
  | joinEnd hpc hzero => exact ⟨adds_move (by simp [hpc]) rfl rfl rfl, rfl, rfl⟩
  | unlock hpc hzero hmain =>
    exact ⟨adds_move (by simp [hpc]) rfl rfl (marking_of_main hmain).symm, rfl, rfl⟩
  | leave hpc hzero hmain => exact ⟨adds_move (by simp [hpc]) rfl rfl rfl, rfl, rfl⟩

/-- A step of a thread away from its mark. -/
theorem marks_of_ne (hpc : s.thread k ≠ .mark) : Marks s (.thread k) :=
  fun h => absurd h hpc

/-- A thread sets its mark. -/
theorem adds_mark (hI : Inv n s) (hpc : s.thread k = .mark) :
    Adds s (.thread k) { s with
      threads := match s.id k with
        | some id => setStatus s.threads id .terminated
        | none => s.threads
      thread := Function.update s.thread k .unlock } := by
  have hmutex : s.mutex = some (.thread k) := (hI.owned (.thread k)).mp (Or.inr (Or.inl hpc))
  have hbefore : s.marking = 1 := by rw [marking_of_thread hmutex, if_pos hpc]
  have hafter : ∀ threads : List ThreadInfo, State.marking { s with
      threads := threads, thread := Function.update s.thread k .unlock } = 0 := by
    intro threads
    refine marking_of_ne (k := k) hmutex ?_
    show Function.update s.thread k .unlock k ≠ .mark
    rw [Function.update_self]
    decide
  unfold Adds State.surplus
  rw [hbefore, hafter]
  cases hid : s.id k with
  | none =>
    refine ⟨fun hmarks => ?_, fun _ => ?_⟩
    · obtain ⟨v, hv, -⟩ := hmarks hpc
      rw [hid] at hv
      cases hv
    · show s.numNoJoined - (s.terminated : ℤ) - ((0 : ℕ) : ℤ) = _
      omega
  | some v =>
    refine ⟨fun hmarks => ?_, fun hno => ?_⟩
    · obtain ⟨v', hv', hun⟩ := hmarks hpc
      obtain rfl : v = v' := Option.some.inj (hid.symm.trans hv')
      have hterm := terminated_mark hun
      show s.numNoJoined - ((setStatus s.threads v .terminated).countP
        ThreadInfo.isTerminated : ℕ) - ((0 : ℕ) : ℤ) = _
      omega
    · have hterm := terminated_mark_of_not (s := s) (v := v)
        fun hun => hno fun _ => ⟨v, hid, hun⟩
      show s.numNoJoined - ((setStatus s.threads v .terminated).countP
        ThreadInfo.isTerminated : ℕ) - ((0 : ℕ) : ℤ) = _
      omega

/-- A thread counts itself. -/
theorem adds_count (hI : Inv n s) (hpc : s.thread k = .count) :
    Adds s (.thread k) { s with
      numNoJoined := s.numNoJoined + 1
      thread := Function.update s.thread k .mark } := by
  have hmutex : s.mutex = some (.thread k) := (hI.owned (.thread k)).mp (Or.inl hpc)
  have hbefore : s.marking = 0 := marking_of_ne hmutex (by simp [hpc])
  have hafter : State.marking { s with
      numNoJoined := s.numNoJoined + 1, thread := Function.update s.thread k .mark } = 1 := by
    rw [State.marking]
    simp only [hmutex, Function.update_self, if_true]
  refine adds_of_eq (marks_of_ne (by simp [hpc])) ?_
  unfold State.surplus
  rw [hbefore, hafter]
  show s.numNoJoined + 1 - (s.terminated : ℤ) - ((1 : ℕ) : ℤ) = _
  omega

/-- A step of a thread that only moves it. -/
theorem adds_thread {q : ThreadPc} (hk : s.thread k ≠ .mark) (hq : q ≠ .mark)
    (hcount : t.numNoJoined = s.numNoJoined) (hthreads : t.threads = s.threads)
    (hmutex : t.mutex = s.mutex) (hthread : t.thread = Function.update s.thread k q) :
    Adds s (.thread k) t :=
  adds_of_eq (marks_of_ne hk) (surplus_congr hcount
    (congrArg (List.countP ThreadInfo.isTerminated) hthreads)
    (marking_thread hmutex hthread hk hq))

theorem adds_threadEffect (hI : Inv n s) (hs : ThreadEffect k s t) : Adds s (.thread k) t := by
  cases hs with
  | start hpc => exact adds_thread (q := .sleep) (by simp [hpc]) (by decide) rfl rfl rfl rfl
  | sleep hpc => exact adds_thread (q := .lock) (by simp [hpc]) (by decide) rfl rfl rfl rfl
  | lock hpc hfree =>
    refine adds_of_eq (marks_of_ne (by simp [hpc])) (surplus_congr rfl rfl ?_)
    rw [marking_of_free hfree]
    refine marking_of_ne (k := k) rfl ?_
    show Function.update s.thread k .count k ≠ .mark
    rw [Function.update_self]
    decide
  | count hpc => exact adds_count hI hpc
  | mark hpc => exact adds_mark hI hpc
  | unlock hpc =>
    have hmine : s.mutex = some (.thread k) := (hI.owned (.thread k)).mp (Or.inr (Or.inr hpc))
    refine adds_of_eq (marks_of_ne (by simp [hpc])) (surplus_congr rfl rfl ?_)
    rw [marking_of_ne hmine (by simp [hpc])]
    exact marking_of_free rfl
  | signal hpc => exact adds_thread (q := .returned) (by simp [hpc]) (by decide) rfl rfl rfl rfl

/-! ## Indices -/

/-- A step of a thread moves it past its start, and no other thread. -/
theorem thread_threadEffect (hs : ThreadEffect k s t) :
    t.thread k ≠ .none ∧ t.thread k ≠ .start ∧ ∀ j, j ≠ k → t.thread j = s.thread j := by
  have hupdate : ∀ q : ThreadPc, q ≠ .none → q ≠ .start →
      Function.update s.thread k q k ≠ .none ∧ Function.update s.thread k q k ≠ .start ∧
        ∀ j, j ≠ k → Function.update s.thread k q j = s.thread j := by
    intro q hnone hstart
    rw [Function.update_self]
    exact ⟨hnone, hstart, fun j hj => Function.update_of_ne hj _ _⟩
  cases hs with
  | start hpc => exact hupdate .sleep (by decide) (by decide)
  | sleep hpc => exact hupdate .lock (by decide) (by decide)
  | lock hpc hfree => exact hupdate .count (by decide) (by decide)
  | count hpc => exact hupdate .mark (by decide) (by decide)
  | mark hpc => exact hupdate .unlock (by decide) (by decide)
  | unlock hpc => exact hupdate .signal (by decide) (by decide)
  | signal hpc => exact hupdate .returned (by decide) (by decide)

/-- A thread reads its index at its start and never again. -/
theorem id_threadEffect (hs : ThreadEffect k s t) :
    s.thread k = .start ∧ t.id = Function.update s.id k (some s.i) ∨
      s.thread k ≠ .start ∧ t.id = s.id := by
  cases hs with
  | start hpc => exact Or.inl ⟨hpc, rfl⟩
  | sleep hpc => exact Or.inr ⟨by simp [hpc], rfl⟩
  | lock hpc hfree => exact Or.inr ⟨by simp [hpc], rfl⟩
  | count hpc => exact Or.inr ⟨by simp [hpc], rfl⟩
  | mark hpc => exact Or.inr ⟨by simp [hpc], rfl⟩
  | unlock hpc => exact Or.inr ⟨by simp [hpc], rfl⟩
  | signal hpc => exact Or.inr ⟨by simp [hpc], rfl⟩

theorem length_threadEffect (hs : ThreadEffect k s t) : t.threads.length = s.threads.length := by
  cases hs with
  | mark hpc =>
    show List.length (match s.id k with
      | some id => setStatus s.threads id .terminated
      | none => s.threads) = s.threads.length
    rcases s.id k with _ | v
    · rfl
    · exact List.length_modify ..
  | _ => rfl

/-- `main` starts threads that have not been started, and no others. -/
theorem thread_mainEffect (hs : MainEffect n s t) (j : ℕ) :
    t.thread j = s.thread j ∨ s.thread j = .none := by
  cases hs with
  | live hpc hge =>
    unfold whileLive
    split
    · exact Or.inl rfl
    · exact Or.inl rfl
  | create hpc hnew =>
    by_cases hj : j = s.i
    · exact Or.inr (hj ▸ hnew s.i le_rfl)
    · exact Or.inl (Function.update_of_ne hj _ _)
  | _ => exact Or.inl rfl

/-- What holds in every state reached, whether the books are right or not. -/
structure Books (n : ℕ) (s : State) : Prop where
  inv : Inv n s
  length : s.threads.length = n
  /-- A thread that has not started has read nothing. -/
  fresh : ∀ k, s.thread k = .none ∨ s.thread k = .start → s.id k = none
  surplus : 0 ≤ s.surplus

theorem books_initial (n : ℕ) : Books n (initial n) where
  inv := inv_initial n
  length := List.length_replicate
  fresh := fun _ _ => rfl
  surplus := by
    have hcount : (List.replicate n (⟨none, .alive⟩ : ThreadInfo)).countP
        ThreadInfo.isTerminated = 0 := by
      rw [List.countP_replicate]
      rfl
    show 0 ≤ (0 : ℤ) - ((List.replicate n (⟨none, .alive⟩ : ThreadInfo)).countP
      ThreadInfo.isTerminated : ℕ) - ((0 : ℕ) : ℤ)
    rw [hcount]
    decide

/-- A read puts an index among those read. -/
theorem inRange_update {v : ℕ} (hlen : t.threads.length = s.threads.length)
    (hfresh : s.id k = none) (hid : t.id = Function.update s.id k (some v)) :
    InRange t ↔ InRange s ∧ v < s.threads.length := by
  unfold InRange
  rw [hid, hlen]
  constructor
  · intro h
    refine ⟨fun j w hj => h j w ?_, h k v (Function.update_self ..)⟩
    have hne : j ≠ k := by
      rintro rfl
      rw [hfresh] at hj
      cases hj
    rw [Function.update_of_ne hne, hj]
  · rintro ⟨h, hv⟩ j w hj
    by_cases hne : j = k
    · rw [hne, Function.update_self] at hj
      exact Option.some.inj hj ▸ hv
    · rw [Function.update_of_ne hne] at hj
      exact h j w hj

/-- **What a step does to the books.** -/
theorem effect_of_step {a : Label} (h : Books n s) (hs : step n s a = some t) :
    Books n t ∧ Adds s a t ∧ (InRange t ↔ InRange s ∧ Reads s a) := by
  have hinv : Inv n t := inv_step s a t h.inv hs
  have hsurplus : Adds s a t → 0 ≤ t.surplus := by
    intro hadds
    have hpos := h.surplus
    by_cases hmarks : Marks s a
    · rw [hadds.1 hmarks]
      exact hpos
    · rw [hadds.2 hmarks]
      omega
  rcases a with created | k | _
  · have heffect := h.inv.mainEffect hs
    obtain ⟨hadds, hid, hlen⟩ := adds_mainEffect h.length heffect
    refine ⟨⟨hinv, hlen.trans h.length, fun j hj => ?_, hsurplus hadds⟩, hadds, ?_⟩
    · rw [hid]
      rcases thread_mainEffect heffect j with hsame | hnone
      · exact h.fresh j (hsame ▸ hj)
      · exact h.fresh j (Or.inl hnone)
    · unfold InRange
      rw [hid, hlen]
      exact (and_iff_left trivial).symm
  · have heffect := threadEffect (Option.ite_none_left_eq_some.mp hs).2
    have hadds := adds_threadEffect h.inv heffect
    have hlen := length_threadEffect heffect
    have hid := id_threadEffect heffect
    obtain ⟨hnone, hstart, hother⟩ := thread_threadEffect heffect
    have hfresh : ∀ j, t.thread j = .none ∨ t.thread j = .start → t.id j = none := by
      intro j hj
      have hne : j ≠ k := by
        rintro rfl
        rcases hj with hj | hj
        · exact hnone hj
        · exact hstart hj
      rw [hother j hne] at hj
      rcases hid with ⟨-, hid⟩ | ⟨-, hid⟩
      · rw [hid, Function.update_of_ne hne]
        exact h.fresh j hj
      · rw [hid]
        exact h.fresh j hj
    refine ⟨⟨hinv, hlen.trans h.length, hfresh, hsurplus hadds⟩, hadds, ?_⟩
    rcases hid with ⟨hpc, hid⟩ | ⟨hpc, hid⟩
    · rw [inRange_update hlen (h.fresh k (Or.inr hpc)) hid]
      exact and_congr_right fun _ => ⟨fun hlt _ => hlt, fun hread => hread hpc⟩
    · unfold InRange
      rw [hid, hlen]
      exact (and_iff_left fun hstart => absurd hstart hpc).symm
  · obtain ⟨-, ht⟩ := Option.ite_none_right_eq_some.mp hs
    obtain rfl := Option.some.inj ht
    exact ⟨⟨hinv, h.length, h.fresh, h.surplus⟩, adds_of_eq trivial rfl,
      (and_iff_left trivial).symm⟩

/-! ## The result -/

/-- The books are right, but for the mark that is to come. -/
def Sound (s : State) : Prop := s.surplus = 0 ∧ InRange s

theorem books_step (s : State) (a : Label) (t : State) (h : Books n s)
    (hs : (machine n).step s a = some t) : Books n t :=
  (effect_of_step h hs).1

theorem sound_step_iff (s : State) (a : Label) (t : State) (h : Books n s) (hsound : Sound s)
    (hs : (machine n).step s a = some t) : Sound t ↔ Apart s a := by
  obtain ⟨-, hadds, hrange⟩ := effect_of_step h hs
  obtain ⟨hzero, hin⟩ := hsound
  rw [Sound, Apart, hrange, and_iff_right hin, and_comm]
  refine and_congr_right fun _ => ?_
  by_cases hmarks : Marks s a
  · rw [hadds.1 hmarks]
    exact iff_of_true hzero hmarks
  · rw [hadds.2 hmarks]
    exact iff_of_false (by omega) hmarks

theorem not_sound_lasts (s : State) (a : Label) (t : State) (h : Books n s) (hno : ¬ Sound s)
    (hs : (machine n).step s a = some t) : ¬ Sound t := by
  obtain ⟨-, hadds, hrange⟩ := effect_of_step h hs
  rintro ⟨hzero, hin⟩
  refine hno ⟨?_, (hrange.mp hin).1⟩
  have hpos := h.surplus
  by_cases hmarks : Marks s a
  · rw [← hadds.1 hmarks]
    exact hzero
  · have hone := hadds.2 hmarks
    omega

theorem bookkept_iff_sound (hfree : s.mutex = none) : Bookkept s ↔ Sound s := by
  have hmarking := marking_of_free hfree
  have hsurplus : s.surplus = 0 ↔ s.numNoJoined = s.terminated := by
    rw [State.surplus, hmarking]
    omega
  exact ⟨fun h => ⟨hsurplus.mpr h.count, h.ids⟩, fun h => ⟨hsurplus.mp h.1, h.2⟩⟩

/-- **When the books are right.**  For every number of threads and every run that ends with the
mutex free: the count is the number of marked entries and every index lies in the array, exactly
when every step of the run meets `Apart`. -/
theorem bookkept_iff (n : ℕ) {as : List Label} (hrun : (machine n).run (initial n) as = some s)
    (hfree : s.mutex = none) : Bookkept s ↔ (machine n).Respects Apart (initial n) as := by
  have hbooks := books_initial n
  have hsound : Sound (initial n) := by
    refine ⟨le_antisymm ?_ hbooks.surplus, fun k v hv => nomatch hv⟩
    show (0 : ℤ) - (_ : ℕ) - ((0 : ℕ) : ℤ) ≤ 0
    omega
  rw [bookkept_iff_sound hfree]
  exact Machine.run_good_iff_respects books_step sound_step_iff not_sound_lasts as hbooks hsound
    hrun

/-- One thread reads its index in time, counts itself and sets its mark. -/
theorem bookkept_one_thread : ∃ s,
    (machine 1).run (initial 1) [.main true, .main true, .thread 0, .thread 0, .thread 0,
      .thread 0, .thread 0, .thread 0] = some s ∧ s.mutex = none ∧
    (Bookkept s ↔ (machine 1).Respects Apart (initial 1) [.main true, .main true, .thread 0,
      .thread 0, .thread 0, .thread 0, .thread 0, .thread 0]) :=
  ⟨_, rfl, rfl, bookkept_iff 1 rfl rfl⟩

/-- One thread reads its index after `main`'s `i++`: the index is past the array. -/
theorem not_bookkept : ¬ ∀ n s, (machine n).Reachable s → s.mutex = none → s.main.BeforeJoin →
    Bookkept s := by
  intro h
  have hrun := (Machine.Reachable.init (M := machine 1) (s := initial 1) rfl).run
    [.main true, .main true, .main true, .thread 0] rfl
  have hlt := (h 1 _ hrun rfl (by unfold MainPc.BeforeJoin; decide)).ids 0 1 rfl
  exact absurd hlt (by decide)

end ThreadMultijoin
end CodeStrudy
