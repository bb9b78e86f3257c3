import CodeStrudy.ThreadCopy.Copy

/-!
# The threaded copy comes to its end

`main` and `thread_write` hand the buffer to and fro by two semaphores.  Whatever `read` and `write`
return, failures included, one of the two can always go on, and every step brings them nearer to the
end: the results of `read` become fewer with each round, and within a round the turn passes from
`main` to the thread and back.  A `sem_wait` that returns with `EINTR` is called again and changes
nothing, so only its returns with success are counted as steps here.

## What is proved

* `Turn.step`: whose turn it is, kept by every step, and that every step makes the rest smaller.
* `exits_inevitable`: every run comes to the exit of `main`, and the thread has ended by then unless
  it was never started.
-/

namespace CodeStrudy
namespace ThreadCopy

open Foundation

/-- `sem_wait` returns with success. -/
def Waits (_ : State) : Label → Prop
  | .mainWait r | .threadWait r => r = .ok
  | _ => True

instance : ∀ s a, Decidable (Waits s a)
  | _, .mainWait r | _, .threadWait r => inferInstanceAs (Decidable (r = .ok))
  | _, .mainSetup _ | _, .main | _, .threadWrite _ | _, .thread => .isTrue trivial

/-- The program has come to its end. -/
def Exited (s : State) : Prop :=
  s.main = .exited true ∧ s.thread = .exited ∨ s.main = .exited false ∧ s.thread = .notStarted

/-- What the tests of `Gbuf.len` have shown to `main`. -/
def MainPc.Tested (s : State) : MainPc → Prop
  | .postEnd => s.Gbuf.len = 0
  | .post => s.Gbuf.len ≠ 0
  | _ => True

/-- Whose turn it is. -/
inductive Turn (s : State) : Prop
  /-- `main` sets up the semaphores, the files and the thread. -/
  | setup (hmain : s.main = .semInitWrite ∨ s.main = .semInitRead ∧ s.semWrite = 1 ∨
      (s.main = .openRead ∨ s.main = .openWrite ∨ s.main = .pthreadCreate) ∧
        s.semWrite = 1 ∧ s.semRead = 0) (hthread : s.thread = .notStarted) : Turn s
  /-- `main` is at the buffer, or about to be. -/
  | main (hmain : s.main = .semWait ∧ s.semWrite = 1 ∨
      s.main.atGbuf = true ∧ s.semWrite = 0 ∧ s.main.Tested s)
      (hthread : s.thread = .semWait) (hread : s.semRead = 0) : Turn s
  /-- The thread is at the buffer, or about to be. -/
  | thread (hmain : s.main = .semWait) (hwrite : s.semWrite = 0) (hlen : s.Gbuf.len ≠ 0)
      (hthread : s.thread = .semWait ∧ s.semRead = 1 ∨
        s.thread.atGbuf = true ∧ s.semRead = 0) : Turn s
  /-- `main` waits for the thread, which finds no more data. -/
  | last (hmain : s.main = .join) (hlen : s.Gbuf.len = 0)
      (hthread : s.thread = .semWait ∧ s.semRead = 1 ∨ s.thread = .addLen ∨ s.thread = .testLen ∨
        s.thread = .exited) : Turn s

/-- How far it is to the end of the round, or of the program when there is no more data. -/
def State.rank (s : State) : ℕ :=
  match s.main with
  | .semInitWrite => 17
  | .semInitRead => 16
  | .openRead => 15
  | .openWrite => 14
  | .pthreadCreate => 13
  | .store => if s.readRet = 0 then 10 else 29
  | .testLen => if s.Gbuf.len = 0 then 9 else 28
  | .post => 27
  | .semWait =>
    match s.thread with
    | .semWait => if 0 < s.semWrite then 12 else 26
    | .addLen => 25
    | .testLen => 24
    | .write => 23
    | _ => 22
  | .read => 11
  | .postEnd => 8
  | .join =>
    match s.thread with
    | .semWait => 7
    | .addLen => 6
    | .testLen => 5
    | _ => 4
  | .errLen | .errPost | .exited _ => 0

/-- How far it is to the end of the program. -/
def State.rest (s : State) : ℕ := 20 * s.reads.length + s.rank

variable {s t : State} {a : Label}

/-- After the end there is no step. -/
theorem Exited.step_eq_none (hs : Exited s) (ha : Waits s a) : step s a = none := by
  rcases hs with ⟨hm, ht⟩ | ⟨hm, ht⟩ <;> cases a <;>
    simp only [step, mainSetup, mainWait, mainStep, threadWait, threadWrite, threadStep, hm, ht,
      reduceCtorEq, if_false, ite_self]

theorem Turn.initial (reads : List ReadResult) (prev : List UInt8) :
    Turn (initial reads prev) :=
  .setup (.inl rfl) rfl

/-- The steps of `main` before its loop. -/
theorem Turn.mainSetup {ok : Bool} (hs : Turn s) (h : mainSetup s ok = some t) :
    Exited t ∨ Turn t ∧ t.rest < s.rest := by
  cases hs with
  | main hmain | thread hmain | last hmain =>
    cases ok <;> cases hm : s.main <;> simp [ThreadCopy.mainSetup, hm, MainPc.atGbuf] at h hmain
  | setup hmain hthread =>
    cases ok with
    | false =>
      have hexit : t = { s with main := .exited false } := by
        rcases hmain with hm | ⟨hm, -⟩ | ⟨hm | hm | hm, -⟩ <;>
          simpa [ThreadCopy.mainSetup, hm, eq_comm] using h
      subst hexit
      exact .inl (.inr ⟨rfl, hthread⟩)
    | true =>
      refine .inr ?_
      rcases hmain with hm | ⟨hm, hwrite⟩ | ⟨hm | hm | hm, hwrite, hread⟩ <;>
        simp only [ThreadCopy.mainSetup, hm, if_true, Option.some.injEq] at h <;> subst h
      · exact ⟨.setup (.inr (.inl ⟨rfl, rfl⟩)) hthread, by simp [State.rest, State.rank, hm]⟩
      · exact ⟨.setup (.inr (.inr ⟨.inl rfl, hwrite, rfl⟩)) hthread,
          by simp [State.rest, State.rank, hm]⟩
      · exact ⟨.setup (.inr (.inr ⟨.inr (.inl rfl), hwrite, hread⟩)) hthread,
          by simp [State.rest, State.rank, hm]⟩
      · exact ⟨.setup (.inr (.inr ⟨.inr (.inr rfl), hwrite, hread⟩)) hthread,
          by simp [State.rest, State.rank, hm]⟩
      · exact ⟨.main (.inl ⟨rfl, hwrite⟩) rfl hread,
          by simp [State.rest, State.rank, hm, hwrite]⟩

theorem Turn.mainWait {r : WaitResult} (hs : Turn s) (hr : r = .ok) (h : mainWait s r = some t) :
    Turn t ∧ t.rest < s.rest := by
  obtain ⟨hm, ⟨-, hpos, rfl⟩ | ⟨rfl, -⟩ | ⟨rfl, -⟩⟩ := mainWait_cases h
  · cases hs with
    | setup hmain => simp [hm] at hmain
    | last hmain => simp [hm] at hmain
    | thread _ hwrite => omega
    | main hmain hthread hread =>
      have hone : s.semWrite = 1 := by
        rcases hmain with ⟨-, hone⟩ | ⟨hat, -⟩
        · exact hone
        · simp [hm, MainPc.atGbuf] at hat
      refine ⟨.main (.inr ⟨rfl, by simp [hone], trivial⟩) hthread hread, ?_⟩
      simp [State.rest, State.rank, hm, hthread, hpos]
  · cases hr
  · cases hr

/-- `main`'s `read` uses up a result, or finds the end of the file. -/
theorem Turn.mainRead (hs : Turn s) (hm : s.main = .read) (h : mainStep s = some t) :
    Turn t ∧ t.rest < s.rest := by
  cases hs with
  | setup hmain | thread hmain | last hmain => simp [hm] at hmain
  | main hmain hthread hread =>
    have hwrite : s.semWrite = 0 := by
      rcases hmain with ⟨hwait, -⟩ | ⟨-, hwrite, -⟩
      · cases hm.symm.trans hwait
      · exact hwrite
    simp only [mainStep, hm] at h
    have hturn : ∀ t : State, t.main = .store → t.semWrite = s.semWrite → t.thread = s.thread →
        t.semRead = s.semRead → Turn t := by
      intro t htm htw htt htr
      refine .main (.inr ⟨by rw [htm]; rfl, htw.trans hwrite, ?_⟩) (htt.trans hthread)
        (htr.trans hread)
      rw [htm]
      trivial
    split at h
    case h_1 hreads =>
      obtain rfl := Option.some.inj h
      exact ⟨hturn _ rfl rfl rfl rfl, by simp [State.rest, State.rank, hm]⟩
    case h_2 bs rs hreads =>
      obtain rfl := Option.some.inj h
      refine ⟨hturn _ rfl rfl rfl rfl, ?_⟩
      simp only [State.rest, State.rank, hm, hreads, List.length_cons]
      split <;> omega
    case h_3 rs hreads =>
      obtain rfl := Option.some.inj h
      refine ⟨hturn _ rfl rfl rfl rfl, ?_⟩
      simp only [State.rest, State.rank, hm, hreads, List.length_cons]
      split <;> omega

/-- The steps of `main` between its `read` and its `sem_post`, and its `pthread_join`. -/
theorem Turn.mainStep (hs : Turn s) (h : mainStep s = some t) :
    Exited t ∨ Turn t ∧ t.rest < s.rest := by
  by_cases hread : s.main = .read
  · exact .inr (hs.mainRead hread h)
  cases hs with
  | setup hmain | thread hmain =>
    cases hm : s.main <;> simp [ThreadCopy.mainStep, hm] at h hmain
  | last hmain hlen hthread =>
    simp only [ThreadCopy.mainStep, hmain] at h
    obtain ⟨hexited, h⟩ := Option.ite_none_right_eq_some.mp h
    obtain rfl := Option.some.inj h
    exact .inl (.inl ⟨rfl, hexited⟩)
  | main hmain hthread hread' =>
    rcases hmain with ⟨hm, -⟩ | ⟨hat, hwrite, htested⟩
    · simp [ThreadCopy.mainStep, hm] at h
    refine .inr ?_
    cases hm : s.main <;> simp only [ThreadCopy.mainStep, hm] at h <;> rw [hm] at hat htested
    case read => exact absurd hm hread
    case store =>
      obtain rfl := Option.some.inj h
      refine ⟨.main (.inr ⟨rfl, hwrite, trivial⟩) hthread hread', ?_⟩
      simp only [State.rest, State.rank, hm]
      split <;> omega
    case testLen =>
      by_cases hlen : s.Gbuf.len = 0
      · rw [if_pos hlen] at h
        obtain rfl := Option.some.inj h
        refine ⟨.main (.inr ⟨rfl, hwrite, hlen⟩) hthread hread', ?_⟩
        simp only [State.rest, State.rank, hm, if_pos hlen]
        omega
      · rw [if_neg hlen] at h
        obtain rfl := Option.some.inj h
        refine ⟨.main (.inr ⟨rfl, hwrite, hlen⟩) hthread hread', ?_⟩
        simp only [State.rest, State.rank, hm, if_neg hlen]
        omega
    case postEnd =>
      obtain rfl := Option.some.inj h
      refine ⟨.last rfl htested (.inl ⟨hthread, by simp [hread']⟩), ?_⟩
      simp [State.rest, State.rank, hm, hthread]
    case post =>
      obtain rfl := Option.some.inj h
      refine ⟨.thread rfl hwrite htested (.inl ⟨hthread, by simp [hread']⟩), ?_⟩
      simp [State.rest, State.rank, hm, hthread, hwrite]
    all_goals cases hat

theorem Turn.threadWait {r : WaitResult} (hs : Turn s) (hr : r = .ok)
    (h : threadWait s r = some t) : Turn t ∧ t.rest < s.rest := by
  obtain ⟨ht, ⟨-, hpos, rfl⟩ | ⟨rfl, -⟩ | ⟨rfl, -⟩⟩ := threadWait_cases h
  · cases hs with
    | setup _ hthread => simp [ht] at hthread
    | main _ _ hread => omega
    | thread hmain hwrite hlen hthread =>
      have hone : s.semRead = 1 := by simpa [ht, ThreadPc.atGbuf] using hthread
      refine ⟨.thread hmain hwrite hlen (.inr ⟨rfl, by simp [hone]⟩), ?_⟩
      simp [State.rest, State.rank, hmain, ht, hwrite]
    | last hmain hlen =>
      exact ⟨.last hmain hlen (.inr (.inl rfl)), by simp [State.rest, State.rank, hmain, ht]⟩
  · cases hr
  · cases hr

theorem Turn.threadWrite {r : WriteResult} (hs : Turn s) (h : threadWrite s r = some t) :
    Turn t ∧ t.rest < s.rest := by
  obtain ⟨ht, hcases⟩ := threadWrite_cases h
  cases hs with
  | setup _ hthread | main _ hthread | last _ _ hthread => simp [ht] at hthread
  | thread hmain hwrite hlen hthread =>
    have hread : s.semRead = 0 := by simpa [ht, ThreadPc.atGbuf] using hthread
    rcases hcases with ⟨count, -, -, rfl⟩ | ⟨-, rfl⟩
    · refine ⟨.thread hmain hwrite hlen (.inr ⟨rfl, hread⟩), ?_⟩
      simp [State.rest, State.rank, hmain, ht]
    · refine ⟨.thread hmain hwrite hlen (.inr ⟨rfl, hread⟩), ?_⟩
      simp [State.rest, State.rank, hmain, ht]

theorem Turn.threadStep (hs : Turn s) (h : threadStep s = some t) :
    Turn t ∧ t.rest < s.rest := by
  cases hs with
  | setup _ hthread | main _ hthread => simp [ThreadCopy.threadStep, hthread] at h
  | thread hmain hwrite hlen hthread =>
    cases ht : s.thread <;> simp only [ThreadCopy.threadStep, ht, reduceCtorEq] at h
    case addLen =>
      obtain rfl := Option.some.inj h
      have hread : s.semRead = 0 := by simpa [ht, ThreadPc.atGbuf] using hthread
      refine ⟨.thread hmain hwrite hlen (.inr ⟨rfl, hread⟩), ?_⟩
      simp [State.rest, State.rank, hmain, ht]
    case testLen =>
      rw [if_neg hlen] at h
      obtain rfl := Option.some.inj h
      have hread : s.semRead = 0 := by simpa [ht, ThreadPc.atGbuf] using hthread
      refine ⟨.thread hmain hwrite hlen (.inr ⟨rfl, hread⟩), ?_⟩
      simp [State.rest, State.rank, hmain, ht]
    case post =>
      obtain rfl := Option.some.inj h
      have hread : s.semRead = 0 := by simpa [ht, ThreadPc.atGbuf] using hthread
      refine ⟨.main (.inl ⟨hmain, by simp [hwrite]⟩) rfl hread, ?_⟩
      simp [State.rest, State.rank, hmain, ht]
  | last hmain hlen hthread =>
    cases ht : s.thread <;> simp only [ThreadCopy.threadStep, ht, reduceCtorEq] at h
    case addLen =>
      obtain rfl := Option.some.inj h
      exact ⟨.last hmain hlen (.inr (.inr (.inl rfl))), by simp [State.rest, State.rank, hmain, ht]⟩
    case testLen =>
      rw [if_pos hlen] at h
      obtain rfl := Option.some.inj h
      exact ⟨.last hmain hlen (.inr (.inr (.inr rfl))), by simp [State.rest, State.rank, hmain, ht]⟩
    case post => simp [ht] at hthread

/-- **Every step keeps the turns and comes nearer to the end.** -/
theorem Turn.step (hs : Turn s) (ha : Waits s a) (h : ThreadCopy.step s a = some t) :
    Exited t ∨ Turn t ∧ t.rest < s.rest := by
  cases a with
  | mainSetup ok => exact hs.mainSetup h
  | mainWait r => exact .inr (hs.mainWait ha h)
  | main => exact hs.mainStep h
  | threadWait r => exact .inr (hs.threadWait ha h)
  | threadWrite r => exact .inr (hs.threadWrite h)
  | thread => exact .inr (hs.threadStep h)

/-- **Someone can always go on.** -/
theorem Turn.exists_step (hs : Turn s) :
    ∃ a, Waits s a ∧ (ThreadCopy.step s a).isSome = true := by
  cases hs with
  | setup hmain =>
    refine ⟨.mainSetup true, trivial, ?_⟩
    rcases hmain with hm | ⟨hm, -⟩ | ⟨hm | hm | hm, -⟩ <;>
      simp [ThreadCopy.step, ThreadCopy.mainSetup, hm]
  | main hmain =>
    rcases hmain with ⟨hm, hone⟩ | ⟨hat, -⟩
    · refine ⟨.mainWait .ok, rfl, ?_⟩
      simp [ThreadCopy.step, ThreadCopy.mainWait, hm, hone]
    · refine ⟨.main, trivial, ?_⟩
      cases hm : s.main <;> simp only [hm, MainPc.atGbuf, Bool.false_eq_true] at hat
      case read =>
        simp only [ThreadCopy.step, ThreadCopy.mainStep, hm]
        split <;> rfl
      all_goals simp [ThreadCopy.step, ThreadCopy.mainStep, hm]
  | thread _ _ _ hthread =>
    rcases hthread with ⟨ht, hone⟩ | ⟨hat, -⟩
    · refine ⟨.threadWait .ok, rfl, ?_⟩
      simp [ThreadCopy.step, ThreadCopy.threadWait, ht, hone]
    · cases ht : s.thread <;> simp only [ht, ThreadPc.atGbuf, Bool.false_eq_true] at hat
      case write =>
        refine ⟨.threadWrite .error, trivial, ?_⟩
        simp [ThreadCopy.step, ThreadCopy.threadWrite, ht]
      all_goals
        refine ⟨.thread, trivial, ?_⟩
        simp [ThreadCopy.step, ThreadCopy.threadStep, ht]
  | last hmain _ hthread =>
    rcases hthread with ⟨ht, hone⟩ | ht | ht | ht
    · refine ⟨.threadWait .ok, rfl, ?_⟩
      simp [ThreadCopy.step, ThreadCopy.threadWait, ht, hone]
    · exact ⟨.thread, trivial, by simp [ThreadCopy.step, ThreadCopy.threadStep, ht]⟩
    · exact ⟨.thread, trivial, by simp [ThreadCopy.step, ThreadCopy.threadStep, ht]⟩
    · exact ⟨.main, trivial, by simp [ThreadCopy.step, ThreadCopy.mainStep, hmain, ht]⟩

/-- **The copy comes to its end.**  For any results of `read`, failures and odd counts included, any
results of `write` and of the calls before the loop, and every interleaving: from every state that
is reached, every run that goes on comes to the exit of the program, with the thread ended or never
started. -/
theorem exits_inevitable (reads : List ReadResult) (prev : List UInt8)
    (h : ((machine reads prev).restrict Waits).Reachable s) :
    ((machine reads prev).restrict Waits).Inevitable Exited s := by
  have hs : Exited s ∨ Turn s := by
    induction h with
    | init hinit =>
      obtain rfl : _ = _ := hinit
      exact .inr (Turn.initial reads prev)
    | step _ _ hst ih =>
      obtain ⟨ha, hst⟩ := Machine.restrict_step_eq_some_iff.mp hst
      rcases ih with hexited | hs
      · cases (hexited.step_eq_none ha).symm.trans hst
      · exact (hs.step ha hst).imp_right And.left
  rcases hs with hexited | hs
  · exact .now hexited
  refine .of_measure (I := Turn) State.rest (fun s hs _ => ?_) (fun s a t hs _ hst => ?_) hs
  · obtain ⟨a, ha, hsome⟩ := hs.exists_step
    obtain ⟨t, hst⟩ := Option.isSome_iff_exists.mp hsome
    exact ⟨a, t, Machine.restrict_step_eq_some_iff.mpr ⟨ha, hst⟩⟩
  · obtain ⟨ha, hst⟩ := Machine.restrict_step_eq_some_iff.mp hst
    exact hs.step ha hst

theorem exits_inevitable_initial :
    ((machine [.data [7], .error] []).restrict Waits).Inevitable Exited
      (initial [.data [7], .error] []) :=
  exits_inevitable _ _ (.init rfl)

end ThreadCopy
end CodeStrudy
