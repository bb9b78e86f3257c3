import CodeStrudy.Foundation.FileIO
import CodeStrudy.Foundation.OneSlot

/-!
# The threaded file copy

`practice/53.1`: `main` reads the source into `Gbuf`, and `thread_write` writes `Gbuf` to the
destination.  They take turns by two semaphores.  Every access to a semaphore or to `Gbuf` is a step
of its own here, so a run is any interleaving of the two, with any results of the calls.

## What is proved

The program is an instance of the hand-over through one slot: `handover` is the simulation, along
the steps whose calls do not fail.  `copied` states what follows for every state reached: `main` and
`thread_write` are never both at `Gbuf`, what was written is a prefix of what was read, and when
both have finished all of the source has been written.
-/

namespace CodeStrudy
namespace ThreadCopy

open Foundation

/-- `struct file_buf`. -/
structure FileBuf where
  len : CInt
  buf : CharArray 1024

/-- Where `main` is.  `store` is the assignment of what `read` has returned; `errLen` and `errPost`
are what it does when `sem_wait` has failed; `exited` says whether it was with `EXIT_SUCCESS`. -/
inductive MainPc where
  | semInitWrite
  | semInitRead
  | openRead
  | openWrite
  | pthreadCreate
  | semWait
  | read
  | store
  | testLen
  | postEnd
  | post
  | errLen
  | errPost
  | join
  | exited (success : Bool)
  deriving DecidableEq

/-- Where `thread_write` is. -/
inductive ThreadPc where
  | notStarted
  | semWait
  | addLen
  | testLen
  | write
  | post
  | exited
  deriving DecidableEq

/-- The two threads, what they share, and the two files. -/
structure State where
  main : MainPc
  thread : ThreadPc
  semWrite : ℕ
  semRead : ℕ
  Gbuf : FileBuf
  /-- The results of the `read` calls to come. -/
  reads : List ReadResult
  fdWrite : OpenFile
  /-- What `main`'s last `read` has returned. -/
  readRet : CInt
  num : CInt
  /-- `ret` of `thread_write`. -/
  ret : CInt
  /-- The pieces that `main` has read. -/
  chunks : List (List UInt8)
  /-- The buffers that `thread_write` has written. -/
  written : List (List UInt8)

/-- The result of `sem_wait`: it returns, or fails with `EINTR`, or fails otherwise. -/
inductive WaitResult where
  | ok
  | eintr
  | error
  deriving DecidableEq

/-- One step of `main` or of the thread, with the result of its call where it is not determined. -/
inductive Label where
  | mainSetup (ok : Bool)
  | mainWait (r : WaitResult)
  | main
  | threadWait (r : WaitResult)
  | threadWrite (r : WriteResult)
  | thread
  deriving DecidableEq

/-- The program is started: the semaphores are not initialised and `Gbuf` is zero. -/
def initial (reads : List ReadResult) (prev : List UInt8) : State where
  main := .semInitWrite
  thread := .notStarted
  semWrite := 0
  semRead := 0
  Gbuf := ⟨0, .zeros 1024⟩
  reads := reads
  fdWrite := .opened prev
  readRet := 0
  num := 0
  ret := 0
  chunks := []
  written := []

/-- The calls of `main` before its loop.  After each failure it exits. -/
def mainSetup (s : State) (ok : Bool) : Option State :=
  if ok then
    match s.main with
    | .semInitWrite => some { s with semWrite := 1, main := .semInitRead }
    | .semInitRead => some { s with semRead := 0, main := .openRead }
    | .openRead => some { s with main := .openWrite }
    | .openWrite => some { s with main := .pthreadCreate }
    | .pthreadCreate => some { s with main := .semWait, thread := .semWait }
    | _ => none
  else
    match s.main with
    | .semInitWrite | .semInitRead | .openRead | .openWrite | .pthreadCreate =>
      some { s with main := .exited false }
    | _ => none

/-- `main`'s `sem_wait(&semWrite)`. -/
def mainWait (s : State) (r : WaitResult) : Option State :=
  if s.main = .semWait then
    match r with
    | .ok =>
      if 0 < s.semWrite then some { s with semWrite := s.semWrite - 1, main := .read } else none
    | .eintr => some s
    | .error => some { s with main := .errLen }
  else none

/-- `main`'s other steps. -/
def mainStep (s : State) : Option State :=
  match s.main with
  | .read =>
    match s.reads with
    | [] => some { s with readRet := 0, main := .store }
    | .data bs :: rs => some { s with
        reads := rs
        chunks := s.chunks ++ [bs]
        Gbuf := { s.Gbuf with buf := s.Gbuf.buf.write bs }
        readRet := BitVec.ofNat 32 bs.length
        main := .store }
    | .error :: rs => some { s with reads := rs, readRet := -1, main := .store }
  | .store => some { s with Gbuf := { s.Gbuf with len := s.readRet }, main := .testLen }
  | .testLen => some { s with main := if s.Gbuf.len = 0 then .postEnd else .post }
  | .postEnd => some { s with semRead := s.semRead + 1, main := .join }
  | .post => some { s with semRead := s.semRead + 1, main := .semWait }
  | .errLen => some { s with Gbuf := { s.Gbuf with len := 0 }, main := .errPost }
  | .errPost => some { s with semRead := s.semRead + 1, main := .join }
  | .join => if s.thread = .exited then some { s with main := .exited true } else none
  | _ => none

/-- The thread's `sem_wait(&semRead)`.  After a failure that is not `EINTR` it goes on. -/
def threadWait (s : State) (r : WaitResult) : Option State :=
  if s.thread = .semWait then
    match r with
    | .ok =>
      if 0 < s.semRead then some { s with semRead := s.semRead - 1, thread := .addLen } else none
    | .eintr => some s
    | .error => some { s with ret := -1, thread := .addLen }
  else none

/-- The thread's `write(fd, Gbuf.buf, Gbuf.len)`, whose result is not looked at. -/
def threadWrite (s : State) (r : WriteResult) : Option State :=
  if s.thread = .write then
    match r with
    | .wrote count =>
      if count ≤ s.Gbuf.len.toInt then
        some { s with
          fdWrite := s.fdWrite.write (s.Gbuf.buf.bytes.take count)
          written := s.written ++ [s.Gbuf.buf.bytes.take count]
          thread := .post }
      else none
    | .error => some { s with thread := .post }
  else none

/-- The thread's other steps. -/
def threadStep (s : State) : Option State :=
  match s.thread with
  | .addLen => some { s with num := s.num + s.Gbuf.len, thread := .testLen }
  | .testLen => some { s with thread := if s.Gbuf.len = 0 then .exited else .write }
  | .post => some { s with semWrite := s.semWrite + 1, thread := .semWait }
  | _ => none

/-- One step. -/
def step (s : State) : Label → Option State
  | .mainSetup ok => mainSetup s ok
  | .mainWait r => mainWait s r
  | .main => mainStep s
  | .threadWait r => threadWait s r
  | .threadWrite r => threadWrite s r
  | .thread => threadStep s

/-- The program, for the results of its `read` calls and the previous content of the
destination. -/
def machine (reads : List ReadResult) (prev : List UInt8) : Machine State Label where
  init s := s = initial reads prev
  step := step

/-! ## What a call can do -/

section Calls

variable {s s' : State}

theorem mainWait_cases {r : WaitResult} (h : mainWait s r = some s') :
    s.main = .semWait ∧
      (r = .ok ∧ 0 < s.semWrite ∧ s' = { s with semWrite := s.semWrite - 1, main := .read } ∨
        r = .eintr ∧ s' = s ∨
        r = .error ∧ s' = { s with main := .errLen }) := by
  obtain ⟨hm, h⟩ := Option.ite_none_right_eq_some.mp h
  refine ⟨hm, ?_⟩
  cases r with
  | ok =>
    obtain ⟨hpos, h⟩ := Option.ite_none_right_eq_some.mp h
    exact Or.inl ⟨rfl, hpos, (Option.some.inj h).symm⟩
  | eintr => exact Or.inr (Or.inl ⟨rfl, (Option.some.inj h).symm⟩)
  | error => exact Or.inr (Or.inr ⟨rfl, (Option.some.inj h).symm⟩)

theorem threadWait_cases {r : WaitResult} (h : threadWait s r = some s') :
    s.thread = .semWait ∧
      (r = .ok ∧ 0 < s.semRead ∧ s' = { s with semRead := s.semRead - 1, thread := .addLen } ∨
        r = .eintr ∧ s' = s ∨
        r = .error ∧ s' = { s with ret := -1, thread := .addLen }) := by
  obtain ⟨ht, h⟩ := Option.ite_none_right_eq_some.mp h
  refine ⟨ht, ?_⟩
  cases r with
  | ok =>
    obtain ⟨hpos, h⟩ := Option.ite_none_right_eq_some.mp h
    exact Or.inl ⟨rfl, hpos, (Option.some.inj h).symm⟩
  | eintr => exact Or.inr (Or.inl ⟨rfl, (Option.some.inj h).symm⟩)
  | error => exact Or.inr (Or.inr ⟨rfl, (Option.some.inj h).symm⟩)

theorem threadWrite_cases {r : WriteResult} (h : threadWrite s r = some s') :
    s.thread = .write ∧
      ((∃ count : ℕ, r = .wrote count ∧ count ≤ s.Gbuf.len.toInt ∧
          s' = { s with
            fdWrite := s.fdWrite.write (s.Gbuf.buf.bytes.take count)
            written := s.written ++ [s.Gbuf.buf.bytes.take count]
            thread := .post }) ∨
        r = .error ∧ s' = { s with thread := .post }) := by
  obtain ⟨ht, h⟩ := Option.ite_none_right_eq_some.mp h
  refine ⟨ht, ?_⟩
  cases r with
  | wrote count =>
    obtain ⟨hle, h⟩ := Option.ite_none_right_eq_some.mp h
    exact Or.inl ⟨count, rfl, hle, (Option.some.inj h).symm⟩
  | error => exact Or.inr ⟨rfl, (Option.some.inj h).symm⟩

end Calls

/-! ## The property -/

/-- The steps whose calls do what they should: `sem_wait` fails only with `EINTR`, and writes are
complete. -/
def Assumed (s : State) : Label → Prop
  | .mainWait r | .threadWait r => r ≠ .error
  | .threadWrite r => r = .wrote s.Gbuf.len.toNat
  | _ => True

instance : ∀ s a, Decidable (Assumed s a)
  | _, .mainWait r | _, .threadWait r => inferInstanceAs (Decidable (r ≠ .error))
  | s, .threadWrite r => inferInstanceAs (Decidable (r = .wrote s.Gbuf.len.toNat))
  | _, .mainSetup _ | _, .main | _, .thread => .isTrue trivial

/-- `main` is between its `sem_wait` and its `sem_post`. -/
def MainPc.atGbuf : MainPc → Bool
  | .read | .store | .testLen | .postEnd | .post => true
  | _ => false

/-- The thread is between its `sem_wait` and its `sem_post`. -/
def ThreadPc.atGbuf : ThreadPc → Bool
  | .addLen | .testLen | .write | .post => true
  | _ => false

/-- `main` has left its loop. -/
def MainPc.finished : MainPc → Bool
  | .join | .exited _ => true
  | _ => false

/-- What the copy guarantees in every state. -/
structure Copied (source : List UInt8) (s : State) : Prop where
  exclusive : ¬ (s.main.atGbuf = true ∧ s.thread.atGbuf = true)
  written_prefix : s.written <+: s.chunks
  complete : s.main.finished = true → s.thread = .exited →
    s.written = s.chunks ∧ s.written.flatten = source

/-! ## The hand-over -/

/-- `main` has started the thread. -/
def MainPc.started : MainPc → Bool
  | .semInitWrite | .semInitRead | .openRead | .openWrite | .pthreadCreate => false
  | .exited success => success
  | _ => true

/-- `main` as the producer. -/
def MainPc.producer : MainPc → OneSlot.Producer
  | .read => .holding
  | .store | .testLen | .postEnd | .post => .filled
  | .join | .exited true => .done
  | _ => .idle

/-- The thread as the consumer. -/
@[simp] def ThreadPc.consumer : ThreadPc → OneSlot.Consumer
  | .notStarted | .semWait => .idle
  | .addLen | .testLen | .write => .holding
  | .post => .drained
  | .exited => .done

/-- What is in the slot.  Before `main` has assigned the length, it is what `read` returned. -/
def State.slot (s : State) : Option (List UInt8) :=
  item (if s.main = .store then s.readRet else s.Gbuf.len) s.Gbuf.buf

/-- The hand-over a state stands for. -/
def State.abs (s : State) : OneSlot.State (List UInt8) where
  empty := if s.main.started then s.semWrite else 1
  full := if s.main.started then s.semRead else 0
  producer := s.main.producer
  consumer := s.thread.consumer
  slot := s.slot
  sent := s.chunks
  received := s.written

/-- What holds at each point of `main`: before its loop the thread is not started and the semaphores
have their initial values; behind a `read` that returned zero the file is read to its end; and the
tests of `Gbuf.len` have shown what they say. -/
def MainPc.Outline (s : State) : MainPc → Prop
  | .semInitWrite | .exited false => s.thread = .notStarted
  | .semInitRead => s.thread = .notStarted ∧ s.semWrite = 1
  | .openRead | .openWrite | .pthreadCreate =>
    s.thread = .notStarted ∧ s.semWrite = 1 ∧ s.semRead = 0
  | .semWait | .read => True
  | .store => s.readRet = 0 → s.reads = []
  | .testLen => s.Gbuf.len = 0 → s.reads = []
  | .postEnd => s.Gbuf.len = 0 ∧ s.reads = []
  | .post => s.Gbuf.len ≠ 0
  | .errLen | .errPost => False
  | .join | .exited true => s.reads = []

/-- What holds besides the hand-over: the pieces read and the results to come are all results, and
`main` and the thread are where their tests have led them. -/
structure Inv (results : List ReadResult) (s : State) : Prop where
  reads_eq : s.chunks.map .data ++ s.reads = results
  outline : s.main.Outline s
  len_ne_of_write : s.thread = .write → s.Gbuf.len ≠ 0

theorem inv_initial (reads : List ReadResult) (prev : List UInt8) :
    Inv reads (initial reads prev) where
  reads_eq := rfl
  outline := rfl
  len_ne_of_write h := by simp [initial] at h

theorem abs_initial (reads : List ReadResult) (prev : List UInt8) :
    (initial reads prev).abs = OneSlot.initial := by
  have hslot : (initial reads prev).slot = none := item_zero _
  refine OneSlot.State.ext rfl rfl rfl rfl hslot rfl rfl

/-- A step is a stutter or a step of the hand-over. -/
def Matched (s s' : State) : Prop :=
  s'.abs = s.abs ∨ ∃ b, OneSlot.step s.abs b = some s'.abs

section Steps

variable {results : List ReadResult} {s s' : State}

/-- Before its loop `main` moves without touching what the hand-over is about. -/
theorem mainSetup_matched {ok : Bool} (hI : Inv results s) (h : mainSetup s ok = some s') :
    Matched s s' ∧ Inv results s' := by
  have ho := hI.outline
  cases ok <;> cases hm : s.main <;> simp only [mainSetup, hm] at h <;> cases h <;>
    simp only [hm, MainPc.Outline] at ho
  all_goals
    refine ⟨Or.inl ?_, hI.reads_eq, ?_, ?_⟩
    · simp [State.abs, State.slot, MainPc.started, MainPc.producer, hm, ho]
    · simp [MainPc.Outline, ho]
    · simp [ho]

theorem mainWait_matched {r : WaitResult} (hr : r ≠ .error) (hI : Inv results s)
    (h : mainWait s r = some s') : Matched s s' ∧ Inv results s' := by
  obtain ⟨hm, ⟨-, hpos, rfl⟩ | ⟨-, rfl⟩ | ⟨rfl, -⟩⟩ := mainWait_cases h
  · refine ⟨Or.inr ⟨.takeEmpty, ?_⟩, hI.reads_eq, trivial, hI.len_ne_of_write⟩
    simp [OneSlot.step, State.abs, State.slot, MainPc.started, MainPc.producer, hm, hpos]
  · exact ⟨Or.inl rfl, hI⟩
  · exact absurd rfl hr

/-- `main` fills the buffer with what `read` returns. -/
theorem mainRead_matched
    (hread : ∀ r ∈ s.reads.head?, ∃ bs, r = .data bs ∧ bs ≠ [] ∧ bs.length ≤ 1024)
    (hI : Inv results s) (hm : s.main = .read) (h : mainStep s = some s') :
    Matched s s' ∧ Inv results s' := by
  simp only [mainStep, hm] at h
  cases hreads : s.reads with
  | nil =>
    simp only [hreads, Option.some.injEq] at h
    subst h
    refine ⟨Or.inr ⟨.fill none, ?_⟩, ?_, fun _ => rfl, hI.len_ne_of_write⟩
    · simp [OneSlot.step, State.abs, State.slot, MainPc.started, MainPc.producer, hm]
    · rw [← hI.reads_eq, hreads]
  | cons r rs =>
    obtain ⟨bs, rfl, hne, hlen⟩ := hread r (by rw [hreads]; rfl)
    simp only [hreads, Option.some.injEq] at h
    subst h
    have hitem := item_write (by decide) hne hlen s.Gbuf.buf
    refine ⟨Or.inr ⟨.fill (some bs), ?_⟩, ?_, fun hzero => ?_, hI.len_ne_of_write⟩
    · simp [OneSlot.step, State.abs, State.slot, MainPc.started, MainPc.producer, hm, hitem]
    · rw [← hI.reads_eq, hreads]
      simp
    · rw [show BitVec.ofNat 32 bs.length = 0 from hzero] at hitem
      simp at hitem

/-- `main` assigns the length while the thread is not at its `write`. -/
theorem mainStore_matched (hphase : OneSlot.Phase s.abs) (hI : Inv results s)
    (hm : s.main = .store) (h : mainStep s = some s') : Matched s s' ∧ Inv results s' := by
  have ho := hI.outline
  rw [hm] at ho
  simp only [mainStep, hm] at h
  cases h
  have hidle := hphase.consumer_idle (Or.inr (by simp [State.abs, MainPc.producer, hm]))
  refine ⟨Or.inl ?_, hI.reads_eq, ho, fun hw => ?_⟩
  · simp [State.abs, State.slot, MainPc.started, MainPc.producer, hm]
  · simp [State.abs, show s.thread = .write from hw] at hidle

theorem mainStep_matched
    (hread : s.main = .read →
      ∀ r ∈ s.reads.head?, ∃ bs, r = .data bs ∧ bs ≠ [] ∧ bs.length ≤ 1024)
    (hphase : OneSlot.Phase s.abs) (hI : Inv results s) (h : mainStep s = some s') :
    Matched s s' ∧ Inv results s' := by
  have ho := hI.outline
  cases hm : s.main
  case read => exact mainRead_matched (hread hm) hI hm h
  case store => exact mainStore_matched hphase hI hm h
  all_goals simp only [mainStep, hm] at h
  all_goals simp only [hm, MainPc.Outline] at ho
  case testLen =>
    by_cases hlen : s.Gbuf.len = 0
    · rw [if_pos hlen] at h
      cases h
      refine ⟨Or.inl ?_, hI.reads_eq, ⟨hlen, ho hlen⟩, hI.len_ne_of_write⟩
      simp [State.abs, State.slot, MainPc.started, MainPc.producer, hm]
    · rw [if_neg hlen] at h
      cases h
      refine ⟨Or.inl ?_, hI.reads_eq, hlen, hI.len_ne_of_write⟩
      simp [State.abs, State.slot, MainPc.started, MainPc.producer, hm]
  case postEnd =>
    cases h
    refine ⟨Or.inr ⟨.postFull, ?_⟩, hI.reads_eq, ho.2, hI.len_ne_of_write⟩
    simp [OneSlot.step, State.abs, State.slot, MainPc.started, MainPc.producer, hm, ho.1,
      OneSlot.Producer.after]
  case post =>
    cases h
    obtain ⟨bs, hbs⟩ := exists_item ho s.Gbuf.buf
    refine ⟨Or.inr ⟨.postFull, ?_⟩, hI.reads_eq, trivial, hI.len_ne_of_write⟩
    simp [OneSlot.step, State.abs, State.slot, MainPc.started, MainPc.producer, hm, hbs,
      OneSlot.Producer.after]
  case join =>
    simp only [Option.ite_none_right_eq_some, Option.some.injEq] at h
    obtain ⟨-, rfl⟩ := h
    refine ⟨Or.inl ?_, hI.reads_eq, ho, hI.len_ne_of_write⟩
    simp [State.abs, State.slot, MainPc.started, MainPc.producer, hm]
  all_goals cases h

theorem started_of_outline (ht : s.thread ≠ .notStarted) (ho : s.main.Outline s) :
    s.main.started = true := by
  cases hm : s.main with
  | exited success =>
    cases success with
    | true => rfl
    | false => exact absurd (hm ▸ ho : MainPc.Outline s (.exited false)) ht
  | _ => simp_all [MainPc.Outline, MainPc.started]

/-- Once the thread is started, its steps do not touch what holds at the points of `main`. -/
theorem Inv.of_thread (hI : Inv results s) (ht : s.thread ≠ .notStarted) (hmain : s'.main = s.main)
    (hGbuf : s'.Gbuf = s.Gbuf) (hret : s'.readRet = s.readRet) (hreads : s'.reads = s.reads)
    (hchunks : s'.chunks = s.chunks) (hwrite : s'.thread = .write → s.Gbuf.len ≠ 0) :
    Inv results s' := by
  refine ⟨by rw [hchunks, hreads, hI.reads_eq], ?_, by rwa [hGbuf]⟩
  have ho := hI.outline
  have hs := started_of_outline ht ho
  rw [hmain]
  cases hm : s.main with
  | exited success =>
    rw [hm] at hs ho
    cases success with
    | true => exact hreads.trans ho
    | false => cases hs
  | _ => simp_all [MainPc.Outline]

theorem threadWait_matched {r : WaitResult} (hr : r ≠ .error) (hI : Inv results s)
    (h : threadWait s r = some s') : Matched s s' ∧ Inv results s' := by
  obtain ⟨ht, ⟨-, hpos, rfl⟩ | ⟨-, rfl⟩ | ⟨rfl, -⟩⟩ := threadWait_cases h
  · have hne : s.thread ≠ .notStarted := by simp [ht]
    have hstarted := started_of_outline hne hI.outline
    refine ⟨Or.inr ⟨.takeFull, ?_⟩, hI.of_thread hne rfl rfl rfl rfl rfl (by simp)⟩
    simp [OneSlot.step, State.abs, State.slot, ht, hstarted, hpos]
  · exact ⟨Or.inl rfl, hI⟩
  · exact absurd rfl hr

/-- While the thread is at `Gbuf`, `main` is not about to assign `Gbuf.len`. -/
theorem main_ne_store (hphase : OneSlot.Phase s.abs) (hc : s.thread.consumer = .holding) :
    s.main ≠ .store := by
  intro hm
  have hidle : s.thread.consumer = .idle :=
    hphase.consumer_idle (Or.inr (by simp [State.abs, MainPc.producer, hm]))
  rw [hc] at hidle
  cases hidle

theorem threadStep_matched (hphase : OneSlot.Phase s.abs) (hI : Inv results s)
    (h : threadStep s = some s') : Matched s s' ∧ Inv results s' := by
  cases ht : s.thread <;> simp only [threadStep, ht] at h
  case addLen =>
    cases h
    refine ⟨Or.inl ?_, hI.of_thread (by simp [ht]) rfl rfl rfl rfl rfl (by simp)⟩
    simp [State.abs, State.slot, ht]
  case testLen =>
    by_cases hlen : s.Gbuf.len = 0
    · rw [if_pos hlen] at h
      cases h
      have hne := main_ne_store hphase (by simp [ht])
      refine ⟨Or.inr ⟨.drain, ?_⟩, hI.of_thread (by simp [ht]) rfl rfl rfl rfl rfl (by simp)⟩
      simp [OneSlot.step, State.abs, State.slot, ht, hne, hlen, OneSlot.Consumer.after]
    · rw [if_neg hlen] at h
      cases h
      refine ⟨Or.inl ?_, hI.of_thread (by simp [ht]) rfl rfl rfl rfl rfl (fun _ => hlen)⟩
      simp [State.abs, State.slot, ht]
  case post =>
    cases h
    have hne : s.thread ≠ .notStarted := by simp [ht]
    have hstarted := started_of_outline hne hI.outline
    refine ⟨Or.inr ⟨.postEmpty, ?_⟩, hI.of_thread hne rfl rfl rfl rfl rfl (by simp)⟩
    simp [OneSlot.step, State.abs, State.slot, ht, hstarted]
  all_goals cases h

theorem threadWrite_matched {r : WriteResult} (hr : r = .wrote s.Gbuf.len.toNat)
    (hphase : OneSlot.Phase s.abs) (hI : Inv results s) (h : threadWrite s r = some s') :
    Matched s s' ∧ Inv results s' := by
  subst hr
  obtain ⟨ht, ⟨count, hcount, -, rfl⟩ | ⟨herror, -⟩⟩ := threadWrite_cases h
  · obtain rfl := WriteResult.wrote.inj hcount
    have hne := main_ne_store hphase (by simp [ht])
    have hitem : item s.Gbuf.len s.Gbuf.buf = some (s.Gbuf.buf.bytes.take s.Gbuf.len.toNat) :=
      if_neg (hI.len_ne_of_write ht)
    refine ⟨Or.inr ⟨.drain, ?_⟩, hI.of_thread (by simp [ht]) rfl rfl rfl rfl rfl (by simp)⟩
    simp [OneSlot.step, State.abs, State.slot, ht, hne, hitem, OneSlot.Consumer.after]
  · cases herror

end Steps

/-- The next result of `read` is one of all results. -/
theorem Inv.mem_of_mem_head? {results : List ReadResult} {s : State} (hI : Inv results s)
    {r : ReadResult} (hr : r ∈ s.reads.head?) : r ∈ results := by
  rw [← hI.reads_eq]
  exact List.mem_append_right _ (List.mem_of_mem_head? hr)

/-- A step whose calls do not fail, `read` included, is a step of the hand-over or a stutter. -/
theorem step_matched {results : List ReadResult} {s s' : State} {a : Label}
    (hread : a = .main → s.main = .read →
      ∀ r ∈ s.reads.head?, ∃ bs, r = .data bs ∧ bs ≠ [] ∧ bs.length ≤ 1024)
    (ha : Assumed s a) (hphase : OneSlot.Phase s.abs) (hI : Inv results s)
    (h : step s a = some s') : Matched s s' ∧ Inv results s' := by
  cases a with
  | mainSetup ok => exact mainSetup_matched hI h
  | mainWait r => exact mainWait_matched ha hI h
  | main => exact mainStep_matched (hread rfl) hphase hI h
  | threadWait r => exact threadWait_matched ha hI h
  | threadWrite r => exact threadWrite_matched ha hphase hI h
  | thread => exact threadStep_matched hphase hI h

/-- **The copy is a hand-over.**  Along the steps that meet `Assumed`, the program simulates the
hand-over through one slot. -/
def handover {results : List ReadResult}
    (hread : ∀ r ∈ results, ∃ bs, r = .data bs ∧ bs ≠ [] ∧ bs.length ≤ 1024) (prev : List UInt8) :
    Machine.Simulation (machine results prev) Assumed (OneSlot.machine (List UInt8)) where
  rel s t := t = s.abs ∧ Inv results s
  init s hs := by
    subst hs
    exact ⟨_, rfl, (abs_initial results prev).symm, inv_initial results prev⟩
  step s t a s' ht hrel ha h := by
    obtain ⟨rfl, hI⟩ := hrel
    obtain ⟨hmatched, hI'⟩ := step_matched (fun _ _ r hr => hread r (hI.mem_of_mem_head? hr)) ha
      (OneSlot.phase_of_reachable ht) hI h
    rcases hmatched with habs | ⟨b, hb⟩
    · exact Or.inl ⟨habs.symm, hI'⟩
    · exact Or.inr ⟨b, s'.abs, hb, rfl, hI'⟩

/-! ## What the copy guarantees -/

theorem MainPc.producer_of_atGbuf {pc : MainPc} (h : pc.atGbuf = true) :
    pc.producer = .holding ∨ pc.producer = .filled := by
  cases pc <;> simp_all [MainPc.atGbuf, MainPc.producer]

theorem ThreadPc.consumer_of_atGbuf {pc : ThreadPc} (h : pc.atGbuf = true) :
    pc.consumer ≠ .idle := by
  cases pc <;> simp_all [ThreadPc.atGbuf]

/-- A `main` that has left its loop, with the thread started, has read the file to its end. -/
theorem reads_eq_nil {s : State} (ho : s.main.Outline s) (hm : s.main.finished = true)
    (ht : s.thread ≠ .notStarted) : s.reads = [] := by
  cases hpc : s.main with
  | join => exact (hpc ▸ ho : MainPc.Outline s .join)
  | exited success =>
    cases success with
    | true => exact (hpc ▸ ho : MainPc.Outline s (.exited true))
    | false => exact absurd (hpc ▸ ho : MainPc.Outline s (.exited false)) ht
  | _ => simp [hpc, MainPc.finished] at hm

/-- What a state that stands for a reachable state of the hand-over guarantees. -/
theorem copied_of_inv {source : List UInt8} (t : ReadTrace 1024 source) {s : State}
    (hreach : (OneSlot.machine (List UInt8)).Reachable s.abs) (hI : Inv t.results s) :
    Copied source s := by
  have hphase := OneSlot.phase_of_reachable hreach
  refine ⟨fun ⟨hm, ht⟩ => ?_, hphase.received_prefix, fun hm ht => ?_⟩
  · exact ThreadPc.consumer_of_atGbuf ht (hphase.consumer_idle (MainPc.producer_of_atGbuf hm))
  · have hdone : s.abs.consumer = .done := by simp [State.abs, ht]
    have hwritten : s.written = s.chunks := (hphase.received_eq_of_done hdone).1
    have hreads := reads_eq_nil hI.outline hm (by simp [ht])
    refine ⟨hwritten, ?_⟩
    rw [hwritten, ← t.flatMap_bytes, ← hI.reads_eq, hreads, List.append_nil, List.flatMap_map]
    exact List.flatMap_id'.symm

/-- **The threaded copy.**  For every source, every way `read` splits it into pieces, every previous
content of the destination and every interleaving, with any number of `EINTR` from `sem_wait`: in
every state reached `main` and the thread are not both at `Gbuf`, the buffers written are a prefix
of the pieces read, and when both have finished they are all of them and make up the source. -/
theorem copied {source : List UInt8} (t : ReadTrace 1024 source) (herr : .error ∉ t.results)
    (prev : List UInt8) {s : State} (h : (machine t.results prev).ReachableUnder Assumed s) :
    Copied source s := by
  obtain ⟨_, hreach, rfl, hI⟩ := (handover (t.exists_data herr) prev).exists_reachable h
  exact copied_of_inv t hreach hI

/-- A source of one byte, with one `EINTR`, to the exit of the program. -/
theorem copied_one_byte :
    ∃ s, (machine [.data [7]] []).ReachableUnder Assumed s ∧ s.main = .exited true ∧
      Copied [7] s := by
  have hrun := (Machine.ReachableUnder.init (M := machine [.data [7]] []) (C := Assumed) rfl).run
    [.mainSetup true, .mainSetup true, .mainSetup true, .mainSetup true, .mainSetup true,
      .mainWait .ok, .main, .main, .main, .main, .threadWait .eintr, .threadWait .ok, .thread,
      .thread, .threadWrite (.wrote 1), .thread, .mainWait .ok, .main, .main, .main, .main,
      .threadWait .ok, .thread, .thread, .main] (by decide) rfl
  exact ⟨_, hrun, rfl, copied ⟨[.data [7]], by decide, by simp, rfl⟩ (by decide) [] hrun⟩

end ThreadCopy
end CodeStrudy
