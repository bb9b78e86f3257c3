import CodeStrudy.Foundation.OneSlot
import CodeStrudy.SharedMemory.Programs

/-!
# The transfer over shared memory: the programs as a hand-over

What the transfer promises, the condition on the steps under which it keeps it, and the relation
between a state of the two programs and a state of the hand-over through one slot.  The relation has
three cases: before the writer's initialisation is done, with the writer and the reader on the same
semaphore set, and with the two on different sets.
-/

namespace CodeStrudy
namespace SharedMemory

open Foundation

/-! ## The property -/

/-- What the transfer promises in every state. -/
structure Delivered (file : List UInt8) (s : State) : Prop where
  out_prefix : s.out <+: file
  not_failed : s.writer = .exited true → s.reader ≠ .failed
  complete : s.writer = .exited true → s.reader = .finished → s.out = file

/-- The reader has attached the segment. -/
def ReaderPc.attached : ReaderPc → Bool
  | .notStarted | .shmget | .shmat | .failed => false
  | _ => true

/-- The reader has passed the `mutextGet` before its last test of the length. -/
def ReaderPc.passedGet : ReaderPc → Bool
  | .testLength | .finished => true
  | _ => false

/-- The steps that take nothing away from the reader: `semget` returns an identifier, the writer
removes the segment when the reader has attached it, and it removes the set of the key when the
reader has passed its last `mutextGet`. -/
def RemovesAfter (s : State) : Label → Prop
  | .semget id => id ≠ none
  | .writer =>
    (s.writer = .shmRmid → s.reader.attached = true) ∧
      (s.writer = .semRmid → s.semKey = some semId → s.reader.passedGet = true)
  | _ => True

instance : ∀ s a, Decidable (RemovesAfter s a)
  | _, .semget id => inferInstanceAs (Decidable (id ≠ none))
  | s, .writer => inferInstanceAs (Decidable
      ((s.writer = .shmRmid → s.reader.attached = true) ∧
        (s.writer = .semRmid → s.semKey = some semId → s.reader.passedGet = true)))
  | _, .writerCall _ | _, .readerStart | _, .readerShmat _ | _, .reader => .isTrue trivial

/-! ## The programs as the two sides of the hand-over -/

/-- The writer is on its way out after an `ERROUT`. -/
def WriterPc.errorExit : WriterPc → Bool
  | .onExitShm false | .onExitSem false | .exited false => true
  | _ => false

/-- The writer has removed the segment after the end of the file. -/
def WriterPc.pastShmRmid : WriterPc → Bool
  | .semRmid | .onExitShm true | .onExitSem true | .exited true => true
  | _ => false

/-- The writer as the producer. -/
def WriterPc.producer : WriterPc → OneSlot.Producer
  | .read => .holding
  | .store | .testLength | .addNum | .put | .putEnd => .filled
  | .shmRmid | .semRmid | .onExitShm true | .onExitSem true | .exited true => .done
  | _ => .idle

/-- The reader as the consumer. -/
def ReaderPc.consumer : ReaderPc → OneSlot.Consumer
  | .testLength | .addNum | .write => .holding
  | .put => .drained
  | .finished => .done
  | _ => .idle

/-- What is in the slot.  Before the writer has assigned the length, it is what `read` returned. -/
def State.slot (s : State) : Option (List UInt8) :=
  item (if s.writer = .store then s.readRet else s.shm.length) s.shm.msg

/-- What holds at each point of the writer after its initialisation. -/
def WriterPc.Outline (s : State) : WriterPc → Prop
  | .shmget | .shmat | .semget | .initRead | .initWrite => False
  | .openFile | .get | .read => True
  | .store => s.readRet = 0 → s.reads = []
  | .testLength => s.shm.length = 0 → s.reads = []
  | .addNum | .put => s.shm.length ≠ 0
  | .putEnd => s.shm.length = 0 ∧ s.reads = []
  | .shmRmid => s.reads = []
  | .semRmid => s.reads = [] ∧ s.reader.attached = true
  | .onExitShm true | .onExitSem true | .exited true => s.reads = [] ∧ s.reader.passedGet = true
  | .onExitShm false | .onExitSem false | .exited false => True

/-- What holds at each point of the reader. -/
def ReaderPc.Outline (s : State) : ReaderPc → Prop
  | .get | .testLength | .put => s.readerSemId = semId
  | .addNum | .write => s.readerSemId = semId ∧ s.shm.length ≠ 0
  | _ => True

/-- The set of the two semaphores: it has the tokens of the hand-over, or it is removed, after an
error exit or after the reader has passed its last `mutextGet`. -/
def SemsOk (s : State) (t : OneSlot.State (List UInt8)) : Prop :=
  (s.sems semId = some [t.full, t.empty] ∧ s.semKey = some semId) ∨
    (s.sems semId = none ∧ s.semKey = none ∧
      (s.writer = .exited false ∨
        (s.writer.pastShmRmid = true ∧ s.writer ≠ .semRmid ∧ s.reader.passedGet = true)))

/-- The writer and the reader use the same set, and stand for a state of the hand-over. -/
structure HandOver (results : List ReadResult) (s : State) (t : OneSlot.State (List UInt8)) :
    Prop where
  reads_eq : s.chunks.map .data ++ s.reads = results
  sems : SemsOk s t
  shmKey : s.shmKey = false → s.writer.errorExit = true ∨ s.reader.attached = true
  producer : t.producer = s.writer.producer
  consumer : s.reader ≠ .failed → t.consumer = s.reader.consumer
  slot : t.slot = s.slot
  sent : t.sent = s.chunks
  received : t.received.flatten = s.out
  writer : s.writer.Outline s
  reader : s.reader.Outline s

/-- What holds at each point of the writer's initialisation. -/
def WriterPc.SetupOutline (s : State) : WriterPc → Prop
  | .shmget | .onExitShm false | .onExitSem false | .exited false => True
  | .shmat | .semget => s.shmKey = true ∧ s.shm.length = 0
  | .initRead | .initWrite =>
    (s.shmKey = true ∧ s.shm.length = 0) ∧ ∃ id, s.semKey = some id ∧ s.sems id = some [0, 0]
  | _ => False

/-- The writer has not finished its initialisation. -/
structure Setup (results : List ReadResult) (s : State) : Prop where
  reads : s.reads = results
  chunks : s.chunks = []
  out : s.out = []
  reader : s.reader = .notStarted
  initialised : s.initialised = false
  writer : s.writer.SetupOutline s

/-- The writer and the reader use different sets, and the reader waits. -/
structure Apart (s : State) : Prop where
  sems : ∃ id, id ≠ semId ∧ s.semKey = some id ∧ s.sems id = some [0, 0] ∧
    (s.reader = .get → s.readerSemId = id)
  out : s.out = []
  shmKey : s.shmKey = false → s.writer.errorExit = true ∨ s.reader.attached = true
  removed : s.writer.pastShmRmid = true → s.reader.attached = true
  waiting : s.reader.consumer = .idle

/-- A state stands for a state of the hand-over, which has not begun before the initialisation and
never begins when the two sets are different. -/
inductive Rel (results : List ReadResult) (s : State) (t : OneSlot.State (List UInt8)) : Prop
  | setup : Setup results s → t = OneSlot.initial → Rel results s t
  | handOver : HandOver results s t → Rel results s t
  | apart : Apart s → t = OneSlot.initial → Rel results s t

/-- A step is a stutter or a step of the hand-over. -/
def Matched (results : List ReadResult) (s' : State) (t : OneSlot.State (List UInt8)) : Prop :=
  Rel results s' t ∨ ∃ b t', OneSlot.step t b = some t' ∧ Rel results s' t'

section

variable {results : List ReadResult} {s s' : State} {t : OneSlot.State (List UInt8)}

/-! ## What one side leaves to the other -/

/-- A step of the writer that leaves the length keeps what holds at the points of the reader. -/
theorem readerOutline_of_writer (ho : s.reader.Outline s) (hreader : s'.reader = s.reader)
    (hid : s'.readerSemId = s.readerSemId) (hlength : s'.shm.length = s.shm.length) :
    s'.reader.Outline s' := by
  rw [hreader]
  cases hr : s.reader <;> rw [hr] at ho <;> simp only [ReaderPc.Outline, hid, hlength] at ho ⊢ <;>
    exact ho

/-- A step of the reader that stays attached, and past its last `mutextGet`, keeps what holds at the
points of the writer. -/
theorem writerOutline_of_reader (ho : s.writer.Outline s) (hwriter : s'.writer = s.writer)
    (hshm : s'.shm = s.shm) (hret : s'.readRet = s.readRet) (hreads : s'.reads = s.reads)
    (hattached : s.writer = .semRmid → s.reader.attached = true → s'.reader.attached = true)
    (hpassed : s.writer.pastShmRmid = true → s.reader.passedGet = true →
      s'.reader.passedGet = true) : s'.writer.Outline s' := by
  rw [hwriter]
  cases hw : s.writer with
  | semRmid =>
    rw [hw] at ho
    exact ⟨hreads.trans ho.1, hattached hw ho.2⟩
  | onExitShm success | onExitSem success | exited success =>
    cases success with
    | false => trivial
    | true =>
      rw [hw] at ho hpassed
      exact ⟨hreads.trans ho.1, hpassed rfl ho.2⟩
  | _ => simp_all [WriterPc.Outline]

/-- The set exists as long as the writer has not run its `IPC_RMID`. -/
theorem SemsOk.exists_of_loop (h : SemsOk s t)
    (hloop : s.writer.pastShmRmid = false ∨ s.writer = .semRmid) (herr : s.writer ≠ .exited false) :
    s.sems semId = some [t.full, t.empty] ∧ s.semKey = some semId := by
  rcases h with h | ⟨-, -, hexit | ⟨hpast, hne, -⟩⟩
  · exact h
  · exact absurd hexit herr
  · rcases hloop with hloop | hloop
    · rw [hpast] at hloop
      cases hloop
    · exact absurd hloop hne

/-- Without an error exit of the writer, the segment is removed only when the reader has attached
it. -/
theorem HandOver.attached (hH : HandOver results s t) (herr : s.writer.errorExit = false)
    (hkey : s.shmKey = false) : s.reader.attached = true := by
  rcases hH.shmKey hkey with h | h
  · rw [herr] at h
    cases h
  · exact h

/-- Where the writer has removed the segment, the reader has attached it. -/
theorem HandOver.pastShmRmid_of_not_attached (hH : HandOver results s t)
    (hr : s.reader.attached = false) : s.writer.pastShmRmid = false := by
  have ho := hH.writer
  have hpassed : s.reader.passedGet ≠ true := by
    cases hpc : s.reader <;> simp_all [ReaderPc.attached, ReaderPc.passedGet]
  cases hw : s.writer <;> rw [hw] at ho <;> try rfl
  case semRmid => cases hr.symm.trans ho.2
  all_goals
    rename_i success
    cases success with
    | false => rfl
    | true => exact absurd ho.2 hpassed

theorem ReaderPc.attached_of_passedGet {pc : ReaderPc} (h : pc.passedGet = true) :
    pc.attached = true := by
  cases pc <;> first | rfl | cases h

theorem setVal_read {k : SemSets} {full empty : ℕ} (h : k semId = some [full, empty]) (v : ℕ) :
    k.setVal semId MUTEX_READ v semId = some [v, empty] := by
  rw [SemSets.setVal_self, h]
  rfl

theorem give_read {k : SemSets} {full empty : ℕ} (h : k semId = some [full, empty]) :
    k.give semId MUTEX_READ = .done (k.setVal semId MUTEX_READ (full + 1)) :=
  SemSets.give_of_eq h rfl

theorem give_write {k : SemSets} {full empty : ℕ} (h : k semId = some [full, empty]) :
    k.give semId MUTEX_WRITE = .done (k.setVal semId MUTEX_WRITE (empty + 1)) :=
  SemSets.give_of_eq h rfl

theorem setVal_write {k : SemSets} {full empty : ℕ} (h : k semId = some [full, empty]) (v : ℕ) :
    k.setVal semId MUTEX_WRITE v semId = some [full, v] := by
  rw [SemSets.setVal_self, h]
  rfl

/-- The set is removed by the writer after the reader has passed its last `mutextGet`, or in an
error exit. -/
theorem semsOk_removeSem (h : SemsOk s t) (hsems : s'.sems = s.removeSem.sems)
    (hkey : s'.semKey = s.removeSem.semKey)
    (hafter : s'.writer = .exited false ∨
      (s'.writer.pastShmRmid = true ∧ s'.writer ≠ .semRmid ∧ s'.reader.passedGet = true)) :
    SemsOk s' t := by
  refine Or.inr ⟨?_, ?_, hafter⟩
  · rw [hsems]
    show s.sems.remove semId semId = none
    exact SemSets.remove_self
  · rw [hkey]
    show (if s.semKey = some semId then none else s.semKey) = none
    rcases h with h | h
    · rw [if_pos h.2]
    · rw [h.2.1, if_neg (by simp)]

/-- A step of the reader that takes no semaphore, with the reader still past its last `mutextGet` if
it was. -/
theorem semsOk_of_reader (h : SemsOk s t) (hsems : s'.sems = s.sems) (hkey : s'.semKey = s.semKey)
    (hwriter : s'.writer = s.writer)
    (hpassed : s.writer.pastShmRmid = true → s.reader.passedGet = true →
      s'.reader.passedGet = true) : SemsOk s' t := by
  unfold SemsOk
  rw [hsems, hkey, hwriter]
  rcases h with h | ⟨hnone, hkey, h | ⟨hpast, hne, h⟩⟩
  · exact Or.inl h
  · exact Or.inr ⟨hnone, hkey, Or.inl h⟩
  · exact Or.inr ⟨hnone, hkey, Or.inr ⟨hpast, hne, hpassed hpast h⟩⟩

/-- Before its last `mutextGet` the reader finds the set, unless the writer had an error exit. -/
theorem SemsOk.of_not_passed (h : SemsOk s t) (hr : s.reader.passedGet = false) :
    (s.sems semId = some [t.full, t.empty] ∧ s.semKey = some semId) ∨
      (s.sems semId = none ∧ s.semKey = none ∧ s.writer = .exited false) := by
  rcases h with h | ⟨hnone, hkey, h | ⟨-, -, h⟩⟩
  · exact Or.inl h
  · exact Or.inr ⟨hnone, hkey, h⟩
  · rw [hr] at h
    cases h

/-- While the reader is at the segment, the slot is what the segment says. -/
theorem HandOver.slot_eq (hH : HandOver results s t) (hphase : OneSlot.Phase t)
    (hc : t.consumer = .holding) : t.slot = item s.shm.length s.shm.msg := by
  have hne : s.writer ≠ .store := by
    intro hw
    have hp := hH.producer
    rw [hw] at hp
    rw [hphase.consumer_idle (Or.inr hp)] at hc
    cases hc
  rw [hH.slot, State.slot, if_neg hne]

/-- A reader with a piece in the segment is not at the end of the file. -/
theorem HandOver.pastShmRmid_eq_false (hH : HandOver results s t) (hphase : OneSlot.Phase t)
    (hc : t.consumer = .holding) (hlen : s.shm.length ≠ 0) : s.writer.pastShmRmid = false := by
  have hslot := hH.slot_eq hphase hc
  have hp := hH.producer
  by_contra hpast
  have hdone : t.producer = .done := by
    rw [hp]
    cases hw : s.writer <;> simp_all [WriterPc.pastShmRmid, WriterPc.producer]
    all_goals rename_i success; cases success <;> simp_all
  rw [hphase.slot_of_done hdone hc] at hslot
  exact hlen (item_eq_none_iff.mp hslot.symm)

end

end SharedMemory
end CodeStrudy
