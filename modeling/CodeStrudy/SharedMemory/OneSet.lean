import CodeStrudy.SharedMemory.Relation

/-!
# The transfer over shared memory: one set

The steps of the writer and of the reader when both work on the same semaphore set: each is a step
of the hand-over through one slot, or none.
-/

namespace CodeStrudy
namespace SharedMemory

open Foundation

variable {results : List ReadResult} {s s' : State} {t : OneSlot.State (List UInt8)}

/-! ## The writer -/

/-- What holds at a point of the writer's loop, before it has removed anything. -/
structure AtLoop (p : WriterPc) (s : State) (t : OneSlot.State (List UInt8)) : Prop where
  sems : s.sems semId = some [t.full, t.empty] ∧ s.semKey = some semId
  attached : s.shmKey = false → s.reader.attached = true
  producer : t.producer = p.producer
  writer : p.Outline s
  /-- A step that is not the reader's and keeps the length keeps what holds of the reader. -/
  reader : ∀ s' : State, s'.reader = s.reader → s'.readerSemId = s.readerSemId →
    s'.shm.length = s.shm.length → s'.reader.Outline s'

theorem HandOver.atLoop (hH : HandOver results s t) {p : WriterPc} (hw : s.writer = p)
    (herr : p.errorExit = false) (hpast : p.pastShmRmid = false) : AtLoop p s t := by
  subst hw
  have hne : s.writer ≠ .exited false := by
    intro hw
    rw [hw] at herr
    cases herr
  exact {
    sems := hH.sems.exists_of_loop (Or.inl hpast) hne
    attached := hH.attached herr
    producer := hH.producer
    writer := hH.writer
    reader := fun s' hreader hid hlength =>
      readerOutline_of_writer hH.reader hreader hid hlength }

theorem handOver_writerCall {ok : Bool} (hH : HandOver results s t)
    (h : writerCall s ok = some s') : HandOver results s' t := by
  have ho := hH.writer
  cases hw : s.writer with
  | openFile =>
    have hl := hH.atLoop hw rfl rfl
    have hslot := hH.slot
    cases ok <;> simp only [writerCall, hw, Option.some.injEq] at h <;> subst h
    all_goals exact { hH with
      sems := Or.inl hl.sems
      shmKey := fun hf => Or.inr (hl.attached hf)
      producer := hl.producer
      slot := by simpa [State.slot, hw] using hslot
      writer := trivial
      reader := hl.reader _ rfl rfl rfl }
  | shmget | shmat => exact absurd (hw ▸ ho : WriterPc.Outline s _) id
  | _ =>
    rw [writerCall, hw] at h
    cases h

/-- The writer takes its turn. -/
theorem handOver_writerGet (hH : HandOver results s t)
    (hw : s.writer = .get) (h : writerStep s = some s') : Matched results s' t := by
  have hl := hH.atLoop hw rfl rfl
  have hslot := hH.slot
  obtain ⟨hsems, hsemKey⟩ := hl.sems
  simp only [writerStep, hw] at h
  cases hempty : t.empty with
  | zero =>
    rw [SemSets.take_of_zero hsems (congrArg some hempty)] at h
    cases h
  | succ n =>
    rw [SemSets.take_of_succ hsems (congrArg some hempty)] at h
    cases h
    have hset := setVal_write hsems (t.empty - 1)
    rw [show t.empty - 1 = n by omega] at hset
    refine Or.inr ⟨.takeEmpty, _, if_pos ⟨hl.producer, by omega⟩, .handOver { hH with
      sems := Or.inl ⟨?_, hsemKey⟩
      shmKey := fun hf => Or.inr (hl.attached hf)
      producer := rfl
      slot := by simpa [State.slot, hw] using hslot
      writer := trivial
      reader := hl.reader _ rfl rfl rfl }⟩
    rw [show t.empty - 1 = n by omega]
    exact hset

/-- The writer fills the slot with what `read` returns. -/
theorem handOver_writerRead
    (hread : ∀ r ∈ results, ∃ bs, r = .data bs ∧ bs ≠ [] ∧ bs.length ≤ 1024)
    (hH : HandOver results s t) (hw : s.writer = .read) (h : writerStep s = some s') :
    Matched results s' t := by
  have hl := hH.atLoop hw rfl rfl
  simp only [writerStep, hw] at h
  cases hreads : s.reads with
  | nil =>
    simp only [hreads, Option.some.injEq] at h
    subst h
    exact Or.inr ⟨.fill none, _, if_pos hl.producer, .handOver { hH with
      reads_eq := by rw [← hH.reads_eq, hreads]
      sems := Or.inl hl.sems
      shmKey := fun hf => Or.inr (hl.attached hf)
      producer := rfl
      slot := by simp [State.slot]
      sent := by simp [hH.sent]
      writer := fun _ => rfl
      reader := hl.reader _ rfl rfl rfl }⟩
  | cons r rs =>
    obtain ⟨bs, rfl, hne, hlen⟩ := hread r (by rw [← hH.reads_eq, hreads]; simp)
    simp only [hreads, Option.some.injEq] at h
    subst h
    have hitem := item_write (by decide) hne hlen s.shm.msg
    refine Or.inr ⟨.fill (some bs), _, if_pos hl.producer, .handOver { hH with
      reads_eq := by rw [← hH.reads_eq, hreads]; simp
      sems := Or.inl hl.sems
      shmKey := fun hf => Or.inr (hl.attached hf)
      producer := rfl
      slot := by simp [State.slot, hitem]
      sent := by simp [hH.sent]
      writer := fun hzero => ?_
      reader := hl.reader _ rfl rfl rfl }⟩
    rw [show BitVec.ofNat 32 bs.length = 0 from hzero] at hitem
    simp at hitem

/-- The length is assigned while the reader is not at the segment. -/
theorem handOver_writerStore (hphase : OneSlot.Phase t) (hH : HandOver results s t)
    (hw : s.writer = .store) (h : writerStep s = some s') : Matched results s' t := by
  have hl := hH.atLoop hw rfl rfl
  have hslot := hH.slot
  have hreader := hH.reader
  simp only [writerStep, hw, Option.some.injEq] at h
  subst h
  refine Or.inl (.handOver { hH with
    sems := Or.inl hl.sems
    shmKey := fun hf => Or.inr (hl.attached hf)
    producer := hl.producer
    slot := by simpa [State.slot, hw] using hslot
    writer := hl.writer
    reader := ?_ })
  -- the reader is not at the segment while the writer is
  have hidle := hphase.consumer_idle (Or.inr hl.producer)
  have hconsumer := hH.consumer
  rw [hidle] at hconsumer
  show ReaderPc.Outline _ s.reader
  cases hr : s.reader <;> rw [hr] at hreader hconsumer
  case addNum | write => cases hconsumer (by simp)
  all_goals exact hreader

/-- The test of the length says whether the file has ended. -/
theorem handOver_writerTestLength (hH : HandOver results s t)
    (hw : s.writer = .testLength) (h : writerStep s = some s') : Matched results s' t := by
  have hl := hH.atLoop hw rfl rfl
  have hslot := hH.slot
  by_cases hlen : s.shm.length = 0
  · simp only [writerStep, hw, if_pos hlen, Option.some.injEq] at h
    subst h
    exact Or.inl (.handOver { hH with
      sems := Or.inl hl.sems
      shmKey := fun hf => Or.inr (hl.attached hf)
      producer := hl.producer
      slot := by simpa [State.slot, hw] using hslot
      writer := ⟨hlen, hl.writer hlen⟩
      reader := hl.reader _ rfl rfl rfl })
  · simp only [writerStep, hw, if_neg hlen, Option.some.injEq] at h
    subst h
    exact Or.inl (.handOver { hH with
      sems := Or.inl hl.sems
      shmKey := fun hf => Or.inr (hl.attached hf)
      producer := hl.producer
      slot := by simpa [State.slot, hw] using hslot
      writer := hlen
      reader := hl.reader _ rfl rfl rfl })

theorem handOver_writerAddNum (hH : HandOver results s t)
    (hw : s.writer = .addNum) (h : writerStep s = some s') : Matched results s' t := by
  have hl := hH.atLoop hw rfl rfl
  have hslot := hH.slot
  simp only [writerStep, hw, Option.some.injEq] at h
  subst h
  exact Or.inl (.handOver { hH with
    sems := Or.inl hl.sems
    shmKey := fun hf => Or.inr (hl.attached hf)
    producer := hl.producer
    slot := by simpa [State.slot, hw] using hslot
    writer := hl.writer
    reader := hl.reader _ rfl rfl rfl })

/-- The writer posts a piece. -/
theorem handOver_writerPut (hH : HandOver results s t)
    (hw : s.writer = .put) (h : writerStep s = some s') : Matched results s' t := by
  have hl := hH.atLoop hw rfl rfl
  have hslot := hH.slot
  obtain ⟨hsems, hsemKey⟩ := hl.sems
  simp only [writerStep, hw, give_read hsems, writerSemop, Option.some.injEq] at h
  subst h
  obtain ⟨bs, hbs⟩ := exists_item hl.writer s.shm.msg
  have hsome : t.slot = some bs := by simpa [State.slot, hw, hbs] using hslot
  exact Or.inr ⟨.postFull, _, if_pos hl.producer, .handOver { hH with
    sems := Or.inl ⟨setVal_read hsems _, hsemKey⟩
    shmKey := fun hf => Or.inr (hl.attached hf)
    producer := by rw [hsome]; rfl
    slot := by simpa [State.slot, hw] using hslot
    writer := trivial
    reader := hl.reader _ rfl rfl rfl }⟩

/-- The writer posts the end of the file. -/
theorem handOver_writerPutEnd (hH : HandOver results s t)
    (hw : s.writer = .putEnd) (h : writerStep s = some s') : Matched results s' t := by
  have hl := hH.atLoop hw rfl rfl
  have hslot := hH.slot
  obtain ⟨hsems, hsemKey⟩ := hl.sems
  obtain ⟨hzero, hend⟩ := hl.writer
  simp only [writerStep, hw, give_read hsems, writerSemop, Option.some.injEq] at h
  subst h
  have hnone : t.slot = none := by simpa [State.slot, hw, hzero] using hslot
  exact Or.inr ⟨.postFull, _, if_pos hl.producer, .handOver { hH with
    sems := Or.inl ⟨setVal_read hsems _, hsemKey⟩
    shmKey := fun hf => Or.inr (hl.attached hf)
    producer := by rw [hnone]; rfl
    slot := by simpa [State.slot, hw] using hslot
    writer := hend
    reader := hl.reader _ rfl rfl rfl }⟩

/-- The segment is removed after the reader has attached it. -/
theorem handOver_writerShmRmid (ha : RemovesAfter s .writer) (hH : HandOver results s t)
    (hw : s.writer = .shmRmid) (h : writerStep s = some s') : Matched results s' t := by
  have hl := hH.atLoop hw rfl rfl
  have hslot := hH.slot
  simp only [writerStep, hw, Option.some.injEq] at h
  subst h
  exact Or.inl (.handOver { hH with
    sems := Or.inl hl.sems
    shmKey := fun _ => Or.inr (ha.1 hw)
    producer := hl.producer
    slot := by simpa [State.slot, hw] using hslot
    writer := ⟨hl.writer, ha.1 hw⟩
    reader := hl.reader _ rfl rfl rfl })

/-- The set is removed after the reader has passed its last `mutextGet`. -/
theorem handOver_writerSemRmid (ha : RemovesAfter s .writer) (hH : HandOver results s t)
    (hw : s.writer = .semRmid) (h : writerStep s = some s') : Matched results s' t := by
  have ho := hH.writer
  have hattached := hH.attached
  have hproducer := hH.producer
  have hslot := hH.slot
  have hsemsOf := hH.sems.exists_of_loop
  have hreader := hH.reader
  rw [hw] at hproducer hattached ho
  simp only [writerStep, hw, Option.some.injEq] at h
  subst h
  obtain ⟨-, hsemKey⟩ := hsemsOf (Or.inr hw) (by simp [hw])
  have hpassed := ha.2 hw hsemKey
  exact Or.inl (.handOver { hH with
    sems := semsOk_removeSem hH.sems rfl rfl (Or.inr ⟨rfl, by simp, hpassed⟩)
    shmKey := fun hf => Or.inr (hattached rfl hf)
    producer := hproducer
    slot := by simpa [State.slot, State.removeSem, hw] using hslot
    writer := ⟨ho.1, hpassed⟩
    reader := readerOutline_of_writer hreader rfl rfl rfl })

theorem handOver_writerOnExitShm {success : Bool} (hH : HandOver results s t)
    (hw : s.writer = .onExitShm success) (h : writerStep s = some s') : Matched results s' t := by
  have ho := hH.writer
  have hproducer := hH.producer
  have hslot := hH.slot
  have hreader := hH.reader
  rw [hw] at hproducer ho
  simp only [writerStep, hw, Option.some.injEq] at h
  subst h
  have hsems : SemsOk { s with shmKey := false, writer := .onExitSem success } t := by
    rcases hH.sems with hs | ⟨hnone, hkey, hexit | ⟨hpast, -, hpassed⟩⟩
    · exact Or.inl hs
    · rw [hw] at hexit
      cases hexit
    · rw [hw] at hpast
      exact Or.inr ⟨hnone, hkey,
        Or.inr ⟨by cases success <;> simp_all [WriterPc.pastShmRmid], by simp, hpassed⟩⟩
  cases success with
  | true =>
    exact Or.inl (.handOver { hH with
      sems := hsems
      shmKey := fun _ => Or.inr (ReaderPc.attached_of_passedGet ho.2)
      producer := hproducer
      slot := by simpa [State.slot, hw] using hslot
      writer := ho
      reader := readerOutline_of_writer hreader rfl rfl rfl })
  | false =>
    exact Or.inl (.handOver { hH with
      sems := hsems
      shmKey := fun _ => Or.inl rfl
      producer := hproducer
      slot := by simpa [State.slot, hw] using hslot
      writer := trivial
      reader := readerOutline_of_writer hreader rfl rfl rfl })

theorem handOver_writerOnExitSem {success : Bool} (hH : HandOver results s t)
    (hw : s.writer = .onExitSem success) (h : writerStep s = some s') : Matched results s' t := by
  have ho := hH.writer
  have hproducer := hH.producer
  have hslot := hH.slot
  have hreader := hH.reader
  rw [hw] at hproducer ho
  simp only [writerStep, hw, Option.some.injEq] at h
  subst h
  cases success with
  | true =>
    exact Or.inl (.handOver { hH with
      sems := semsOk_removeSem hH.sems rfl rfl (Or.inr ⟨rfl, by simp, ho.2⟩)
      shmKey := fun _ => Or.inr (ReaderPc.attached_of_passedGet ho.2)
      producer := hproducer
      slot := by simpa [State.slot, State.removeSem, hw] using hslot
      writer := ho
      reader := readerOutline_of_writer hreader rfl rfl rfl })
  | false =>
    exact Or.inl (.handOver { hH with
      sems := semsOk_removeSem hH.sems rfl rfl (Or.inl rfl)
      shmKey := fun _ => Or.inl rfl
      producer := hproducer
      slot := by simpa [State.slot, State.removeSem, hw] using hslot
      writer := trivial
      reader := readerOutline_of_writer hreader rfl rfl rfl })

theorem handOver_writerStep (hread : ∀ r ∈ results, ∃ bs, r = .data bs ∧ bs ≠ [] ∧ bs.length ≤ 1024)
    (hphase : OneSlot.Phase t) (ha : RemovesAfter s .writer) (hH : HandOver results s t)
    (h : writerStep s = some s') : Matched results s' t := by
  have ho := hH.writer
  cases hw : s.writer with
  | get => exact handOver_writerGet hH hw h
  | read => exact handOver_writerRead hread hH hw h
  | store => exact handOver_writerStore hphase hH hw h
  | testLength => exact handOver_writerTestLength hH hw h
  | addNum => exact handOver_writerAddNum hH hw h
  | put => exact handOver_writerPut hH hw h
  | putEnd => exact handOver_writerPutEnd hH hw h
  | shmRmid => exact handOver_writerShmRmid ha hH hw h
  | semRmid => exact handOver_writerSemRmid ha hH hw h
  | onExitShm success => exact handOver_writerOnExitShm hH hw h
  | onExitSem success => exact handOver_writerOnExitSem hH hw h
  | initRead | initWrite => exact absurd (hw ▸ ho : WriterPc.Outline s _) id
  | _ =>
    rw [writerStep, hw] at h
    cases h

/-! ## The reader -/

theorem handOver_readerStart (hH : HandOver results s t) (hr : s.reader = .notStarted) :
    HandOver results { s with reader := .shmget } t := by
  have hconsumer := hH.consumer
  have hkey := hH.shmKey
  rw [hr] at hconsumer hkey
  exact { hH with
    sems := semsOk_of_reader hH.sems rfl rfl rfl (by simp [hr, ReaderPc.passedGet])
    shmKey := hkey
    consumer := fun _ => hconsumer (by simp)
    writer := writerOutline_of_reader hH.writer rfl rfl rfl rfl (by simp [hr, ReaderPc.attached])
      (by simp [hr, ReaderPc.passedGet])
    reader := trivial }

/-- A reader that fails before its last `mutextGet` leaves a writer that has not removed the
segment after the end of the file. -/
theorem handOver_failed (hH : HandOver results s t) (hpast : s.writer.pastShmRmid = false)
    (hkey : s.shmKey = false → s.writer.errorExit = true) (hnot : s.reader.passedGet = false) :
    HandOver results { s with reader := .failed } t := by
  have hne : s.writer ≠ .semRmid := by
    intro hw
    rw [hw] at hpast
    cases hpast
  exact { hH with
    sems := semsOk_of_reader hH.sems rfl rfl rfl (by simp [hnot])
    shmKey := fun h => Or.inl (hkey h)
    consumer := fun h => absurd rfl h
    writer := writerOutline_of_reader hH.writer rfl rfl rfl rfl (fun h => absurd h hne)
      (by simp [hnot])
    reader := trivial }

/-- A reader that fails before it has attached the segment. -/
theorem handOver_failed_of_not_attached (hH : HandOver results s t)
    (hr : s.reader.attached = false) : HandOver results { s with reader := .failed } t := by
  refine handOver_failed hH (hH.pastShmRmid_of_not_attached hr) (fun hkey => ?_) ?_
  · exact (hH.shmKey hkey).resolve_right (by simp [hr])
  · cases hpc : s.reader <;> simp_all [ReaderPc.attached, ReaderPc.passedGet]

/-- A reader that does not find the set, after an error exit of the writer. -/
theorem handOver_failed_of_exited (hH : HandOver results s t) (hw : s.writer = .exited false)
    (hnot : s.reader.passedGet = false) : HandOver results { s with reader := .failed } t :=
  handOver_failed hH (by rw [hw]; rfl) (fun _ => by rw [hw]; rfl) hnot

theorem handOver_readerShmat {ok : Bool} (hH : HandOver results s t)
    (h : readerShmat s ok = some s') : HandOver results s' t := by
  unfold readerShmat at h
  split at h
  · rename_i hr
    have hconsumer := hH.consumer
    rw [hr] at hconsumer
    cases ok with
    | true =>
      cases h
      exact { hH with
        sems := semsOk_of_reader hH.sems rfl rfl rfl (by simp [hr, ReaderPc.passedGet])
        shmKey := fun _ => Or.inr rfl
        consumer := fun _ => hconsumer (by simp)
        writer := writerOutline_of_reader hH.writer rfl rfl rfl rfl (fun _ _ => rfl)
          (by simp [hr, ReaderPc.passedGet])
        reader := trivial }
    | false =>
      cases h
      exact handOver_failed_of_not_attached hH (by rw [hr]; rfl)
  · cases h

theorem handOver_readerShmget (hH : HandOver results s t)
    (hr : s.reader = .shmget) (h : readerStep s = some s') : Matched results s' t := by
  have hconsumer := hH.consumer
  have hkey := hH.shmKey
  rw [hr] at hconsumer hkey
  simp only [readerStep, hr] at h
  by_cases hshm : s.shmKey = true
  · rw [if_pos hshm] at h
    cases h
    exact Or.inl (.handOver { hH with
      sems := semsOk_of_reader hH.sems rfl rfl rfl (by simp [hr, ReaderPc.passedGet])
      shmKey := hkey
      consumer := fun _ => hconsumer (by simp)
      writer := writerOutline_of_reader hH.writer rfl rfl rfl rfl
        (by simp [hr, ReaderPc.attached]) (by simp [hr, ReaderPc.passedGet])
      reader := trivial })
  · rw [if_neg hshm] at h
    cases h
    exact Or.inl (.handOver (handOver_failed_of_not_attached hH (by rw [hr]; rfl)))

/-- The reader finds the set of the key, which is the writer's. -/
theorem handOver_readerSemget (hH : HandOver results s t)
    (hr : s.reader = .semget) (h : readerStep s = some s') : Matched results s' t := by
  have hconsumer := hH.consumer
  have hkey := hH.shmKey
  rw [hr] at hconsumer hkey
  simp only [readerStep, hr] at h
  rcases hH.sems.of_not_passed (by rw [hr]; rfl) with ⟨-, hsemKey⟩ | ⟨-, hsemKey, hw⟩
  · split at h
    · rename_i id hid
      cases h
      exact Or.inl (.handOver { hH with
        sems := semsOk_of_reader hH.sems rfl rfl rfl (by simp [hr, ReaderPc.passedGet])
        shmKey := hkey
        consumer := fun _ => hconsumer (by simp)
        writer := writerOutline_of_reader hH.writer rfl rfl rfl rfl (fun _ _ => rfl)
          (by simp [hr, ReaderPc.passedGet])
        reader := Option.some.inj (hid.symm.trans hsemKey) })
    · rename_i hid
      cases hid.symm.trans hsemKey
  · split at h
    · rename_i id hid
      cases hid.symm.trans hsemKey
    · cases h
      exact Or.inl (.handOver (handOver_failed_of_exited hH hw (by rw [hr]; rfl)))

/-- The reader takes its turn. -/
theorem handOver_readerGet (hH : HandOver results s t)
    (hr : s.reader = .get) (h : readerStep s = some s') : Matched results s' t := by
  have hconsumer := hH.consumer
  have hkey := hH.shmKey
  have ho := hH.reader
  rw [hr] at hconsumer hkey ho
  have hid : s.readerSemId = semId := ho
  simp only [readerStep, hr, hid] at h
  rcases hH.sems.of_not_passed (by rw [hr]; rfl) with ⟨hsems, hsemKey⟩ | ⟨hsems, -, hw⟩
  · cases hfull : t.full with
    | zero =>
      rw [SemSets.take_of_zero hsems (congrArg some hfull)] at h
      cases h
    | succ n =>
      rw [SemSets.take_of_succ hsems (congrArg some hfull)] at h
      cases h
      have hset := setVal_read hsems (t.full - 1)
      rw [show t.full - 1 = n by omega] at hset
      refine Or.inr ⟨.takeFull, _, if_pos ⟨hconsumer (by simp), by omega⟩, .handOver { hH with
        sems := Or.inl ⟨?_, hsemKey⟩
        shmKey := hkey
        consumer := fun _ => rfl
        writer := writerOutline_of_reader hH.writer rfl rfl rfl rfl (fun _ _ => rfl)
          (fun _ _ => rfl)
        reader := hid }⟩
      rw [show t.full - 1 = n by omega]
      exact hset
  · rw [SemSets.take_of_eq_none hsems] at h
    cases h
    exact Or.inl (.handOver (handOver_failed_of_exited hH hw (by rw [hr]; rfl)))

/-- The reader drains the end mark, or finds a piece. -/
theorem handOver_readerTestLength (hphase : OneSlot.Phase t) (hH : HandOver results s t)
    (hr : s.reader = .testLength) (h : readerStep s = some s') : Matched results s' t := by
  have hconsumer := hH.consumer
  have hkey := hH.shmKey
  have ho := hH.reader
  rw [hr] at hconsumer hkey ho
  have hholding : t.consumer = .holding := hconsumer (by simp)
  have hslot := hH.slot_eq hphase hholding
  simp only [readerStep, hr] at h
  by_cases hlen : s.shm.length = 0
  · rw [if_pos hlen] at h
    cases h
    have hnone : t.slot = none := hslot.trans (item_eq_none_iff.mpr hlen)
    refine Or.inr ⟨.drain, _, if_pos hholding, .handOver { hH with
      sems := semsOk_of_reader hH.sems rfl rfl rfl (fun _ _ => rfl)
      shmKey := hkey
      consumer := fun _ => by rw [hnone]; rfl
      received := by simp [hnone, hH.received]
      writer := writerOutline_of_reader hH.writer rfl rfl rfl rfl (fun _ _ => rfl) (fun _ _ => rfl)
      reader := trivial }⟩
  · rw [if_neg hlen] at h
    cases h
    have hpast := hH.pastShmRmid_eq_false hphase hholding hlen
    exact Or.inl (.handOver { hH with
      sems := semsOk_of_reader hH.sems rfl rfl rfl (by simp [hpast])
      shmKey := hkey
      consumer := fun _ => hholding
      writer := writerOutline_of_reader hH.writer rfl rfl rfl rfl (fun _ _ => rfl) (by simp [hpast])
      reader := ⟨ho, hlen⟩ })

theorem handOver_readerAddNum (hH : HandOver results s t)
    (hr : s.reader = .addNum) (h : readerStep s = some s') : Matched results s' t := by
  have hconsumer := hH.consumer
  have hkey := hH.shmKey
  have ho := hH.reader
  rw [hr] at hconsumer hkey ho
  simp only [readerStep, hr, Option.some.injEq] at h
  subst h
  exact Or.inl (.handOver { hH with
    sems := semsOk_of_reader hH.sems rfl rfl rfl (by simp [hr, ReaderPc.passedGet])
    shmKey := hkey
    consumer := fun _ => hconsumer (by simp)
    writer := writerOutline_of_reader hH.writer rfl rfl rfl rfl (fun _ _ => rfl)
      (by simp [hr, ReaderPc.passedGet])
    reader := ho })

/-- The reader drains a piece. -/
theorem handOver_readerWrite (hphase : OneSlot.Phase t) (hH : HandOver results s t)
    (hr : s.reader = .write) (h : readerStep s = some s') : Matched results s' t := by
  have hconsumer := hH.consumer
  have hkey := hH.shmKey
  have ho := hH.reader
  rw [hr] at hconsumer hkey ho
  have hholding : t.consumer = .holding := hconsumer (by simp)
  simp only [readerStep, hr, Option.some.injEq] at h
  subst h
  have hsome : t.slot = some (s.shm.msg.bytes.take s.shm.length.toNat) :=
    (hH.slot_eq hphase hholding).trans (if_neg ho.2)
  exact Or.inr ⟨.drain, _, if_pos hholding, .handOver { hH with
    sems := semsOk_of_reader hH.sems rfl rfl rfl (by simp [hr, ReaderPc.passedGet])
    shmKey := hkey
    consumer := fun _ => by rw [hsome]; rfl
    received := by simp [hsome, hH.received]
    writer := writerOutline_of_reader hH.writer rfl rfl rfl rfl (fun _ _ => rfl)
      (by simp [hr, ReaderPc.passedGet])
    reader := ho.1 }⟩

/-- The reader gives the turn back. -/
theorem handOver_readerPut (hH : HandOver results s t)
    (hr : s.reader = .put) (h : readerStep s = some s') : Matched results s' t := by
  have hconsumer := hH.consumer
  have hkey := hH.shmKey
  have ho := hH.reader
  rw [hr] at hconsumer hkey ho
  have hid : s.readerSemId = semId := ho
  simp only [readerStep, hr, hid] at h
  rcases hH.sems.of_not_passed (by rw [hr]; rfl) with ⟨hsems, hsemKey⟩ | ⟨hsems, -, hw⟩
  · rw [give_write hsems] at h
    cases h
    exact Or.inr ⟨.postEmpty, _, if_pos (hconsumer (by simp)), .handOver { hH with
      sems := Or.inl ⟨setVal_write hsems _, hsemKey⟩
      shmKey := hkey
      consumer := fun _ => rfl
      writer := writerOutline_of_reader hH.writer rfl rfl rfl rfl (fun _ _ => rfl)
        (by simp [hr, ReaderPc.passedGet])
      reader := hid }⟩
  · rw [SemSets.give_of_eq_none hsems] at h
    cases h
    exact Or.inl (.handOver (handOver_failed_of_exited hH hw (by rw [hr]; rfl)))

theorem handOver_readerStep (hphase : OneSlot.Phase t) (hH : HandOver results s t)
    (h : readerStep s = some s') : Matched results s' t := by
  cases hr : s.reader with
  | shmget => exact handOver_readerShmget hH hr h
  | semget => exact handOver_readerSemget hH hr h
  | get => exact handOver_readerGet hH hr h
  | testLength => exact handOver_readerTestLength hphase hH hr h
  | addNum => exact handOver_readerAddNum hH hr h
  | write => exact handOver_readerWrite hphase hH hr h
  | put => exact handOver_readerPut hH hr h
  | _ =>
    rw [readerStep, hr] at h
    cases h

end SharedMemory
end CodeStrudy
