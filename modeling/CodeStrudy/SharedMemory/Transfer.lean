import CodeStrudy.SharedMemory.Initialisation
import CodeStrudy.SharedMemory.OneSet
import CodeStrudy.SharedMemory.TwoSets

/-!
# The transfer over shared memory: what is delivered

When `semget` returns the identifier zero, the two programs are an instance of the hand-over through
one slot.  When it returns another one, the writer works on a set that the reader does not see, and
the reader waits for ever.

## What is proved

The writer removes the segment and the semaphores as soon as it has posted the end of the file, and
nothing makes it wait for the reader: a reader that has not got that far ends in an `ERROUT`
(`not_delivered`).  `delivered` says that this is all that can go wrong: in every run in which each
removal comes after the reader has what it needs, what the reader writes is a prefix of the file,
and after a successful exit of the writer the reader does not fail and ends with the whole file.
-/

namespace CodeStrudy
namespace SharedMemory

open Foundation

/-! ## The simulation -/

theorem rel_step {results : List ReadResult}
    (hread : ∀ r ∈ results, ∃ bs, r = .data bs ∧ bs ≠ [] ∧ bs.length ≤ 1024) {s s' : State}
    {t : OneSlot.State (List UInt8)} {a : Label} (hphase : OneSlot.Phase t) (hR : Rel results s t)
    (ha : RemovesAfter s a) (h : step s a = some s') : Matched results s' t := by
  cases hR with
  | setup hS ht =>
    subst ht
    cases a with
    | writerCall ok => exact Or.inl (.setup (setup_writerCall hS h) rfl)
    | semget id => exact Or.inl (.setup (setup_writerSemget ha hS h) rfl)
    | writer => exact Or.inl (setup_writerStep hS h)
    | readerStart => simp [step, hS.initialised] at h
    | readerShmat ok => simp [step, readerShmat, hS.reader] at h
    | reader => simp [step, readerStep, hS.reader] at h
  | handOver hH =>
    cases a with
    | writerCall ok => exact Or.inl (.handOver (handOver_writerCall hH h))
    | semget id =>
      have ho := hH.writer
      simp only [step, writerSemget] at h
      split at h
      · rename_i hw
        rw [hw] at ho
        exact ho.elim
      · cases h
    | writer => exact handOver_writerStep hread hphase ha hH h
    | readerStart =>
      simp only [step, Option.ite_none_right_eq_some, Option.some.injEq] at h
      obtain ⟨⟨hr, -⟩, rfl⟩ := h
      exact Or.inl (.handOver (handOver_readerStart hH hr))
    | readerShmat ok => exact Or.inl (.handOver (handOver_readerShmat hH h))
    | reader => exact handOver_readerStep hphase hH h
  | apart hA ht =>
    cases a with
    | writerCall ok =>
      have hE := writerEffect_writerCall h
      have hattached : s.writer = .shmRmid → s.reader.attached = true := fun hw => by
        simp [step, writerCall, hw] at h
      exact Or.inl (.apart (apart_of_writerEffect hA hE hattached) ht)
    | semget id =>
      obtain ⟨_, -, hkey, -⟩ := hA.sems
      cases id with
      | none => exact absurd rfl ha
      | some id => simp [step, writerSemget, hkey] at h
    | writer => exact Or.inl (.apart (apart_of_writerEffect hA (writerEffect_writerStep h) ha.1) ht)
    | readerStart =>
      simp only [step, Option.ite_none_right_eq_some, Option.some.injEq] at h
      obtain ⟨⟨hr, -⟩, rfl⟩ := h
      exact Or.inl (.apart (apart_readerStart hA hr) ht)
    | readerShmat ok => exact Or.inl (.apart (apart_readerShmat hA h) ht)
    | reader => exact Or.inl (.apart (apart_readerStep hA h) ht)

theorem rel_init {results : List ReadResult} {s : State} (h : Initial results s) :
    Rel results s OneSlot.initial :=
  .setup ⟨h.reads, h.chunks, h.out, h.reader, h.initialised, by rw [h.writer]; trivial⟩ rfl

/-- **The transfer is a hand-over.**  Along the steps that meet `RemovesAfter`, the two programs
simulate the hand-over through one slot. -/
def handover {results : List ReadResult}
    (hread : ∀ r ∈ results, ∃ bs, r = .data bs ∧ bs ≠ [] ∧ bs.length ≤ 1024) :
    Machine.Simulation (machine results) RemovesAfter (OneSlot.machine (List UInt8)) where
  rel := Rel results
  init _ h := ⟨_, rfl, rel_init h⟩
  step _ _ _ _ ht hrel ha h := rel_step hread (OneSlot.phase_of_reachable ht) hrel ha h

/-! ## What is delivered -/

theorem HandOver.delivered_of_phase {size : ℕ} {file : List UInt8} (tr : ReadTrace size file)
    {s : State} {t : OneSlot.State (List UInt8)} (hphase : OneSlot.Phase t)
    (hH : HandOver tr.results s t) : Delivered file s := by
  have hfile : s.chunks.flatten ++ s.reads.flatMap ReadResult.bytes = file := by
    rw [← tr.flatMap_bytes, ← hH.reads_eq, List.flatMap_append, List.flatMap_map]
    exact congrArg (· ++ _) List.flatMap_id'.symm
  refine ⟨?_, fun hw hr => ?_, fun hw hr => ?_⟩
  · obtain ⟨rest, hrest⟩ := hphase.received_prefix
    rw [hH.sent] at hrest
    refine ⟨rest.flatten ++ s.reads.flatMap ReadResult.bytes, ?_⟩
    rw [← hH.received, ← List.append_assoc, ← List.flatten_append, hrest, hfile]
  · -- a successful exit comes after the reader's last `mutextGet`
    have ho := hH.writer
    rw [hw] at ho
    have hpassed := ho.2
    rw [hr] at hpassed
    cases hpassed
  · have ho := hH.writer
    rw [hw] at ho
    have hdone : t.consumer = .done := by
      rw [hH.consumer (by simp [hr]), hr]
      rfl
    rw [← hH.received, (hphase.received_eq_of_done hdone).1, hH.sent, ← hfile, ho.1,
      List.flatMap_nil, List.append_nil]

/-- **What is delivered.**  For every file, every way `read` splits it into pieces, whatever
semaphore sets the kernel holds and whatever identifier `semget` returns, and every interleaving of
the writer with a reader started after the initialisation: if every step meets `RemovesAfter`, then
in every state what the reader has written is a prefix of the file, and when the writer has exited
successfully the reader has not failed and, once finished, has written the whole file. -/
theorem delivered {file : List UInt8} (tr : ReadTrace 1024 file) (herr : .error ∉ tr.results)
    {s : State} (h : (machine tr.results).ReachableUnder RemovesAfter s) : Delivered file s := by
  obtain ⟨t, hreach, hrel⟩ := (handover (tr.exists_data herr)).exists_reachable h
  cases hrel with
  | setup hS _ => exact ⟨by simp [hS.out], by simp [hS.reader], by simp [hS.reader]⟩
  | handOver hH => exact hH.delivered_of_phase tr (OneSlot.phase_of_reachable hreach)
  | apart hA _ =>
    refine ⟨by simp [hA.out], fun hw hr => ?_, fun _ hr => ?_⟩
    · have hattached := hA.removed (by rw [hw]; rfl)
      rw [hr] at hattached
      cases hattached
    · have hwaiting := hA.waiting
      rw [hr] at hwaiting
      cases hwaiting

/-- The start with no semaphore set in the kernel. -/
def start (results : List ReadResult) : State where
  sems _ := none
  semKey := none
  shmKey := false
  shm := ⟨0, .zeros 1024⟩
  writer := .shmget
  reader := .notStarted
  initialised := false
  reads := results
  readRet := 0
  WriteNum := 0
  readerSemId := 0
  ReadNum := 0
  chunks := []
  out := []

theorem initial_start (results : List ReadResult) : Initial results (start results) :=
  ⟨rfl, rfl, rfl, rfl, rfl, rfl, rfl⟩

/-- A file of one byte, with the identifier zero, to the end of both programs. -/
theorem delivered_one_byte :
    ∃ s, (machine [.data [7]]).ReachableUnder RemovesAfter s ∧ s.writer = .exited true ∧
      s.reader = .finished ∧ Delivered [7] s := by
  have hrun := (Machine.ReachableUnder.init (M := machine [.data [7]]) (C := RemovesAfter)
    (initial_start _)).run
    [.writerCall true, .writerCall true, .semget (some 0), .writer, .writer, .writerCall true,
      .writer, .writer, .writer, .writer, .writer, .writer, .readerStart, .reader,
      .readerShmat true, .reader, .reader, .reader, .reader, .reader, .reader, .writer, .writer,
      .writer, .writer, .writer, .reader, .writer, .writer, .writer, .writer, .reader]
    (by decide) rfl
  exact ⟨_, hrun, rfl, rfl, delivered ⟨[.data [7]], by decide, by simp, rfl⟩ (by decide) hrun⟩

/-- An empty file: the writer posts the end, removes everything and exits before the reader has
asked for the segment, and the reader fails. -/
theorem not_delivered :
    ¬ ∀ (file : List UInt8) (tr : ReadTrace 1024 file) (s : State), .error ∉ tr.results →
      (machine tr.results).Reachable s → Delivered file s := by
  intro h
  have hrun := (Machine.Reachable.init (M := machine []) (initial_start [])).run
    [.writerCall true, .writerCall true, .semget (some 0), .writer, .writer, .writerCall true,
      .writer, .writer, .writer, .writer, .writer, .writer, .writer, .writer, .writer, .readerStart,
      .reader] rfl
  exact (h [] ⟨[], by decide, by simp, rfl⟩ _ (by decide) hrun).not_failed rfl rfl

end SharedMemory
end CodeStrudy
