import CodeStrudy.SharedMemory.Relation

/-!
# The transfer over shared memory: the initialisation

Until the writer has given both semaphores their first values the reader is not started.  Then the
set with the key is the writer's own, and the hand-over begins, or it is another one, and the reader
will wait for ever.
-/

namespace CodeStrudy
namespace SharedMemory

open Foundation

variable {results : List ReadResult} {s s' : State} {t : OneSlot.State (List UInt8)}

theorem setup_writerCall {ok : Bool} (hS : Setup results s) (h : writerCall s ok = some s') :
    Setup results s' := by
  have ho := hS.writer
  cases hw : s.writer <;> simp only [writerCall, hw] at h <;>
    simp only [hw, WriterPc.SetupOutline] at ho
  case shmget =>
    cases ok <;> cases h
    · exact { hS with writer := trivial }
    · exact { hS with writer := ⟨rfl, rfl⟩ }
  case shmat =>
    cases ok <;> cases h
    · exact { hS with writer := trivial }
    · exact { hS with writer := ho }
  all_goals cases h

theorem setup_writerSemget {id : Option ℕ} (hid : id ≠ none) (hS : Setup results s)
    (h : writerSemget s id = some s') : Setup results s' := by
  unfold writerSemget at h
  split at h
  · rename_i hw
    have ho := hS.writer
    rw [hw] at ho
    cases id with
    | none => exact absurd rfl hid
    | some id =>
      simp only [Option.ite_none_right_eq_some, Option.some.injEq] at h
      obtain ⟨-, rfl⟩ := h
      exact { hS with writer := ⟨ho, id, rfl, SemSets.create_self 2⟩ }
  · cases h

/-- The initialisation of a semaphore of the writer's set, which need not be the set of the key. -/
theorem setVal_keyed {k : SemSets} {id : ℕ} (hk : k id = some [0, 0]) (num v : ℕ) :
    k.setVal semId num v id = some (if id = semId then [0, 0].set num v else [0, 0]) := by
  by_cases hid : id = semId
  · rw [if_pos hid, hid, SemSets.setVal_self, ← hid, hk]
    rfl
  · rw [if_neg hid, SemSets.setVal_of_ne hid, hk]

/-- The read semaphore is set to zero, which it was. -/
theorem setup_writerInitRead (hS : Setup results s) (hw : s.writer = .initRead)
    (h : writerStep s = some s') : Setup results s' := by
  have ho := hS.writer
  rw [hw] at ho
  obtain ⟨hkey, id, hid, hsems⟩ := ho
  simp only [writerStep, hw, mutexInit, Option.some.injEq] at h
  cases hval : s.sems.value semId MUTEX_READ with
  | none =>
    rw [hval] at h
    subst h
    exact { hS with writer := trivial }
  | some v =>
    rw [hval] at h
    subst h
    have hset : s.sems.setVal semId MUTEX_READ 0 id = some [0, 0] := by
      rw [setVal_keyed hsems]
      exact congrArg some (ite_self _)
    exact { hS with writer := ⟨hkey, id, hid, hset⟩ }

/-- The write semaphore is set to one: from here on the set of the key is the writer's, or it is
another one. -/
theorem setup_writerInitWrite (hS : Setup results s) (hw : s.writer = .initWrite)
    (h : writerStep s = some s') : Rel results s' OneSlot.initial := by
  have ho := hS.writer
  rw [hw] at ho
  obtain ⟨hkey, id, hid, hsems⟩ := ho
  simp only [writerStep, hw, mutexInit, Option.some.injEq] at h
  cases hval : s.sems.value semId MUTEX_WRITE with
  | none =>
    rw [hval] at h
    subst h
    exact .setup { hS with writer := trivial } rfl
  | some v =>
    rw [hval] at h
    subst h
    have hset := setVal_keyed hsems MUTEX_WRITE 1
    by_cases hne : id = semId
    · rw [if_pos hne, hne] at hset
      rw [hne] at hid
      refine .handOver ⟨?_, Or.inl ⟨hset, hid⟩, ?_, rfl, ?_, ?_, ?_, ?_, trivial, ?_⟩
      · simp [hS.reads, hS.chunks]
      · simp [hkey.1]
      · simp [hS.reader, OneSlot.initial, ReaderPc.consumer]
      · simp [OneSlot.initial, State.slot, hkey.2]
      · simp [hS.chunks, OneSlot.initial]
      · simp [hS.out, OneSlot.initial]
      · simp [hS.reader, ReaderPc.Outline]
    · rw [if_neg hne] at hset
      refine .apart ⟨⟨id, hne, hid, hset, ?_⟩, hS.out, ?_, ?_, ?_⟩ rfl
      · simp [hS.reader]
      · simp [hkey.1]
      · simp [WriterPc.pastShmRmid]
      · simp [hS.reader, ReaderPc.consumer]

theorem setup_writerStep (hS : Setup results s) (h : writerStep s = some s') :
    Rel results s' OneSlot.initial := by
  have ho := hS.writer
  cases hw : s.writer with
  | initRead => exact .setup (setup_writerInitRead hS hw h) rfl
  | initWrite => exact setup_writerInitWrite hS hw h
  | onExitShm success =>
    cases success with
    | true => exact absurd (hw ▸ ho : WriterPc.SetupOutline s (.onExitShm true)) id
    | false =>
      simp only [writerStep, hw, Option.some.injEq] at h
      subst h
      exact .setup { hS with writer := trivial } rfl
  | onExitSem success =>
    cases success with
    | true => exact absurd (hw ▸ ho : WriterPc.SetupOutline s (.onExitSem true)) id
    | false =>
      simp only [writerStep, hw, Option.some.injEq] at h
      subst h
      exact .setup { hS with writer := trivial } rfl
  | shmget | shmat | semget | exited _ =>
    rw [writerStep, hw] at h
    cases h
  | _ => exact absurd (hw ▸ ho : WriterPc.SetupOutline s _) id

end SharedMemory
end CodeStrudy
