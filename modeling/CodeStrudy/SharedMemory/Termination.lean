import CodeStrudy.SharedMemory.Token
import CodeStrudy.SharedMemory.Transfer

/-!
# The transfer over shared memory comes to its end, or not

The writer works on the semaphore set 0 and the reader on the set that has the key.  When these are
one set, whoever has the token can go on; each round of the two takes one result of `read`, and both
come to their end.  When the kernel has given the key to another set, nobody posts on the semaphore
that the reader waits for.

## What is proved

* `Shared.exists_step`: with one set, one of the two can go on as long as not both have ended.
* `Astray.step`, `Waiting.step`: with two sets, the reader is on its way to a wait without end.
* `ends_iff`: while the writer is in its loop or before it, all runs come to the end of both
  programs exactly if the set that has the key is the set 0; otherwise a run leads to a reader that
  waits for ever.  A `shmat` of the reader that fails while the segment is there is not considered,
  as the writer then waits for a reader that has ended.
-/

namespace CodeStrudy
namespace SharedMemory

open Foundation

/-- The writer has exited, and the reader has come to its end too. -/
def Ended (s : State) : Prop :=
  (∃ success, s.writer = .exited success) ∧ (s.reader = .finished ∨ s.reader = .failed)

/-- The steps in which the writer gets a set and the reader the segment: a `semget` of the writer
returns an identifier, and the `shmat` of the reader fails only when the segment is removed. -/
def Served (s : State) : Label → Prop
  | .semget id => id ≠ none
  | .readerShmat ok => ok = true ∨ s.shmKey = false
  | _ => True

instance : ∀ s a, Decidable (Served s a)
  | _, .semget none => .isFalse fun h => h rfl
  | _, .semget (some _) => .isTrue (Option.some_ne_none _)
  | s, .readerShmat ok => decidable_of_iff (ok = true ∨ s.shmKey = false) Iff.rfl
  | _, .writerCall _ | _, .writer | _, .readerStart | _, .reader => .isTrue trivial

variable {s t : State}

/-! ## One set -/

theorem Shared.step {a : Label} (hs : Shared s) (ha : Served s a) (h : step s a = some t) :
    Shared t ∧ t.rest < s.rest := by
  cases a with
  | writerCall ok => exact hs.writerCall h
  | semget id =>
    simp only [SharedMemory.step, writerSemget] at h
    split at h
    · rename_i hw
      have hplaced := hs.placed
      rw [hw] at hplaced
      rcases hplaced with hp | hp <;> cases hp
    · cases h
  | writer => exact hs.writerStep h
  | readerStart =>
    simp only [SharedMemory.step, Option.ite_none_right_eq_some, Option.some.injEq] at h
    obtain ⟨⟨hr, -⟩, rfl⟩ := h
    exact hs.readerStart hr
  | readerShmat ok => exact hs.readerShmat ha h
  | reader => exact hs.readerStep h

/-- The reader can go on unless it waits for the token. -/
theorem Shared.exists_reader (hs : Shared s) (hr : ¬ (s.reader = .finished ∨ s.reader = .failed))
    (hgo : s.reader = .get → s.sems.take semId MUTEX_READ ≠ .blocked) :
    ∃ a t, Served s a ∧ SharedMemory.step s a = some t := by
  rw [not_or] at hr
  cases hpc : s.reader with
  | notStarted =>
    exact ⟨.readerStart, _, trivial, if_pos ⟨hpc, hs.initialised⟩⟩
  | shmat =>
    refine ⟨.readerShmat true, { s with reader := .semget }, .inl rfl, ?_⟩
    rw [SharedMemory.step, SharedMemory.readerShmat, if_pos hpc, if_pos rfl]
  | shmget | testLength | addNum | write =>
    refine ⟨.reader, ?_⟩
    simp only [SharedMemory.step, SharedMemory.readerStep, hpc]
    exact ⟨_, trivial, rfl⟩
  | semget =>
    refine ⟨.reader, ?_⟩
    simp only [SharedMemory.step, SharedMemory.readerStep, hpc]
    cases s.semKey <;> exact ⟨_, trivial, rfl⟩
  | get =>
    refine ⟨.reader, ?_⟩
    simp only [SharedMemory.step, SharedMemory.readerStep, hpc,
      hs.readerSemId (by rw [hpc]; rfl)]
    cases hop : s.sems.take semId MUTEX_READ with
    | blocked => exact absurd hop (hgo hpc)
    | failed => exact ⟨_, trivial, rfl⟩
    | done k => exact ⟨_, trivial, rfl⟩
  | put =>
    refine ⟨.reader, ?_⟩
    simp only [SharedMemory.step, SharedMemory.readerStep, hpc,
      hs.readerSemId (by rw [hpc]; rfl)]
    rcases hs.token with ⟨full, empty, rest, hheld⟩ | hrem
    · rw [SemSets.give_of_eq hheld.set (v := empty) rfl]
      exact ⟨_, trivial, rfl⟩
    · rw [SemSets.give_of_eq_none hrem.set]
      exact ⟨_, trivial, rfl⟩
  | finished => exact absurd hpc hr.1
  | failed => exact absurd hpc hr.2

/-- Before the end, one of the two can go on. -/
theorem Shared.exists_step (hs : Shared s) (hend : ¬ Ended s) :
    ∃ a t, Served s a ∧ SharedMemory.step s a = some t := by
  cases hw : s.writer
  case openFile =>
    refine ⟨.writerCall true, ?_⟩
    simp only [SharedMemory.step, SharedMemory.writerCall, hw]
    exact ⟨_, trivial, rfl⟩
  case get =>
    have hworking : s.writer.working = true := by rw [hw]; rfl
    obtain ⟨full, empty, rest, hheld⟩ := hs.held hworking
    rcases empty with - | empty
    · -- the token is posted to the reader, or with it
      refine hs.exists_reader (fun hr => ?_) fun hr => ?_
      · cases (WriterPc.leaving_of_working hworking).symm.trans (hs.ended hr)
      · have hone := hheld.one
        rw [hw, hr] at hone
        simp only [WriterPc.holds, ReaderPc.holds, Bool.toNat_false] at hone
        have hfull : full = 0 + 1 := by omega
        rw [SemSets.take_of_succ hheld.set (v := 0) (congrArg some hfull)]
        exact fun hop => by cases hop
    · refine ⟨.writer, ?_⟩
      simp only [SharedMemory.step, SharedMemory.writerStep, hw]
      rw [SemSets.take_of_succ hheld.set (v := empty) rfl]
      exact ⟨_, trivial, rfl⟩
  case exited success =>
    rcases hs.token with ⟨full, empty, rest, hheld⟩ | hrem
    · exact absurd hw (hheld.notExited success)
    · refine hs.exists_reader (fun hr => hend ⟨⟨success, hw⟩, hr⟩) fun _ => ?_
      rw [SemSets.take_of_eq_none hrem.set]
      exact fun hop => by cases hop
  case read =>
    refine ⟨.writer, ?_⟩
    simp only [SharedMemory.step, SharedMemory.writerStep, hw]
    split <;> exact ⟨_, trivial, rfl⟩
  case put | putEnd =>
    obtain ⟨full, empty, rest, hheld⟩ := hs.held (by rw [hw]; rfl)
    refine ⟨.writer, ?_⟩
    simp only [SharedMemory.step, SharedMemory.writerStep, hw]
    rw [SemSets.give_of_eq hheld.set (v := full) rfl]
    exact ⟨_, trivial, rfl⟩
  case store | testLength | addNum | shmRmid | semRmid | onExitShm | onExitSem =>
    refine ⟨.writer, ?_⟩
    simp only [SharedMemory.step, SharedMemory.writerStep, hw]
    exact ⟨_, trivial, rfl⟩
  all_goals
    have hplaced := hs.placed
    rw [hw] at hplaced
    rcases hplaced with hp | hp <;> cases hp

theorem Shared.inevitable {results : List ReadResult} (hs : Shared s) :
    ((machine results).restrict Served).Inevitable Ended s := by
  refine .of_measure State.rest (fun _ hs hend => ?_) (fun _ _ _ hs _ hst => ?_) hs
  · obtain ⟨a, t, ha, hst⟩ := hs.exists_step hend
    exact ⟨a, t, Machine.restrict_step_eq_some_iff.mpr ⟨ha, hst⟩⟩
  · obtain ⟨ha, hst⟩ := Machine.restrict_step_eq_some_iff.mp hst
    exact .inr (hs.step ha hst)

/-! ## Two sets -/

/-- The key belongs to a set on which nobody posts, and the reader waits for it, or will. -/
structure Astray (s : State) : Prop where
  sems : ∃ id, id ≠ semId ∧ s.semKey = some id ∧ s.sems id = some [0, 0] ∧
    (s.reader = .get → s.readerSemId = id)
  waiting : s.reader.consumer = .idle
  shmKey : s.shmKey = false → s.writer.leaving = true
  failed : s.reader = .failed → s.writer.leaving = true

theorem leaving_of_writerStep (hw : s.writer.leaving = true) (h : writerStep s = some t) :
    t.writer.leaving = true := by
  cases hpc : s.writer <;> rw [hpc] at hw <;> simp only [writerStep, hpc] at h
  case shmRmid | semRmid | onExitShm | onExitSem =>
    cases h
    rfl
  all_goals cases hw <;> cases h

theorem Astray.of_writerEffect (hs : Astray s) (hE : WriterEffect s t)
    (hleaving : s.writer.leaving = true → t.writer.leaving = true)
    (hshm : t.shmKey = false → s.shmKey = false ∨ t.writer.leaving = true) : Astray t := by
  obtain ⟨id, hne, hkey, hsems, hget⟩ := hs.sems
  refine ⟨⟨id, hne, hE.semKey id hne hkey, (hE.sems id hne).trans hsems, ?_⟩, ?_, ?_, ?_⟩
  · rw [hE.reader, hE.readerSemId]
    exact hget
  · rw [hE.reader]
    exact hs.waiting
  · intro hfalse
    exact (hshm hfalse).elim (fun h => hleaving (hs.shmKey h)) fun h => h
  · rw [hE.reader]
    exact fun h => hleaving (hs.failed h)

theorem shmKey_of_writerStep (h : writerStep s = some t) (hw : s.writer ≠ .shmRmid)
    (hexit : ∀ success, s.writer ≠ .onExitShm success) : t.shmKey = s.shmKey := by
  cases hpc : s.writer <;> simp only [writerStep, hpc] at h
  case shmRmid => exact absurd hpc hw
  case onExitShm success => exact absurd hpc (hexit success)
  case initRead | initWrite =>
    unfold mutexInit at h
    split at h <;> cases h <;> rfl
  case get | put | putEnd =>
    unfold writerSemop at h
    split at h <;> cases h <;> rfl
  case read => split at h <;> cases h <;> rfl
  all_goals cases h <;> rfl

theorem Astray.writerStep (hs : Astray s) (h : writerStep s = some t) : Astray t := by
  refine hs.of_writerEffect (writerEffect_writerStep h) (fun hw => leaving_of_writerStep hw h)
    fun hfalse => ?_
  by_cases hexit : s.writer = .shmRmid ∨ ∃ success, s.writer = .onExitShm success
  · refine .inr (leaving_of_writerStep ?_ h)
    rcases hexit with hw | ⟨success, hw⟩ <;> rw [hw] <;> rfl
  · rw [not_or, not_exists] at hexit
    exact .inl ((shmKey_of_writerStep h hexit.1 hexit.2).symm.trans hfalse)

/-- A step of the reader that takes no semaphore. -/
theorem Astray.reads (hs : Astray s) (hsems : t.sems = s.sems) (hkey : t.semKey = s.semKey)
    (hwriter : t.writer = s.writer) (hshm : t.shmKey = s.shmKey)
    (hget : t.reader = .get → s.semKey = some t.readerSemId) (hwaiting : t.reader.consumer = .idle)
    (hfailed : t.reader = .failed → s.writer.leaving = true) : Astray t := by
  obtain ⟨id, hne, hid, hset, -⟩ := hs.sems
  refine ⟨⟨id, hne, hkey.trans hid, hsems ▸ hset, fun hr => ?_⟩, hwaiting, ?_, ?_⟩
  · exact Option.some.inj ((hget hr).symm.trans hid)
  · rw [hwriter, hshm]
    exact hs.shmKey
  · rw [hwriter]
    exact hfailed

/-- Nobody posts on the reader's set. -/
theorem Astray.blocked (hs : Astray s) (hr : s.reader = .get) :
    SharedMemory.readerStep s = none := by
  obtain ⟨id, -, -, hset, hget⟩ := hs.sems
  simp only [SharedMemory.readerStep, hr, hget hr]
  rw [SemSets.take_of_zero hset rfl]
  rfl

theorem Astray.readerStep (hs : Astray s) (h : readerStep s = some t) : Astray t := by
  have hwaiting := hs.waiting
  cases hr : s.reader <;> rw [hr] at hwaiting
  case get => cases (hs.blocked hr).symm.trans h
  case shmget =>
    simp only [SharedMemory.readerStep, hr] at h
    cases h
    by_cases hkey : s.shmKey = true
    · rw [if_pos hkey]
      exact hs.reads rfl rfl rfl rfl (fun hr => by cases hr) rfl (fun hr => by cases hr)
    · rw [if_neg hkey]
      exact hs.reads rfl rfl rfl rfl (fun hr => by cases hr) rfl fun _ =>
        hs.shmKey (Bool.eq_false_iff.mpr hkey)
  case semget =>
    obtain ⟨id, -, hid, -, -⟩ := hs.sems
    simp only [SharedMemory.readerStep, hr, hid] at h
    cases h
    exact hs.reads rfl hid.symm rfl rfl (fun _ => hid) rfl (fun hr => by cases hr)
  case testLength | addNum | write | put | finished => cases hwaiting
  all_goals
    rw [SharedMemory.readerStep, hr] at h
    cases h

theorem Astray.step {a : Label} (hs : Astray s) (ha : Served s a) (h : step s a = some t) :
    Astray t := by
  cases a with
  | writerCall ok =>
    have hE := writerEffect_writerCall h
    refine hs.of_writerEffect hE (fun hw => ?_) fun hfalse => ?_
    · cases hpc : s.writer <;> rw [hpc] at hw <;>
        simp only [SharedMemory.step, SharedMemory.writerCall, hpc] at h
      all_goals cases hw <;> cases h
    · cases hpc : s.writer <;> simp only [SharedMemory.step, SharedMemory.writerCall, hpc] at h
      case shmget => cases ok <;> cases h <;> first | exact .inr rfl | cases hfalse
      case shmat | openFile => cases ok <;> cases h <;> exact .inl hfalse
      all_goals cases h
  | semget id =>
    obtain ⟨key, -, hkey, -⟩ := hs.sems
    simp only [SharedMemory.step, writerSemget] at h
    split at h
    · cases id with
      | none =>
        cases h
        rename_i hw
        obtain ⟨key, hne, hkey, hset, hget⟩ := hs.sems
        refine ⟨⟨key, hne, hkey, hset, hget⟩, hs.waiting, fun hfalse => ?_, fun hfail => ?_⟩
        · cases (congrArg WriterPc.leaving hw).symm.trans (hs.shmKey hfalse)
        · cases (congrArg WriterPc.leaving hw).symm.trans (hs.failed hfail)
      | some id =>
        simp only [hkey, reduceCtorEq, false_and, if_false] at h
    · cases h
  | writer => exact hs.writerStep h
  | readerStart =>
    simp only [SharedMemory.step, Option.ite_none_right_eq_some, Option.some.injEq] at h
    obtain ⟨-, rfl⟩ := h
    exact hs.reads rfl rfl rfl rfl (fun hr => by cases hr) rfl (fun hr => by cases hr)
  | readerShmat ok =>
    simp only [SharedMemory.step, SharedMemory.readerShmat] at h
    split at h
    · cases ok with
      | true =>
        cases h
        exact hs.reads rfl rfl rfl rfl (fun hr => by cases hr) rfl (fun hr => by cases hr)
      | false =>
        cases h
        exact hs.reads rfl rfl rfl rfl (fun hr => by cases hr) rfl fun _ =>
          hs.shmKey (ha.resolve_left Bool.false_ne_true)
    · cases h
  | reader => exact hs.readerStep h

/-- The initialisation is not taken back. -/
theorem initialised_of_step {a : Label} (hs : s.initialised = true) (h : step s a = some t) :
    t.initialised = true := by
  cases a with
  | writerCall ok =>
    cases hpc : s.writer <;> simp only [step, writerCall, hpc] at h
    case shmget => cases ok <;> cases h <;> exact hs
    all_goals cases h <;> exact hs
  | semget id =>
    simp only [step, writerSemget] at h
    split at h
    · cases id with
      | none =>
        cases h
        exact hs
      | some id =>
        simp only [Option.ite_none_right_eq_some, Option.some.injEq] at h
        obtain ⟨-, rfl⟩ := h
        exact hs
    · cases h
  | writer =>
    cases hpc : s.writer <;> simp only [step, writerStep, hpc] at h
    case initRead | initWrite =>
      unfold mutexInit at h
      split at h <;> cases h <;> first | exact hs | rfl
    case get | put | putEnd =>
      unfold writerSemop at h
      split at h <;> cases h <;> exact hs
    case read => split at h <;> cases h <;> exact hs
    all_goals cases h <;> exact hs
  | readerStart =>
    simp only [step, Option.ite_none_right_eq_some, Option.some.injEq] at h
    obtain ⟨-, rfl⟩ := h
    exact hs
  | readerShmat ok =>
    simp only [step, readerShmat] at h
    repeat' split at h
    all_goals cases h <;> exact hs
  | reader =>
    cases hpc : s.reader <;> simp only [step, readerStep, hpc] at h
    case get | put =>
      unfold readerSemop at h
      split at h <;> cases h <;> exact hs
    case semget => split at h <;> cases h <;> exact hs
    all_goals cases h <;> exact hs

/-- The reader waits, and nobody posts on its semaphore. -/
def Waiting (s : State) : Prop := Astray s ∧ s.reader = .get

theorem Waiting.step {a : Label} (hs : Waiting s) (ha : Served s a)
    (h : SharedMemory.step s a = some t) : Waiting t := by
  refine ⟨hs.1.step ha h, ?_⟩
  cases a with
  | writerCall ok => exact (writerEffect_writerCall h).reader.trans hs.2
  | semget id =>
    simp only [SharedMemory.step, writerSemget] at h
    split at h
    · cases id with
      | none =>
        cases h
        exact hs.2
      | some id =>
        simp only [Option.ite_none_right_eq_some, Option.some.injEq] at h
        obtain ⟨-, rfl⟩ := h
        exact hs.2
    · cases h
  | writer => exact (writerEffect_writerStep h).reader.trans hs.2
  | readerStart =>
    simp only [SharedMemory.step, hs.2, reduceCtorEq, false_and, if_false] at h
  | readerShmat ok =>
    simp only [SharedMemory.step, SharedMemory.readerShmat, hs.2, reduceCtorEq, if_false] at h
  | reader => cases (hs.1.blocked hs.2).symm.trans h

/-- The reader waits on the semaphore, however the run goes on. -/
def WaitsForEver (results : List ReadResult) (s : State) : Prop :=
  ∀ as t, ((machine results).restrict Served).run s as = some t → t.reader = .get

theorem Waiting.forever (results : List ReadResult) (hs : Waiting s) : WaitsForEver results s := by
  have hstep : ∀ s a t, Waiting s →
      ((machine results).restrict Served).step s a = some t → Waiting t := by
    intro s a t hs hst
    obtain ⟨ha, hst⟩ := Machine.restrict_step_eq_some_iff.mp hst
    exact hs.step ha hst
  intro as t hrun
  exact (Machine.run_keeps hstep (fun s a t hs _ => hstep s a t hs) as hs hs hrun).2

/-- While the writer is at work, a reader that is astray can come to wait. -/
theorem Astray.exists_waiting (results : List ReadResult) (hs : Astray s)
    (hw : s.writer.working = true) (hinit : s.initialised = true) :
    ∃ as t, ((machine results).restrict Served).run s as = some t ∧ Waiting t := by
  by_cases hget : s.reader = .get
  · exact ⟨[], s, rfl, hs, hget⟩
  refine Machine.exists_run_of_measure
    (I := fun s => (Astray s ∧ s.reader ≠ .get) ∧ s.writer.working = true ∧ s.initialised = true)
    (fun s => s.reader.rank) (fun s hI => ?_) ⟨⟨hs, hget⟩, hw, hinit⟩
  obtain ⟨⟨hs, hget⟩, hw, hinit⟩ := hI
  have hleaving := WriterPc.leaving_of_working hw
  have hkey : s.shmKey = true := by
    by_contra hkey
    cases hleaving.symm.trans (hs.shmKey (Bool.eq_false_iff.mpr hkey))
  have hwaiting := hs.waiting
  cases hr : s.reader <;> rw [hr] at hwaiting
  case get => exact absurd hr hget
  case failed => cases hleaving.symm.trans (hs.failed hr)
  case notStarted =>
    have hst : SharedMemory.step s .readerStart = some { s with reader := .shmget } :=
      if_pos ⟨hr, hinit⟩
    exact ⟨.readerStart, _, Machine.restrict_step_eq_some_iff.mpr ⟨trivial, hst⟩,
      .inr ⟨⟨⟨hs.step (a := .readerStart) trivial hst, fun hr => by cases hr⟩, hw, hinit⟩,
        Nat.lt_add_one 10⟩⟩
  case shmget =>
    have hst : SharedMemory.step s .reader = some { s with reader := .shmat } := by
      simp only [SharedMemory.step, SharedMemory.readerStep, hr, hkey, if_true]
    exact ⟨.reader, _, Machine.restrict_step_eq_some_iff.mpr ⟨trivial, hst⟩,
      .inr ⟨⟨⟨hs.step (a := .reader) trivial hst, fun hr => by cases hr⟩, hw, hinit⟩,
        Nat.lt_add_one 9⟩⟩
  case shmat =>
    have hst : SharedMemory.step s (.readerShmat true) = some { s with reader := .semget } := by
      rw [SharedMemory.step, SharedMemory.readerShmat, if_pos hr, if_pos rfl]
    exact ⟨.readerShmat true, _, Machine.restrict_step_eq_some_iff.mpr ⟨.inl rfl, hst⟩,
      .inr ⟨⟨⟨hs.step (a := .readerShmat true) (.inl rfl) hst, fun hr => by cases hr⟩, hw, hinit⟩,
        Nat.lt_add_one 8⟩⟩
  case semget =>
    obtain ⟨id, -, hid, -, -⟩ := hs.sems
    have hst : SharedMemory.step s .reader = some { s with readerSemId := id, reader := .get } := by
      simp only [SharedMemory.step, SharedMemory.readerStep, hr, hid]
    exact ⟨.reader, _, Machine.restrict_step_eq_some_iff.mpr ⟨trivial, hst⟩,
      .inl ⟨hs.step (a := .reader) trivial hst, rfl⟩⟩
  all_goals cases hwaiting

/-! ## When the two come to their end -/

/-- The last step of the initialisation. -/
theorem Setup.initWrite {results : List ReadResult} (hS : Setup results s)
    (hw : s.writer = .initWrite) (h : writerStep s = some t) :
    Setup results t ∨ Shared t ∨ Astray t ∧ t.initialised = true := by
  have ho := hS.writer
  rw [hw] at ho
  obtain ⟨⟨hkey, -⟩, id, hid, hsems⟩ := ho
  simp only [SharedMemory.writerStep, hw, mutexInit, Option.some.injEq] at h
  split at h <;> subst h
  · have hset := setVal_keyed hsems MUTEX_WRITE 1
    have hnot : s.shmKey ≠ false := by simp [hkey]
    by_cases hne : id = semId
    · rw [if_pos hne, hne] at hset
      rw [hne] at hid
      refine .inr (.inl ⟨rfl, .inl rfl, fun h => absurd h hnot, ?_, ?_, ?_, .inl ⟨0, 1, [],
        hset, hid, ?_, ?_, fun _ => rfl, ?_⟩⟩)
      · rintro (h | h) <;> cases h
      · simp [hS.reader, ReaderPc.atSems]
      · simp [hS.reader]
      · simp [hS.reader, WriterPc.holds, ReaderPc.holds]
      · exact fun success hexit => by cases hexit
      · exact fun hget => by cases hget
    · rw [if_neg hne] at hset
      refine .inr (.inr ⟨⟨⟨id, hne, hid, hset, ?_⟩, ?_, fun h => absurd h hnot, ?_⟩, rfl⟩)
      · simp [hS.reader]
      · simp [hS.reader, ReaderPc.consumer]
      · simp [hS.reader]
  · exact .inl { hS with writer := trivial }

/-- Until its last step the initialisation goes on. -/
theorem Setup.writerStep {results : List ReadResult} (hS : Setup results s)
    (h : writerStep s = some t) :
    Setup results t ∨ Shared t ∨ Astray t ∧ t.initialised = true := by
  have ho := hS.writer
  cases hw : s.writer <;> rw [hw] at ho
  case initRead => exact .inl (setup_writerInitRead hS hw h)
  case initWrite => exact hS.initWrite hw h
  case onExitShm success | onExitSem success =>
    cases success with
    | true => exact ho.elim
    | false =>
      simp only [SharedMemory.writerStep, hw] at h
      cases h
      exact .inl { hS with writer := trivial }
  case shmget | shmat | semget | exited =>
    rw [SharedMemory.writerStep, hw] at h
    cases h
  all_goals exact ho.elim

theorem stage_of_reachable {results : List ReadResult}
    (h : ((machine results).restrict Served).Reachable s) :
    Setup results s ∨ Shared s ∨ Astray s ∧ s.initialised = true := by
  refine h.invariant
    (I := fun s => Setup results s ∨ Shared s ∨ Astray s ∧ s.initialised = true)
    (fun s hs => ?_) fun s a t hI hst => ?_
  · exact .inl ⟨hs.reads, hs.chunks, hs.out, hs.reader, hs.initialised, by rw [hs.writer]; trivial⟩
  obtain ⟨ha, hst⟩ := Machine.restrict_step_eq_some_iff.mp hst
  rcases hI with hS | hs | ⟨hs, hinit⟩
  · cases a with
    | writerCall ok => exact .inl (setup_writerCall hS hst)
    | semget id => exact .inl (setup_writerSemget ha hS hst)
    | writer => exact hS.writerStep hst
    | readerStart => simp [machine, SharedMemory.step, hS.initialised] at hst
    | readerShmat ok =>
      simp [machine, SharedMemory.step, SharedMemory.readerShmat, hS.reader] at hst
    | reader => simp [machine, SharedMemory.step, SharedMemory.readerStep, hS.reader] at hst
  · exact .inr (.inl (hs.step ha hst).1)
  · exact .inr (.inr ⟨hs.step ha hst, initialised_of_step hinit hst⟩)

theorem Ended.stuck {results : List ReadResult} (hs : Ended s) :
    Machine.Stuck ((machine results).restrict Served) s := by
  obtain ⟨⟨success, hw⟩, hr⟩ := hs
  intro a
  refine Option.eq_none_iff_forall_ne_some.mpr fun t hst => ?_
  have h := (Machine.restrict_step_eq_some_iff.mp hst).2
  rcases hr with hr | hr <;> cases a <;>
    simp [machine, SharedMemory.step, SharedMemory.writerCall, writerSemget,
      SharedMemory.writerStep, SharedMemory.readerShmat, SharedMemory.readerStep, hw, hr] at h

/-- **When the transfer comes to its end.**  For every list of results of `read` and all results of
the other calls that `Served` admits, in every state in which the writer is in its loop or before
it: all runs come to the end of both programs exactly if the set that has the key is the one that
the writer works on; otherwise a run leads to a reader that waits for ever. -/
theorem ends_iff {results : List ReadResult} (h : ((machine results).restrict Served).Reachable s)
    (hw : s.writer.working = true) :
    (((machine results).restrict Served).Inevitable Ended s ↔ s.semKey = some semId) ∧
      (s.semKey ≠ some semId →
        ∃ as t, ((machine results).restrict Served).run s as = some t ∧
          WaitsForEver results t) := by
  rcases stage_of_reachable h with hS | hs | ⟨hs, hinit⟩
  · have ho := hS.writer
    cases hpc : s.writer <;> rw [hpc] at ho hw <;> first | exact ho.elim | cases hw
  · obtain ⟨full, empty, rest, hheld⟩ := hs.held hw
    exact ⟨iff_of_true hs.inevitable hheld.key, fun hkey => absurd hheld.key hkey⟩
  · obtain ⟨as, t, hrun, hwaiting⟩ := hs.exists_waiting results hw hinit
    refine ⟨iff_of_false (fun hend => ?_) fun hkey => ?_,
      fun _ => ⟨as, t, hrun, hwaiting.forever results⟩⟩
    · -- a reader that waits for ever is at no end
      have hinev := hend.run (fun _ hend => hend.stuck) as hrun
      refine Machine.Inevitable.not_of_invariant
        (I := fun s => WaitsForEver results s) (fun s a t hs hst => ?_) (fun s hs hend => ?_)
        (hwaiting.forever results) hinev
      · intro as u hrun
        exact hs (a :: as) u (Option.bind_eq_some_iff.mpr ⟨t, hst, hrun⟩)
      · rcases hend.2 with hr | hr <;> cases (hs [] s rfl).symm.trans hr
    · obtain ⟨id, hne, hid, -⟩ := hs.sems
      exact hne (Option.some.inj (hid.symm.trans hkey))

/-- The kernel gives the identifier 7, and the writer has opened the file. -/
theorem ends_iff_seven : ∃ s, ((machine [.data [7]]).restrict Served).Reachable s ∧
    s.writer.working = true ∧
      ((((machine [.data [7]]).restrict Served).Inevitable Ended s ↔ s.semKey = some semId) ∧
        (s.semKey ≠ some semId →
          ∃ as t, ((machine [.data [7]]).restrict Served).run s as = some t ∧
            WaitsForEver [.data [7]] t)) ∧
        s.semKey = some 7 := by
  have hrun := (Machine.Reachable.init (M := (machine [.data [7]]).restrict Served)
    (s := { start [.data [7]] with sems := Function.update (fun _ => none) semId (some [0, 0]) })
    ⟨rfl, rfl, rfl, rfl, rfl, rfl, rfl⟩).run
    [.writerCall true, .writerCall true, .semget (some 7), .writer, .writer, .writerCall true] rfl
  exact ⟨_, hrun, rfl, ends_iff hrun rfl, rfl⟩

end SharedMemory
end CodeStrudy
