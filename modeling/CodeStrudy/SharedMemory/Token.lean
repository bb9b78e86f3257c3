import CodeStrudy.SharedMemory.Programs

/-!
# The transfer over shared memory: the token

When the writer and the reader work on one semaphore set, its two semaphores and the two programs
have one token between them: it is posted to the reader, or to the writer, or one of the two holds
it.  `Shared` says where it is and what this means for the segment.  It is kept by every step of the
two, failures included, and every step makes the rest of the run smaller (`Shared.writerStep`,
`Shared.readerStep`).
-/

namespace CodeStrudy
namespace SharedMemory

open Foundation

/-! ## The token -/

/-- The writer has taken the token. -/
def WriterPc.holds : WriterPc → Bool
  | .read | .store | .testLength | .addNum | .put | .putEnd => true
  | _ => false

/-- The reader has taken the token; it keeps it when it has seen the end. -/
def ReaderPc.holds : ReaderPc → Bool
  | .testLength | .addNum | .write | .put | .finished => true
  | _ => false

/-- The writer is in its loop, or about to be. -/
def WriterPc.working : WriterPc → Bool
  | .openFile | .get => true
  | pc => pc.holds

/-- The writer is on its way out. -/
def WriterPc.leaving : WriterPc → Bool
  | .shmRmid | .semRmid | .onExitShm _ | .onExitSem _ | .exited _ => true
  | _ => false

/-- The reader uses its `semId`. -/
def ReaderPc.atSems : ReaderPc → Bool
  | .get | .testLength | .addNum | .write | .put => true
  | _ => false

/-- The set of the two semaphores exists, and the one token is in it or with one of the two. -/
structure Held (s : State) (full empty : ℕ) (rest : List ℕ) : Prop where
  set : s.sems semId = some (full :: empty :: rest)
  key : s.semKey = some semId
  one : full + empty + s.writer.holds.toNat + s.reader.holds.toNat = 1
  notExited : ∀ success, s.writer ≠ .exited success
  openFile : s.writer = .openFile → empty = 1
  get : s.writer = .get → empty = 0 → s.shm.length ≠ 0

/-- The writer has removed the set. -/
structure Removed (s : State) : Prop where
  set : s.sems semId = none
  key : s.semKey = none
  leaving : s.writer.leaving = true

/-- The writer and the reader use one set. -/
structure Shared (s : State) : Prop where
  initialised : s.initialised = true
  placed : s.writer.working = true ∨ s.writer.leaving = true
  shmKey : s.shmKey = false → s.writer.leaving = true
  tested : s.writer = .addNum ∨ s.writer = .put → s.shm.length ≠ 0
  readerSemId : s.reader.atSems = true → s.readerSemId = semId
  ended : s.reader = .finished ∨ s.reader = .failed → s.writer.leaving = true
  token : (∃ full empty rest, Held s full empty rest) ∨ Removed s

/-! ## The rest of a run -/

/-- How far the writer is from its end, with no results of `read` to come but the one it has. -/
def State.writerRank (s : State) : ℕ :=
  match s.writer with
  | .openFile => 17
  | .get => 16
  | .read => 15
  | .store => if s.readRet = 0 then 14 else 26
  | .testLength => if s.shm.length = 0 then 13 else 25
  | .addNum => 24
  | .put => 23
  | .putEnd => 12
  | .shmRmid => 5
  | .semRmid => 4
  | .onExitShm _ => 3
  | .onExitSem _ => 2
  | _ => 0

/-- How far the reader is from its next `mutextGet`, or from its first one. -/
def ReaderPc.rank : ReaderPc → ℕ
  | .notStarted => 11
  | .shmget => 10
  | .shmat => 9
  | .semget => 8
  | .testLength => 6
  | .addNum => 5
  | .write => 4
  | .put => 3
  | .get => 1
  | .finished | .failed => 0

/-- How many rounds of the reader are posted. -/
def posted (k : SemSets) : ℕ := (k.value semId MUTEX_READ).getD 0

/-- How far it is to the end of both. -/
def State.rest (s : State) : ℕ :=
  20 * s.reads.length + s.writerRank + 6 * posted s.sems + s.reader.rank

variable {s t : State}

theorem posted_of_eq {k : SemSets} {full : ℕ} {rest : List ℕ} (h : k semId = some (full :: rest)) :
    posted k = full := by
  rw [posted, SemSets.value_of_eq h]
  rfl

theorem posted_of_removed {k : SemSets} (h : k semId = none) : posted k = 0 := by
  rw [posted, SemSets.value, h]
  rfl

theorem rest_lt_of_writer (hreads : t.reads = s.reads) (hreader : t.reader = s.reader)
    (h : t.writerRank + 6 * posted t.sems < s.writerRank + 6 * posted s.sems) :
    t.rest < s.rest := by
  rw [State.rest, State.rest, hreads, hreader]
  omega

theorem setVal_full {k : SemSets} {full empty : ℕ} {rest : List ℕ}
    (h : k semId = some (full :: empty :: rest)) (v : ℕ) :
    k.setVal semId MUTEX_READ v semId = some (v :: empty :: rest) := by
  rw [SemSets.setVal_self, h]
  rfl

theorem setVal_empty {k : SemSets} {full empty : ℕ} {rest : List ℕ}
    (h : k semId = some (full :: empty :: rest)) (v : ℕ) :
    k.setVal semId MUTEX_WRITE v semId = some (full :: v :: rest) := by
  rw [SemSets.setVal_self, h]
  rfl

theorem WriterPc.leaving_of_working {pc : WriterPc} (h : pc.working = true) :
    pc.leaving = false := by
  cases pc <;> first | rfl | cases h

/-- A writer at work finds the set. -/
theorem Shared.held (hs : Shared s) (hw : s.writer.working = true) :
    ∃ full empty rest, Held s full empty rest := by
  rcases hs.token with h | h
  · exact h
  · cases (WriterPc.leaving_of_working hw).symm.trans h.leaving

/-- A step of the writer that stays at work. -/
theorem Shared.work (hs : Shared s) (hw : s.writer.working = true)
    (hinit : t.initialised = s.initialised) (hkey : t.shmKey = s.shmKey)
    (hreader : t.reader = s.reader) (hid : t.readerSemId = s.readerSemId)
    (hworking : t.writer.working = true)
    (htested : t.writer = .addNum ∨ t.writer = .put → t.shm.length ≠ 0)
    {full empty : ℕ} {rest : List ℕ} (hheld : Held t full empty rest) : Shared t where
  initialised := hinit.trans hs.initialised
  placed := .inl hworking
  shmKey h := by
    cases (WriterPc.leaving_of_working hw).symm.trans (hs.shmKey (hkey.symm.trans h))
  tested := htested
  readerSemId h := hid.trans (hs.readerSemId (hreader ▸ h))
  ended h := by
    cases (WriterPc.leaving_of_working hw).symm.trans (hs.ended (hreader ▸ h))
  token := .inl ⟨full, empty, rest, hheld⟩

/-- A step of the writer on its way out. -/
theorem Shared.leave (hs : Shared s) (hinit : t.initialised = s.initialised)
    (hreader : t.reader = s.reader) (hid : t.readerSemId = s.readerSemId)
    (hleaving : t.writer.leaving = true)
    (htoken : (∃ full empty rest, Held t full empty rest) ∨ Removed t) : Shared t where
  initialised := hinit.trans hs.initialised
  placed := .inr hleaving
  shmKey _ := hleaving
  tested h := by rcases h with h | h <;> rw [h] at hleaving <;> cases hleaving
  readerSemId h := hid.trans (hs.readerSemId (hreader ▸ h))
  ended _ := hleaving
  token := htoken

/-! ## The steps of the writer -/

theorem Shared.writerCall {ok : Bool} (hs : Shared s) (h : writerCall s ok = some t) :
    Shared t ∧ t.rest < s.rest := by
  have hplaced := hs.placed
  cases hw : s.writer <;> rw [hw] at hplaced <;>
    simp only [SharedMemory.writerCall, hw] at h <;> try cases h
  case shmget | shmat => rcases hplaced with hp | hp <;> cases hp
  case openFile =>
    obtain ⟨full, empty, rest, hheld⟩ := hs.held (by rw [hw]; rfl)
    have hone := hheld.one
    rw [hw] at hone
    cases ok with
    | true =>
      refine ⟨hs.work (by rw [hw]; rfl) rfl rfl rfl rfl rfl nofun
        (Held.mk hheld.set hheld.key hone nofun nofun fun _ hempty => ?_), ?_⟩
      · cases (hheld.openFile hw).symm.trans hempty
      · simp only [State.rest, State.writerRank, hw, if_true]
        omega
    | false =>
      refine ⟨hs.leave rfl rfl rfl rfl
        (.inl ⟨full, empty, rest, hheld.set, hheld.key, hone, nofun, nofun, nofun⟩), ?_⟩
      simp only [State.rest, State.writerRank, hw, Bool.false_eq_true, if_false]
      omega

/-- The writer takes the token, or waits. -/
theorem Shared.writerGet (hs : Shared s) (hw : s.writer = .get) (h : writerStep s = some t) :
    Shared t ∧ t.rest < s.rest := by
  obtain ⟨full, empty, rest, hheld⟩ := hs.held (by rw [hw]; rfl)
  have hone := hheld.one
  rw [hw] at hone
  simp only [SharedMemory.writerStep, hw] at h
  rcases empty with - | empty
  · rw [SemSets.take_of_zero hheld.set rfl] at h
    cases h
  · rw [SemSets.take_of_succ hheld.set (v := empty) rfl] at h
    cases h
    have hset := setVal_empty hheld.set empty
    refine ⟨hs.work (by rw [hw]; rfl) rfl rfl rfl rfl rfl nofun
      (Held.mk hset hheld.key ?_ nofun nofun nofun), ?_⟩
    · simp only [WriterPc.holds, Bool.toNat_false, Bool.toNat_true] at hone ⊢
      omega
    simp only [State.rest, posted_of_eq hset, posted_of_eq hheld.set, State.writerRank, hw]
    omega

/-- The writer gives the token to the reader, and goes on or leaves. -/
theorem Shared.writerPut (hs : Shared s) {pc : WriterPc}
    (hw : s.writer = .put ∧ pc = .get ∨ s.writer = .putEnd ∧ pc = .shmRmid)
    (h : writerSemop s (s.sems.give semId MUTEX_READ) pc = some t) :
    Shared t ∧ t.rest < s.rest := by
  have hworking : s.writer.working = true := by rcases hw with ⟨hw, -⟩ | ⟨hw, -⟩ <;> rw [hw] <;> rfl
  obtain ⟨full, empty, rest, hheld⟩ := hs.held hworking
  have hone := hheld.one
  rw [SemSets.give_of_eq hheld.set (v := full) rfl] at h
  cases h
  have hset := setVal_full hheld.set (full + 1)
  rcases hw with ⟨hw, rfl⟩ | ⟨hw, rfl⟩ <;> rw [hw] at hone <;>
    simp only [WriterPc.holds, Bool.toNat_true] at hone
  · refine ⟨hs.work hworking rfl rfl rfl rfl rfl nofun
      (Held.mk hset hheld.key (by simp only [WriterPc.holds, Bool.toNat_false]; omega) nofun
        nofun fun _ _ => hs.tested (.inr hw)), ?_⟩
    simp only [State.rest, posted_of_eq hset, posted_of_eq hheld.set, State.writerRank, hw]
    omega
  · refine ⟨hs.leave rfl rfl rfl rfl (.inl ⟨_, _, _,
      Held.mk hset hheld.key (by simp only [WriterPc.holds, Bool.toNat_false]; omega) nofun
        nofun nofun⟩), ?_⟩
    simp only [State.rest, posted_of_eq hset, posted_of_eq hheld.set, State.writerRank, hw]
    omega

/-- What the writer does with the token. -/
theorem Shared.writerHolding (hs : Shared s)
    (hw : s.writer = .read ∨ s.writer = .store ∨ s.writer = .testLength ∨ s.writer = .addNum)
    (h : writerStep s = some t) : Shared t ∧ t.rest < s.rest := by
  have hworking : s.writer.working = true := by rcases hw with hw | hw | hw | hw <;> rw [hw] <;> rfl
  obtain ⟨full, empty, rest, hheld⟩ := hs.held hworking
  have hone := hheld.one
  have hmoved : ∀ {u : State}, u.sems = s.sems → u.semKey = s.semKey → u.reader = s.reader →
      u.writer.holds = true → Held u full empty rest := by
    intro u hsems hkey hreader hholds
    refine ⟨hsems ▸ hheld.set, hkey.trans hheld.key, ?_, ?_, ?_, ?_⟩
    · rw [hholds, hreader]
      rcases hw with hw | hw | hw | hw <;> rw [hw] at hone <;> exact hone
    · intro success hexited
      rw [hexited] at hholds
      cases hholds
    · intro hopen
      rw [hopen] at hholds
      cases hholds
    · intro hget
      rw [hget] at hholds
      cases hholds
  rcases hw with hw | hw | hw | hw <;> simp only [SharedMemory.writerStep, hw] at h
  · split at h <;> cases h
    · refine ⟨hs.work hworking rfl rfl rfl rfl rfl nofun (hmoved rfl rfl rfl rfl), ?_⟩
      simp only [State.rest, State.writerRank, hw, if_true]
      omega
    · rename_i bs rs hreads
      refine ⟨hs.work hworking rfl rfl rfl rfl rfl nofun (hmoved rfl rfl rfl rfl), ?_⟩
      simp only [State.rest, State.writerRank, hw, hreads, List.length_cons]
      split <;> omega
    · rename_i rs hreads
      refine ⟨hs.work hworking rfl rfl rfl rfl rfl nofun (hmoved rfl rfl rfl rfl), ?_⟩
      simp only [State.rest, State.writerRank, hw, hreads, List.length_cons]
      split <;> omega
  · cases h
    refine ⟨hs.work hworking rfl rfl rfl rfl rfl nofun (hmoved rfl rfl rfl rfl), ?_⟩
    simp only [State.rest, State.writerRank, hw]
    split <;> omega
  · cases h
    by_cases hlen : s.shm.length = 0
    · rw [if_pos hlen]
      refine ⟨hs.work hworking rfl rfl rfl rfl rfl nofun (hmoved rfl rfl rfl rfl), ?_⟩
      simp only [State.rest, State.writerRank, hw, hlen, if_true]
      omega
    · rw [if_neg hlen]
      refine ⟨hs.work hworking rfl rfl rfl rfl rfl (fun _ => hlen) (hmoved rfl rfl rfl rfl), ?_⟩
      simp only [State.rest, State.writerRank, hw, hlen, if_false]
      omega
  · cases h
    refine ⟨hs.work hworking rfl rfl rfl rfl rfl (fun _ => hs.tested (.inl hw))
      (hmoved rfl rfl rfl rfl), ?_⟩
    simp only [State.rest, State.writerRank, hw]
    omega

/-- The writer on its way out. -/
theorem Shared.writerLeaving (hs : Shared s) (hw : s.writer.leaving = true)
    (h : writerStep s = some t) : Shared t ∧ t.rest < s.rest := by
  have hremoved : ∀ {u : State}, u.sems = s.removeSem.sems → u.semKey = s.removeSem.semKey →
      u.writer.leaving = true → Removed u := by
    intro u hsems hkey hleaving
    refine ⟨?_, hkey.trans ?_, hleaving⟩
    · rw [hsems]
      show s.sems.remove semId semId = none
      exact SemSets.remove_self
    · show (if s.semKey = some semId then none else s.semKey) = none
      rcases hs.token with ⟨full, empty, rest, hheld⟩ | hrem
      · exact if_pos hheld.key
      · rw [hrem.key, if_neg nofun]
  have hkept : ∀ {u : State}, u.sems = s.sems → u.semKey = s.semKey → u.reader = s.reader →
      u.writer.leaving = true → (∀ success, u.writer ≠ .exited success) →
      (∃ full empty rest, Held u full empty rest) ∨ Removed u := by
    intro u hsems hkey hreader hleaving hnot
    rcases hs.token with ⟨full, empty, rest, hheld⟩ | hrem
    · refine .inl ⟨full, empty, rest, hsems ▸ hheld.set, hkey.trans hheld.key, ?_, hnot, ?_, ?_⟩
      · have hnone : ∀ {pc : WriterPc}, pc.leaving = true → pc.holds = false := by
          intro pc hpc
          cases pc <;> first | rfl | cases hpc
        rw [hnone hleaving, hreader, ← hnone hw]
        exact hheld.one
      · intro hopen
        rw [hopen] at hleaving
        cases hleaving
      · intro hget
        rw [hget] at hleaving
        cases hleaving
    · exact .inr ⟨hsems ▸ hrem.set, hkey.trans hrem.key, hleaving⟩
  cases hpc : s.writer <;> rw [hpc] at hw <;> try cases hw
  case shmRmid =>
    simp only [SharedMemory.writerStep, hpc] at h
    cases h
    refine ⟨hs.leave rfl rfl rfl rfl (hkept rfl rfl rfl rfl nofun), ?_⟩
    simp only [State.rest, State.writerRank, hpc]
    omega
  case semRmid =>
    simp only [SharedMemory.writerStep, hpc] at h
    cases h
    have hrem := hremoved (u := { s.removeSem with writer := .onExitShm true }) rfl rfl rfl
    refine ⟨hs.leave rfl rfl rfl rfl (.inr hrem), rest_lt_of_writer rfl rfl ?_⟩
    rw [posted_of_removed hrem.set]
    simp only [State.writerRank, hpc]
    omega
  case onExitShm success =>
    simp only [SharedMemory.writerStep, hpc] at h
    cases h
    refine ⟨hs.leave rfl rfl rfl rfl (hkept rfl rfl rfl rfl nofun), ?_⟩
    simp only [State.rest, State.writerRank, hpc]
    omega
  case onExitSem success =>
    simp only [SharedMemory.writerStep, hpc] at h
    cases h
    have hrem := hremoved (u := { s.removeSem with writer := .exited success }) rfl rfl rfl
    refine ⟨hs.leave rfl rfl rfl rfl (.inr hrem), rest_lt_of_writer rfl rfl ?_⟩
    rw [posted_of_removed hrem.set]
    simp only [State.writerRank, hpc]
    omega
  case exited success =>
    simp only [SharedMemory.writerStep, hpc] at h
    cases h

theorem Shared.writerStep (hs : Shared s) (h : writerStep s = some t) :
    Shared t ∧ t.rest < s.rest := by
  rcases hs.placed with hworking | hleaving
  · cases hw : s.writer <;> rw [hw] at hworking
    case openFile =>
      rw [SharedMemory.writerStep, hw] at h
      cases h
    case get => exact hs.writerGet hw h
    case read => exact hs.writerHolding (.inl hw) h
    case store => exact hs.writerHolding (.inr (.inl hw)) h
    case testLength => exact hs.writerHolding (.inr (.inr (.inl hw))) h
    case addNum => exact hs.writerHolding (.inr (.inr (.inr hw))) h
    case put =>
      simp only [SharedMemory.writerStep, hw] at h
      exact hs.writerPut (.inl ⟨hw, rfl⟩) h
    case putEnd =>
      simp only [SharedMemory.writerStep, hw] at h
      exact hs.writerPut (.inr ⟨hw, rfl⟩) h
    all_goals cases hworking
  · exact hs.writerLeaving hleaving h

/-! ## The steps of the reader -/

theorem rest_lt_of_reader (hreads : t.reads = s.reads) (hrank : t.writerRank = s.writerRank)
    (h : 6 * posted t.sems + t.reader.rank < 6 * posted s.sems + s.reader.rank) :
    t.rest < s.rest := by
  rw [State.rest, State.rest, hreads, hrank]
  omega

/-- A step of the reader. -/
theorem Shared.reads (hs : Shared s) (hinit : t.initialised = s.initialised)
    (hwriter : t.writer = s.writer) (hkey : t.shmKey = s.shmKey) (hshm : t.shm = s.shm)
    (hid : t.reader.atSems = true → t.readerSemId = semId)
    (hended : t.reader = .finished ∨ t.reader = .failed → s.writer.leaving = true)
    (htoken : (∃ full empty rest, Held t full empty rest) ∨ Removed t) : Shared t where
  initialised := hinit.trans hs.initialised
  placed := hwriter ▸ hs.placed
  shmKey h := hwriter ▸ hs.shmKey (hkey.symm.trans h)
  tested h := hshm ▸ hs.tested (hwriter ▸ h)
  readerSemId := hid
  ended h := hwriter ▸ hended h
  token := htoken

/-- The token stays where it is. -/
theorem Shared.token_of_reader (hs : Shared s) (hsems : t.sems = s.sems)
    (hkey : t.semKey = s.semKey) (hwriter : t.writer = s.writer) (hshm : t.shm = s.shm)
    (hholds : t.reader.holds = s.reader.holds) :
    (∃ full empty rest, Held t full empty rest) ∨ Removed t := by
  rcases hs.token with ⟨full, empty, rest, hheld⟩ | hrem
  · refine .inl ⟨full, empty, rest, hsems ▸ hheld.set, hkey.trans hheld.key, ?_, ?_, ?_, ?_⟩
    · rw [hwriter, hholds]
      exact hheld.one
    · rw [hwriter]
      exact hheld.notExited
    · rw [hwriter]
      exact hheld.openFile
    · rw [hwriter, hshm]
      exact hheld.get
  · exact .inr ⟨hsems ▸ hrem.set, hkey.trans hrem.key, hwriter ▸ hrem.leaving⟩

theorem Shared.readerStart (hs : Shared s) (hr : s.reader = .notStarted) :
    Shared { s with reader := .shmget } ∧ State.rest { s with reader := .shmget } < s.rest := by
  refine ⟨hs.reads rfl rfl rfl rfl nofun nofun
    (hs.token_of_reader rfl rfl rfl rfl (by rw [hr]; rfl)), rest_lt_of_reader rfl rfl ?_⟩
  simp only [hr, ReaderPc.rank]
  omega

/-- The reader's `shmat` does not fail as long as the segment is there. -/
theorem Shared.readerShmat {ok : Bool} (hs : Shared s) (hok : ok = true ∨ s.shmKey = false)
    (h : readerShmat s ok = some t) : Shared t ∧ t.rest < s.rest := by
  unfold SharedMemory.readerShmat at h
  split at h
  case isFalse => cases h
  case isTrue hr =>
    cases ok with
    | true =>
      cases h
      refine ⟨hs.reads rfl rfl rfl rfl nofun nofun
        (hs.token_of_reader rfl rfl rfl rfl (by rw [hr]; rfl)), rest_lt_of_reader rfl rfl ?_⟩
      simp only [hr, if_true, ReaderPc.rank]
      omega
    | false =>
      have hkey : s.shmKey = false := hok.resolve_left Bool.false_ne_true
      cases h
      refine ⟨hs.reads rfl rfl rfl rfl nofun (fun _ => hs.shmKey hkey)
        (hs.token_of_reader rfl rfl rfl rfl (by rw [hr]; rfl)), rest_lt_of_reader rfl rfl ?_⟩
      simp only [hr, if_neg Bool.false_ne_true, ReaderPc.rank]
      omega

/-- The reader takes the token, or waits, or fails. -/
theorem Shared.readerGet (hs : Shared s) (hr : s.reader = .get) (h : readerStep s = some t) :
    Shared t ∧ t.rest < s.rest := by
  have hid := hs.readerSemId (by rw [hr]; rfl)
  simp only [readerStep, hr, hid] at h
  rcases hs.token with ⟨full, empty, rest, hheld⟩ | hrem
  · have hone := hheld.one
    rw [hr] at hone
    rcases full with - | full
    · rw [SemSets.take_of_zero hheld.set rfl] at h
      cases h
    · rw [SemSets.take_of_succ hheld.set (v := full) rfl] at h
      cases h
      have hset := setVal_full hheld.set full
      refine ⟨hs.reads rfl rfl rfl rfl (fun _ => hid) nofun (.inl ⟨full, empty, rest,
        Held.mk hset hheld.key ?_ hheld.notExited hheld.openFile hheld.get⟩),
        rest_lt_of_reader rfl rfl ?_⟩
      · simp only [ReaderPc.holds, Bool.toNat_false, Bool.toNat_true] at hone ⊢
        omega
      · rw [posted_of_eq hset, posted_of_eq hheld.set]
        simp only [hr, ReaderPc.rank]
        omega
  · rw [SemSets.take_of_eq_none hrem.set] at h
    cases h
    refine ⟨hs.reads rfl rfl rfl rfl nofun (fun _ => hrem.leaving)
      (.inr ⟨hrem.set, hrem.key, hrem.leaving⟩), rest_lt_of_reader rfl rfl ?_⟩
    simp only [hr, ReaderPc.rank]
    omega

/-- The reader gives the token back, or fails. -/
theorem Shared.readerPut (hs : Shared s) (hr : s.reader = .put) (h : readerStep s = some t) :
    Shared t ∧ t.rest < s.rest := by
  have hid := hs.readerSemId (by rw [hr]; rfl)
  simp only [readerStep, hr, hid] at h
  rcases hs.token with ⟨full, empty, rest, hheld⟩ | hrem
  · have hone := hheld.one
    rw [hr] at hone
    rw [SemSets.give_of_eq hheld.set (v := empty) rfl] at h
    cases h
    have hset := setVal_empty hheld.set (empty + 1)
    refine ⟨hs.reads rfl rfl rfl rfl (fun _ => hid) nofun (.inl ⟨full, empty + 1, rest,
      Held.mk hset hheld.key ?_ hheld.notExited (fun hopen => ?_) fun _ hempty => ?_⟩),
      rest_lt_of_reader rfl rfl ?_⟩
    · simp only [ReaderPc.holds, Bool.toNat_false, Bool.toNat_true] at hone ⊢
      omega
    · have hempty := hheld.openFile hopen
      simp only [ReaderPc.holds, Bool.toNat_true] at hone
      omega
    · cases hempty
    · rw [posted_of_eq hset, posted_of_eq hheld.set]
      simp only [hr, ReaderPc.rank]
      omega
  · rw [SemSets.give_of_eq_none hrem.set] at h
    cases h
    refine ⟨hs.reads rfl rfl rfl rfl nofun (fun _ => hrem.leaving)
      (.inr ⟨hrem.set, hrem.key, hrem.leaving⟩), rest_lt_of_reader rfl rfl ?_⟩
    simp only [hr, ReaderPc.rank]
    omega

/-- A reader that has the token and sees the end has been sent it by a writer on its way out. -/
theorem Shared.leaving_of_end (hs : Shared s) (hr : s.reader = .testLength)
    (hlen : s.shm.length = 0) : s.writer.leaving = true := by
  rcases hs.placed with hworking | hleaving
  · obtain ⟨full, empty, rest, hheld⟩ := hs.held hworking
    have hone := hheld.one
    rw [hr] at hone
    simp only [ReaderPc.holds, Bool.toNat_true] at hone
    cases hw : s.writer <;> rw [hw] at hone hworking <;>
      simp only [WriterPc.holds, Bool.toNat_true, Bool.toNat_false] at hone
    case openFile =>
      have hempty := hheld.openFile hw
      omega
    case get => exact absurd hlen (hheld.get hw (by omega))
    all_goals first | omega | cases hworking
  · exact hleaving

theorem Shared.readerStep (hs : Shared s) (h : readerStep s = some t) :
    Shared t ∧ t.rest < s.rest := by
  cases hr : s.reader
  case get => exact hs.readerGet hr h
  case put => exact hs.readerPut hr h
  case shmget =>
    simp only [SharedMemory.readerStep, hr] at h
    cases h
    by_cases hkey : s.shmKey = true
    · rw [if_pos hkey]
      refine ⟨hs.reads rfl rfl rfl rfl nofun nofun
        (hs.token_of_reader rfl rfl rfl rfl (by rw [hr]; rfl)), rest_lt_of_reader rfl rfl ?_⟩
      simp only [hr, ReaderPc.rank]
      omega
    · rw [if_neg hkey]
      refine ⟨hs.reads rfl rfl rfl rfl nofun (fun _ => hs.shmKey (Bool.eq_false_iff.mpr hkey))
        (hs.token_of_reader rfl rfl rfl rfl (by rw [hr]; rfl)), rest_lt_of_reader rfl rfl ?_⟩
      simp only [hr, ReaderPc.rank]
      omega
  case semget =>
    simp only [SharedMemory.readerStep, hr] at h
    rcases hs.token with ⟨full, empty, rest, hheld⟩ | hrem
    · rw [hheld.key] at h
      cases h
      refine ⟨hs.reads rfl rfl rfl rfl (fun _ => rfl) nofun
        (hs.token_of_reader rfl hheld.key.symm rfl rfl (by rw [hr]; rfl)),
        rest_lt_of_reader rfl rfl ?_⟩
      simp only [hr, ReaderPc.rank]
      omega
    · rw [hrem.key] at h
      cases h
      refine ⟨hs.reads rfl rfl rfl rfl nofun (fun _ => hrem.leaving)
        (hs.token_of_reader rfl hrem.key.symm rfl rfl (by rw [hr]; rfl)),
        rest_lt_of_reader rfl rfl ?_⟩
      simp only [hr, ReaderPc.rank]
      omega
  case testLength =>
    have hid := hs.readerSemId (by rw [hr]; rfl)
    simp only [SharedMemory.readerStep, hr] at h
    cases h
    by_cases hlen : s.shm.length = 0
    · rw [if_pos hlen]
      refine ⟨hs.reads rfl rfl rfl rfl nofun (fun _ => hs.leaving_of_end hr hlen)
        (hs.token_of_reader rfl rfl rfl rfl (by rw [hr]; rfl)), rest_lt_of_reader rfl rfl ?_⟩
      simp only [hr, ReaderPc.rank]
      omega
    · rw [if_neg hlen]
      refine ⟨hs.reads rfl rfl rfl rfl (fun _ => hid) nofun
        (hs.token_of_reader rfl rfl rfl rfl (by rw [hr]; rfl)), rest_lt_of_reader rfl rfl ?_⟩
      simp only [hr, ReaderPc.rank]
      omega
  case addNum | write =>
    have hid := hs.readerSemId (by rw [hr]; rfl)
    simp only [SharedMemory.readerStep, hr] at h
    cases h
    refine ⟨hs.reads rfl rfl rfl rfl (fun _ => hid) nofun
      (hs.token_of_reader rfl rfl rfl rfl (by rw [hr]; rfl)), rest_lt_of_reader rfl rfl ?_⟩
    simp only [hr, ReaderPc.rank]
    omega
  all_goals
    rw [SharedMemory.readerStep, hr] at h
    cases h

end SharedMemory
end CodeStrudy
