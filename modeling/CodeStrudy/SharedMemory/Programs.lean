import CodeStrudy.Foundation.FileIO
import CodeStrudy.Foundation.Machine
import CodeStrudy.Foundation.SemaphoreSet

/-!
# The transfer over shared memory: the two programs

`routines/48.4.svshm_xfr`: `svshm_write` puts a file piece by piece into a shared memory segment and
`svshm_read` writes the pieces to its standard output; they take turns by two semaphores of one set.
The state is what the kernel holds and where the two processes are, and every access to the kernel
or to the segment is a step of its own.

The writer's `semId == semget(...)` compares and does not assign, so the writer works on the set
whose identifier is zero, the initial value of the global; the reader works on the set that has the
key.  An `exit` of the writer runs `onExit`, which removes the segment and the set of `semId`.

No signal comes while one of the two waits in `semop`.
-/

namespace CodeStrudy
namespace SharedMemory

open Foundation

def MUTEX_WRITE : ℕ := 1
def MUTEX_READ : ℕ := 0

/-- The writer's global `semId`, to which nothing is assigned. -/
def semId : ℕ := 0

/-- `struct shm`. -/
structure Shm where
  length : CInt
  msg : CharArray 1024

/-- Where the writer is.  `store` is the assignment of what `read` has returned; `onExitShm` and
`onExitSem` are the two calls of `onExit`, run by an `exit` that was or was not
`exit(EXIT_SUCCESS)`. -/
inductive WriterPc where
  | shmget
  | shmat
  | semget
  | initRead
  | initWrite
  | openFile
  | get
  | read
  | store
  | testLength
  | addNum
  | put
  | putEnd
  | shmRmid
  | semRmid
  | onExitShm (success : Bool)
  | onExitSem (success : Bool)
  | exited (success : Bool)
  deriving DecidableEq

/-- Where the reader is; `failed` is an `ERROUT`. -/
inductive ReaderPc where
  | notStarted
  | shmget
  | shmat
  | semget
  | get
  | testLength
  | addNum
  | write
  | put
  | finished
  | failed
  deriving DecidableEq

/-- The kernel, the segment and the two processes. -/
structure State where
  sems : SemSets
  /-- The set that has the key `SEM_KEY`. -/
  semKey : Option ℕ
  /-- The segment that has the key `SHM_KEY` is the writer's. -/
  shmKey : Bool
  shm : Shm
  writer : WriterPc
  reader : ReaderPc
  /-- The writer has set both semaphores to their first values. -/
  initialised : Bool
  /-- The results of the writer's `read` calls to come. -/
  reads : List ReadResult
  /-- What the writer's last `read` has returned. -/
  readRet : CInt
  WriteNum : CInt
  /-- The reader's `semId`. -/
  readerSemId : ℕ
  ReadNum : CInt
  /-- The pieces that the writer has read. -/
  chunks : List (List UInt8)
  /-- What the reader has written to its standard output. -/
  out : List UInt8

/-- The two processes have not run; the kernel may hold any semaphore sets. -/
structure Initial (results : List ReadResult) (s : State) : Prop where
  writer : s.writer = .shmget
  reader : s.reader = .notStarted
  initialised : s.initialised = false
  shmKey : s.shmKey = false
  reads : s.reads = results
  chunks : s.chunks = []
  out : s.out = []

/-- One step of the writer or of the reader, with the result of its call where that is not
determined.  `semget` is the writer's, with the identifier it returns. -/
inductive Label where
  | writerCall (ok : Bool)
  | semget (id : Option ℕ)
  | writer
  | readerStart
  | readerShmat (ok : Bool)
  | reader
  deriving DecidableEq

/-! ## The writer -/

/-- The calls of the writer that may fail for any reason: `shmget`, which makes a new segment,
`shmat` and `open`. -/
def writerCall (s : State) (ok : Bool) : Option State :=
  match s.writer with
  | .shmget => some (if ok then
      { s with shmKey := true, shm := ⟨0, .zeros 1024⟩, writer := .shmat }
    else { s with writer := .onExitShm false })
  | .shmat => some { s with writer := if ok then .semget else .onExitShm false }
  | .openFile => some { s with writer := if ok then .get else .onExitShm false }
  | _ => none

/-- The writer's `semget(SEM_KEY, 2, IPC_CREAT | IPC_EXCL | ...)`: a new set under an identifier
that is free, or a failure.  What it returns is compared with `semId` and forgotten. -/
def writerSemget (s : State) (id : Option ℕ) : Option State :=
  if s.writer = .semget then
    match id with
    | some id =>
      if s.semKey = none ∧ s.sems id = none then
        some { s with sems := s.sems.create id 2, semKey := some id, writer := .initRead }
      else none
    | none => some { s with writer := .initRead }
  else none

/-- `mutexInit`: the semaphore gets its value, and the writer goes on, or exits if there is no such
semaphore. -/
def mutexInit (s : State) (num v : ℕ) (next : State) : State :=
  match s.sems.value semId num with
  | some _ => { next with sems := s.sems.setVal semId num v }
  | none => { s with writer := .onExitShm false }

/-- `mutextGet` or `mutexPut` of the writer: it goes on, or exits if the call fails. -/
def writerSemop (s : State) (op : SemOp) (pc : WriterPc) : Option State :=
  match op with
  | .blocked => none
  | .failed => some { s with writer := .onExitShm false }
  | .done sems => some { s with sems := sems, writer := pc }

/-- `semctl(semId, 0, IPC_RMID)`. -/
def State.removeSem (s : State) : State :=
  { s with
    sems := s.sems.remove semId
    semKey := if s.semKey = some semId then none else s.semKey }

/-- The writer's other steps. -/
def writerStep (s : State) : Option State :=
  match s.writer with
  | .initRead => some (mutexInit s MUTEX_READ 0 { s with writer := .initWrite })
  | .initWrite =>
    some (mutexInit s MUTEX_WRITE 1 { s with writer := .openFile, initialised := true })
  | .get => writerSemop s (s.sems.take semId MUTEX_WRITE) .read
  | .read =>
    match s.reads with
    | [] => some { s with readRet := 0, writer := .store }
    | .data bs :: rs => some { s with
        reads := rs
        chunks := s.chunks ++ [bs]
        shm := { s.shm with msg := s.shm.msg.write bs }
        readRet := BitVec.ofNat 32 bs.length
        writer := .store }
    | .error :: rs => some { s with reads := rs, readRet := -1, writer := .store }
  | .store => some { s with shm := { s.shm with length := s.readRet }, writer := .testLength }
  | .testLength => some { s with writer := if s.shm.length = 0 then .putEnd else .addNum }
  | .addNum => some { s with WriteNum := s.WriteNum + s.shm.length, writer := .put }
  | .put => writerSemop s (s.sems.give semId MUTEX_READ) .get
  | .putEnd => writerSemop s (s.sems.give semId MUTEX_READ) .shmRmid
  | .shmRmid => some { s with shmKey := false, writer := .semRmid }
  | .semRmid => some { s.removeSem with writer := .onExitShm true }
  | .onExitShm success => some { s with shmKey := false, writer := .onExitSem success }
  | .onExitSem success => some { s.removeSem with writer := .exited success }
  | _ => none

/-! ## The reader -/

/-- `mutextGet` or `mutexPut` of the reader. -/
def readerSemop (s : State) (op : SemOp) (pc : ReaderPc) : Option State :=
  match op with
  | .blocked => none
  | .failed => some { s with reader := .failed }
  | .done sems => some { s with sems := sems, reader := pc }

/-- The reader's `shmat`, which may fail for any reason. -/
def readerShmat (s : State) (ok : Bool) : Option State :=
  if s.reader = .shmat then some { s with reader := if ok then .semget else .failed } else none

/-- The reader's other steps. -/
def readerStep (s : State) : Option State :=
  match s.reader with
  | .shmget => some { s with reader := if s.shmKey then .shmat else .failed }
  | .semget =>
    match s.semKey with
    | some id => some { s with readerSemId := id, reader := .get }
    | none => some { s with reader := .failed }
  | .get => readerSemop s (s.sems.take s.readerSemId MUTEX_READ) .testLength
  | .testLength => some { s with reader := if s.shm.length = 0 then .finished else .addNum }
  | .addNum => some { s with ReadNum := s.ReadNum + s.shm.length, reader := .write }
  | .write => some { s with
      out := s.out ++ s.shm.msg.bytes.take s.shm.length.toNat
      reader := .put }
  | .put => readerSemop s (s.sems.give s.readerSemId MUTEX_WRITE) .get
  | _ => none

/-! ## The two together -/

/-- One step.  The reader is started after the writer's initialisation. -/
def step (s : State) : Label → Option State
  | .writerCall ok => writerCall s ok
  | .semget id => writerSemget s id
  | .writer => writerStep s
  | .readerStart =>
    if s.reader = .notStarted ∧ s.initialised = true then some { s with reader := .shmget }
    else none
  | .readerShmat ok => readerShmat s ok
  | .reader => readerStep s

/-- The writer and the reader, for the results of the writer's `read` calls. -/
def machine (results : List ReadResult) : Machine State Label where
  init := Initial results
  step := step

end SharedMemory
end CodeStrudy
