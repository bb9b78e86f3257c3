import CodeStrudy.Foundation.Machine
import CodeStrudy.Foundation.MessageQueue
import CodeStrudy.SvmsgFile.Transfer

/-!
# The file server and all its clients

`routines/46.7.svmsg`: the server takes requests from its queue and forks a child for each, and the
child answers into the queue that the client has made for itself.  Here there is a client for every
element of a type `ι`, each process makes its calls one at a time, and the calls of all of them come
in any order.  Clients, children and the server may be killed at any point.

The identifier of a queue may be given again once the queue is removed, and a child sends to an
identifier.  What keeps the transfers apart is that a client removes its queue only after the last
message of its child.  In `practice/46.4` the handler of a child that cannot open its file removes
the server's queue, which is `serverExit` here.

A child is named by the client whose request it was forked for, and a request carries that client
beside its own fields; no step looks at that.
-/

namespace CodeStrudy
namespace SvmsgFile

open Foundation

/-! ## The processes -/

/-- What the calls of a child on its file come to, and what is on its stack. -/
structure Reading where
  opened : Bool
  reads : List ReadResult
  data : CharArray RESP_MSG_SIZE
  stack : List UInt8

/-- If the file was opened, the results are those of reading it to its end. -/
def Reading.Of (disk : List UInt8 → Option (List UInt8)) (pathName : List UInt8) (r : Reading) :
    Prop :=
  if r.opened then
    .data [] ∉ r.reads ∧ (∀ x ∈ r.reads, x.bytes.length ≤ RESP_MSG_SIZE) ∧
      disk pathName = some (r.reads.flatMap ReadResult.bytes)
  else r.reads = []

instance (disk : List UInt8 → Option (List UInt8)) (pathName : List UInt8) (r : Reading) :
    Decidable (r.Of disk pathName) := by
  unfold Reading.Of
  infer_instance

/-- The messages that a child with these results sends. -/
def Reading.messages (limit : MsgLimit) (r : Reading) : List Msg :=
  serverRequest limit r.opened r.reads r.data r.stack

/-- Where a child is: before its `open`; at the message for a file that cannot be opened; in its
loop; at the end marker. -/
inductive ChildPc where
  | open
  | failure
  | send
  | endMark
  | exited
  deriving DecidableEq

structure Child where
  pc : ChildPc
  chiletId : CInt
  pathName : List UInt8
  reads : List ReadResult
  data : CharArray RESP_MSG_SIZE
  stack : List UInt8

/-- The message of a child's next call of `msgsnd`, if it makes one that the kernel's limit and the
length of the end marker allow. -/
def Child.message (limit : MsgLimit) (ch : Child) : Option Msg :=
  match ch.pc with
  | .failure => msgsnd limit RESP_MT_FAILURE failureText failureText.length
  | .send =>
    match ch.reads with
    | .data bs :: _ => msgsnd limit RESP_MT_DATA (ch.data.write bs).bytes bs.length
    | _ => none
  | .endMark =>
    (strlen? (ch.data.bytes ++ ch.stack)).bind
      (msgsnd limit RESP_MT_END (ch.data.bytes ++ ch.stack))
  | .open | .exited => none

/-- The child after that call, which has sent the message or not. -/
def Child.next (ch : Child) (sent : Bool) : Child :=
  match ch.pc with
  | .send =>
    match ch.reads with
    | .data bs :: rs =>
      { ch with reads := rs, data := ch.data.write bs, pc := if sent then .send else .endMark }
    | _ => { ch with pc := .endMark }
  | _ => { ch with pc := .exited }

/-- Where a client is when it waits for a message: at its first `msgrcv`, or at the one in its
loop. -/
inductive Receiving where
  | first
  | loop (total : CInt) (readNum : ℕ)
  deriving DecidableEq

/-- Where a client is.  `onExit` is the exit handler; the client has ended with a result, or it
could not send its request. -/
inductive ClientPc where
  | msgget
  | msgsnd
  | msgrcv (r : Receiving)
  | onExit (e : Option ClientEnd)
  | exited (e : Option ClientEnd)
  | killed
  deriving DecidableEq

structure Client where
  pc : ClientPc
  clientId : CInt
  /-- The messages it has received. -/
  received : List Msg

/-- The test of the loop. -/
def ClientPc.loopTest (mtype : ℤ) (total : CInt) (readNum : ℕ) : ClientPc :=
  if mtype = RESP_MT_DATA then .msgrcv (.loop total readNum)
  else .onExit (some (.report total readNum))

/-- Where a message takes the client. -/
def Receiving.receive (r : Receiving) (m : Msg) : ClientPc :=
  match r with
  | .first =>
    if m.mtype = RESP_MT_FAILURE then .onExit (some (.failure m.mtext))
    else .loopTest m.mtype (BitVec.ofNat 32 m.mtext.length) 1
  | .loop total readNum =>
    .loopTest m.mtype
      (if m.mtype = RESP_MT_DATA then total + BitVec.ofNat 32 m.mtext.length else total)
      (readNum + 1)

/-! ## The system -/

/-- `struct requestMsg`, and the client that has sent it. -/
structure Request (ι : Type*) where
  client : ι
  chiletId : CInt
  pathName : List UInt8

/-- The limit on messages, the path each client is started with, and the files. -/
structure Config (ι : Type*) where
  limit : MsgLimit
  path : ι → List UInt8
  disk : List UInt8 → Option (List UInt8)

structure State (ι : Type*) where
  /-- The server is in its loop. -/
  serverUp : Bool
  /-- The server's queue, if it exists. -/
  requests : Option (List (Request ι))
  /-- The other queues. -/
  queues : MsgQueues CInt Msg
  client : ι → Client
  child : ι → Option Child

/-- What a client does next. -/
inductive ClientLabel where
  | msgget (id : CInt)
  | msgsnd
  | msgrcv
  | rmid
  | kill

/-- What a child does next. -/
inductive ChildLabel where
  | open (r : Reading)
  | msgsnd
  | kill

/-- Whose step it is.  A server that exits or is killed leaves its queue behind or not. -/
inductive Label (ι : Type*) where
  | client (i : ι) (l : ClientLabel)
  | child (i : ι) (l : ChildLabel)
  | serve
  | serverExit (removed : Bool)

variable {ι : Type*}

/-- The server is in its loop and no client has been started. -/
def State.initial : State ι where
  serverUp := true
  requests := some []
  queues _ := none
  client _ := ⟨.msgget, 0, []⟩
  child _ := none

variable [DecidableEq ι]

def State.setClient (s : State ι) (i : ι) (cl : Client) : State ι :=
  { s with client := Function.update s.client i cl }

def State.setChild (s : State ι) (i : ι) (ch : Child) : State ι :=
  { s with child := Function.update s.child i (some ch) }

/-- The first message of a queue. -/
def takeFirst (q : MsgQueues CInt Msg) (id : CInt) : Option (Msg × MsgQueues CInt Msg) :=
  q.msgrcv (fun m => m.mtype.toNat) id 0

/-- The next call of a client. -/
def clientStep (cfg : Config ι) (s : State ι) (i : ι) (cl : Client) :
    ClientLabel → Option (State ι)
  | .msgget id =>
    match cl.pc with
    | .msgget => (s.queues.msgget id).map fun q =>
      { s with queues := q }.setClient i { cl with pc := .msgsnd, clientId := id }
    | _ => none
  | .msgsnd =>
    match cl.pc, s.requests with
    | .msgsnd, some rs =>
      let r : Request ι := ⟨i, cl.clientId, cfg.path i⟩
      some ({ s with requests := some (rs ++ [r]) }.setClient i { cl with pc := .msgrcv .first })
    | .msgsnd, none => some (s.setClient i { cl with pc := .onExit none })
    | _, _ => none
  | .msgrcv =>
    match cl.pc with
    | .msgrcv r => (takeFirst s.queues cl.clientId).map fun mq =>
      -- a message that is too long stays in the queue
      if mq.1.mtext.length ≤ RESP_MSG_SIZE then
        { s with queues := mq.2 }.setClient i
          { cl with pc := r.receive mq.1, received := cl.received ++ [mq.1] }
      else s.setClient i { cl with pc := .onExit (some .msgrcvFailed) }
    | _ => none
  | .rmid =>
    match cl.pc with
    | .onExit e =>
      some ({ s with queues := s.queues.rmid cl.clientId }.setClient i { cl with pc := .exited e })
    | _ => none
  | .kill =>
    match cl.pc with
    | .msgget | .exited _ => none
    | _ => some (s.setClient i { cl with pc := .killed })

/-- The next call of the child that was forked for a client. -/
def childStep (cfg : Config ι) (s : State ι) (i : ι) (ch : Child) :
    ChildLabel → Option (State ι)
  | .open r =>
    if ch.pc = .open ∧ r.Of cfg.disk ch.pathName then
      some (s.setChild i { ch with
        pc := if r.opened then .send else .failure
        reads := r.reads
        data := r.data
        stack := r.stack })
    else none
  | .msgsnd =>
    match ch.pc with
    | .open | .exited => none
    | _ =>
      match (ch.message cfg.limit).bind (s.queues.msgsnd ch.chiletId) with
      | some q => some ({ s with queues := q }.setChild i (ch.next true))
      | none => some (s.setChild i (ch.next false))
  | .kill => if ch.pc = .exited then none else some (s.setChild i { ch with pc := .exited })

/-- One step of the system. -/
def step (cfg : Config ι) (s : State ι) : Label ι → Option (State ι)
  | .client i l => clientStep cfg s i (s.client i) l
  | .child i l => (s.child i).bind fun ch => childStep cfg s i ch l
  | .serve =>
    match s.serverUp, s.requests with
    | true, some (r :: rs) => some ({ s with requests := some rs }.setChild r.client
        ⟨.open, r.chiletId, r.pathName, [], .zeros RESP_MSG_SIZE, []⟩)
    | _, _ => none
  | .serverExit removed =>
    if s.serverUp then
      some { s with serverUp := false, requests := if removed then none else s.requests }
    else none

def machine (cfg : Config ι) : Machine (State ι) (Label ι) where
  init s := s = State.initial
  step := step cfg

/-! ## What is still to come -/

/-- What the client makes of the messages to come. -/
def Receiving.run : Receiving → List Msg → ClientEnd
  | .first, ms => clientMain ms
  | .loop total readNum, ms => recvLoop RESP_MT_DATA total readNum ms

/-- The messages a child still sends if it is not killed. -/
def Child.rest (limit : MsgLimit) (ch : Child) : List Msg :=
  match ch.pc with
  | .failure => (msgsnd limit RESP_MT_FAILURE failureText failureText.length).toList
  | .send => serverRequest limit true ch.reads ch.data ch.stack
  | .endMark => endMarker limit (ch.data.bytes ++ ch.stack)
  | .open | .exited => []

/-- A message that does not end the client's loop. -/
def Plain (m : Msg) : Prop := m.mtype = RESP_MT_DATA ∧ m.mtext.length ≤ RESP_MSG_SIZE

/-- No read returns more than it was asked for. -/
def Child.Sized (ch : Child) : Prop := ∀ x ∈ ch.reads, x.bytes.length ≤ RESP_MSG_SIZE

theorem rest_of_exited {limit : MsgLimit} {ch : Child} (h : ch.pc = .exited) :
    ch.rest limit = [] := by
  rw [Child.rest, h]

/-- A message that is sent is the first of those that were to come. -/
theorem rest_of_message {limit : MsgLimit} {ch : Child} {m : Msg}
    (h : ch.message limit = some m) : ch.rest limit = m :: (ch.next true).rest limit := by
  unfold Child.message at h
  unfold Child.rest Child.next
  cases hpc : ch.pc with
  | «open» | exited =>
    rw [hpc] at h
    cases h
  | failure =>
    rw [hpc] at h
    simp only [h, Option.toList_some]
  | endMark =>
    rw [hpc] at h
    obtain ⟨len, hlen, hm⟩ := Option.bind_eq_some_iff.mp h
    simp only [endMarker, hlen, hm, Option.toList_some]
  | send =>
    rw [hpc] at h
    cases hreads : ch.reads with
    | nil =>
      rw [hreads] at h
      cases h
    | cons x rs =>
      rw [hreads] at h
      cases x with
      | error => cases h
      | data bs =>
        simp only [serverRequest, if_true, sendLoop, h]
        cases strlen? _ <;> rfl

/-- When no message can be sent, the child goes on to the end marker, or has nothing to send. -/
theorem rest_of_message_none {limit : MsgLimit} {ch : Child} (h : ch.message limit = none) :
    (ch.next false).rest limit = ch.rest limit := by
  unfold Child.message at h
  unfold Child.rest Child.next
  cases hpc : ch.pc with
  | «open» | exited => rfl
  | failure =>
    rw [hpc] at h
    simp only [h, Option.toList_none]
  | endMark =>
    rw [hpc] at h
    cases hlen : strlen? (ch.data.bytes ++ ch.stack) with
    | none => simp only [endMarker, hlen]
    | some len =>
      rw [hlen, Option.bind_some] at h
      simp only [endMarker, hlen, h, Option.toList_none]
  | send =>
    rw [hpc] at h
    cases hreads : ch.reads with
    | nil =>
      simp only [serverRequest, if_true, sendLoop, endMarker, List.nil_append]
    | cons x rs =>
      rw [hreads] at h
      cases x with
      | error => simp only [serverRequest, if_true, sendLoop, endMarker, List.nil_append]
      | data bs => simp only [serverRequest, if_true, sendLoop, endMarker, h, List.nil_append]; rfl

/-- What the next call does not change, and that it is past `open`. -/
theorem next_spec (ch : Child) (sent : Bool) :
    (ch.next sent).chiletId = ch.chiletId ∧ (ch.next sent).pathName = ch.pathName ∧
      (ch.next sent).pc ≠ .open ∧ (ch.Sized → (ch.next sent).Sized) := by
  obtain ⟨pc, chiletId, pathName, reads, data, stack⟩ := ch
  cases pc with
  | «open» | exited | failure | endMark => exact ⟨rfl, rfl, ChildPc.noConfusion, id⟩
  | send =>
    cases reads with
    | nil => exact ⟨rfl, rfl, ChildPc.noConfusion, id⟩
    | cons x rs =>
      cases x with
      | error => exact ⟨rfl, rfl, ChildPc.noConfusion, id⟩
      | data bs =>
        refine ⟨rfl, rfl, ?_, fun h x hx => h x (List.mem_cons_of_mem _ hx)⟩
        cases sent <;> exact ChildPc.noConfusion

/-- A child that goes on after a message has sent a piece of the file. -/
theorem plain_of_message {limit : MsgLimit} {ch : Child} {m : Msg} (hsized : ch.Sized)
    (h : ch.message limit = some m) (hpc : (ch.next true).pc ≠ .exited) : Plain m := by
  unfold Child.message at h
  unfold Child.next at hpc
  cases hch : ch.pc with
  | «open» | exited | failure | endMark =>
    rw [hch] at hpc
    exact absurd rfl hpc
  | send =>
    rw [hch] at h
    unfold Child.Sized at hsized
    cases hreads : ch.reads with
    | nil =>
      rw [hreads] at h
      cases h
    | cons x rs =>
      rw [hreads] at h hsized
      cases x with
      | error => cases h
      | data bs =>
        have hlen : bs.length ≤ RESP_MSG_SIZE := hsized _ List.mem_cons_self
        have hm := (msgsnd_write limit RESP_MT_DATA ch.data hlen).symm.trans h
        obtain rfl := Option.some.inj hm
        exact ⟨rfl, hlen⟩

/-! ## What a message does to the client -/

/-- A message that fits takes the client to where it waits for the next one, or ends it. -/
theorem receive_spec (r : Receiving) {m : Msg} (h : m.mtext.length ≤ RESP_MSG_SIZE) :
    (∃ r', r.receive m = .msgrcv r' ∧ ∀ ms, r.run (m :: ms) = r'.run ms) ∨
      (¬ Plain m ∧ ∃ e, r.receive m = .onExit (some e) ∧ ∀ ms, r.run (m :: ms) = e) := by
  have htest : ∀ total readNum,
      (∃ r', ClientPc.loopTest m.mtype total readNum = .msgrcv r' ∧
        ∀ ms, recvLoop m.mtype total readNum ms = r'.run ms) ∨
      (¬ Plain m ∧ ∃ e, ClientPc.loopTest m.mtype total readNum = .onExit (some e) ∧
        ∀ ms, recvLoop m.mtype total readNum ms = e) := by
    intro total readNum
    unfold ClientPc.loopTest
    by_cases hdata : m.mtype = RESP_MT_DATA
    · exact .inl ⟨_, if_pos hdata, fun ms => by rw [hdata]; rfl⟩
    · refine .inr ⟨fun hplain => hdata hplain.1, _, if_neg hdata, fun ms => ?_⟩
      rw [recvLoop.eq_def, if_neg hdata]
  cases r with
  | first =>
    have hrun : ∀ ms, clientMain (m :: ms) = if m.mtype = RESP_MT_FAILURE then .failure m.mtext
        else recvLoop m.mtype (BitVec.ofNat 32 m.mtext.length) 1 ms := fun ms => if_pos h
    unfold Receiving.receive
    by_cases hfailure : m.mtype = RESP_MT_FAILURE
    · refine .inr ⟨fun hplain => ?_, _, if_pos hfailure, fun ms => ?_⟩
      · rw [hplain.1] at hfailure
        exact absurd hfailure (by decide)
      · exact (hrun ms).trans (if_pos hfailure)
    · simp only [Receiving.run, hrun, if_neg hfailure]
      exact htest _ _
  | loop total readNum =>
    have hrun : ∀ ms, recvLoop RESP_MT_DATA total readNum (m :: ms) = recvLoop m.mtype
        (if m.mtype = RESP_MT_DATA then total + BitVec.ofNat 32 m.mtext.length else total)
        (readNum + 1) ms := fun ms => by rw [recvLoop, if_pos rfl, if_pos h]
    simp only [Receiving.run, hrun]
    exact htest _ _

/-- A message that is too long ends the client. -/
theorem run_of_too_long (r : Receiving) {m : Msg} (h : ¬ m.mtext.length ≤ RESP_MSG_SIZE)
    (ms : List Msg) : r.run (m :: ms) = .msgrcvFailed := by
  cases r with
  | first => exact if_neg h
  | loop total readNum => rw [Receiving.run, recvLoop, if_pos rfl, if_neg h]

end SvmsgFile
end CodeStrudy
