import CodeStrudy.Foundation.CInt
import CodeStrudy.Foundation.CString
import CodeStrudy.Foundation.FileIO

/-!
# The file transfer over System V messages

`routines/46.7.svmsg`, and the same functions in `practice/46.4`: for each request the server forks
a child that sends the file in data messages and then an end marker; the client receives them and
reports how many bytes came.  The client's queue has one sender and one receiver and is first in,
first out, so what the client does is a function of the list of messages sent.

The length of the end marker is `strlen(resp.data)`, taken of whatever the reads left in the
buffer, and of what was on the stack when they left nothing.  If there is no zero byte in it, the
marker is longer than the client's buffer, or the call runs off the stack.  And the client counts
its first message whatever its type is, so an empty file counts as long as its end marker.
`reports_iff` is the exact condition under which the report is right.
-/

namespace CodeStrudy
namespace SvmsgFile

open Foundation

def RESP_MSG_SIZE : ℕ := 8192

def RESP_MT_FAILURE : ℤ := 1
def RESP_MT_DATA : ℤ := 2
def RESP_MT_END : ℤ := 3

/-- A message in a queue: its type, and as many bytes as were sent. -/
structure Msg where
  mtype : ℤ
  mtext : List UInt8
  deriving DecidableEq

/-- The kernel's limit on the size of a message. -/
structure MsgLimit where
  msgmax : ℕ
  /-- A full data message can be sent. -/
  size_le : RESP_MSG_SIZE ≤ msgmax

/-- `msgsnd(id, &resp, len, 0)`, with the memory from `resp.data` on; `none` when it fails. -/
def msgsnd (limit : MsgLimit) (mtype : ℤ) (mem : List UInt8) (len : ℕ) : Option Msg :=
  if len ≤ limit.msgmax then some ⟨mtype, mem.take len⟩ else none

/-! ## The server's child -/

/-- The bytes of `"coun't open fail!\n"`, the text of the failure message. -/
def failureText : List UInt8 :=
  [0x63, 0x6f, 0x75, 0x6e, 0x27, 0x74, 0x20, 0x6f, 0x70, 0x65, 0x6e, 0x20, 0x66, 0x61, 0x69, 0x6c,
    0x21, 0x0a]

/-- The loop of `serverRequest`: the data messages, and the buffer as the loop leaves it.  It ends
at the first `read` that returns zero or fails, and at the first `msgsnd` that fails. -/
def sendLoop (limit : MsgLimit) :
    List ReadResult → CharArray RESP_MSG_SIZE → List Msg × CharArray RESP_MSG_SIZE
  | .data bs :: rs, data =>
    let data := data.write bs
    match msgsnd limit RESP_MT_DATA data.bytes bs.length with
    | some m => (m :: (sendLoop limit rs data).1, (sendLoop limit rs data).2)
    | none => ([], data)
  | _, data => ([], data)

/-- `serverRequest`: the messages the client is sent.  `opened` is whether `open` succeeds, `data`
is what was on the stack where `resp.data` is, and `stack` is what follows it.  A `strlen` that
finds no zero byte runs off the stack, and no end marker is sent. -/
def serverRequest (limit : MsgLimit) (opened : Bool) (reads : List ReadResult)
    (data : CharArray RESP_MSG_SIZE) (stack : List UInt8) : List Msg :=
  if opened then
    let (sent, data) := sendLoop limit reads data
    match strlen? (data.bytes ++ stack) with
    | some len => sent ++ (msgsnd limit RESP_MT_END (data.bytes ++ stack) len).toList
    | none => sent
  else (msgsnd limit RESP_MT_FAILURE failureText failureText.length).toList

/-! ## The client -/

/-- How the client ends: waiting for a message that never comes, with `msgrcv` failing on a
message longer than its buffer, with the text of a failure message, or with its report of bytes
and messages. -/
inductive ClientEnd where
  | blocked
  | msgrcvFailed
  | failure (text : List UInt8)
  | report (total : CInt) (readNum : ℕ)
  deriving DecidableEq

/-- The client's loop, entered with the type of the last message. -/
def recvLoop (mtype : ℤ) (total : CInt) (readNum : ℕ) (queue : List Msg) : ClientEnd :=
  if mtype = RESP_MT_DATA then
    match queue with
    | [] => .blocked
    | m :: ms =>
      if m.mtext.length ≤ RESP_MSG_SIZE then
        recvLoop m.mtype
          (if m.mtype = RESP_MT_DATA then total + BitVec.ofNat 32 m.mtext.length else total)
          (readNum + 1) ms
      else .msgrcvFailed
  else .report total readNum

/-- The client's `main` after its request is sent. -/
def clientMain : List Msg → ClientEnd
  | [] => .blocked
  | m :: ms =>
    if m.mtext.length ≤ RESP_MSG_SIZE then
      if m.mtype = RESP_MT_FAILURE then .failure m.mtext
      else recvLoop m.mtype (BitVec.ofNat 32 m.mtext.length) 1 ms
    else .msgrcvFailed

/-! ## The report -/

/-- The report is the length of the file, and for a readable file there is a report. -/
def Reports (opened : Bool) (file : List UInt8) (e : ClientEnd) : Prop :=
  (∀ total readNum, e = .report total readNum → total.toInt = file.length) ∧
    (opened = true → ∃ total readNum, e = .report total readNum)

/-- What the reads of the child leave in its buffer. -/
def leftover (reads : List ReadResult) (data : CharArray RESP_MSG_SIZE) :
    CharArray RESP_MSG_SIZE :=
  (ReadResult.chunks reads).foldl CharArray.write data

/-- The end marker fits the client's buffer, the file's length fits an `int`, and the reads before
the first failure return the whole file; if they return nothing, the marker is as long as the
file. -/
def EndMarkerOk (file : List UInt8) (reads : List ReadResult) (data : CharArray RESP_MSG_SIZE)
    (stack : List UInt8) : Prop :=
  ∃ len ≤ RESP_MSG_SIZE, strlen? ((leftover reads data).bytes ++ stack) = some len ∧
    file.length < 2 ^ 31 ∧
      if ReadResult.chunks reads = [] then len = file.length
      else (ReadResult.chunks reads).flatten.length = file.length

/-! ## What the child sends -/

/-- The data message for a piece of the file. -/
def dataMsg (bs : List UInt8) : Msg := ⟨RESP_MT_DATA, bs⟩

theorem msgsnd_write (limit : MsgLimit) (mtype : ℤ) (data : CharArray RESP_MSG_SIZE)
    {bs : List UInt8} (h : bs.length ≤ RESP_MSG_SIZE) :
    msgsnd limit mtype (data.write bs).bytes bs.length = some ⟨mtype, bs⟩ := by
  rw [msgsnd, if_pos (h.trans limit.size_le), CharArray.bytes_write h, List.take_left]

theorem sendLoop_eq (limit : MsgLimit) {rs : List ReadResult}
    (h : ∀ bs ∈ ReadResult.chunks rs, bs.length ≤ RESP_MSG_SIZE)
    (data : CharArray RESP_MSG_SIZE) :
    sendLoop limit rs data = ((ReadResult.chunks rs).map dataMsg, leftover rs data) := by
  induction rs generalizing data with
  | nil => rfl
  | cons r rs ih =>
    cases r with
    | error => rfl
    | data bs =>
      have hbs : bs.length ≤ RESP_MSG_SIZE := h bs List.mem_cons_self
      have hrs := ih (fun c hc => h c (List.mem_cons_of_mem _ hc)) (data.write bs)
      simp only [sendLoop, msgsnd_write limit _ data hbs, hrs]
      rfl

/-- The end marker, if it is sent. -/
def endMarker (limit : MsgLimit) (mem : List UInt8) : List Msg :=
  match strlen? mem with
  | some len => (msgsnd limit RESP_MT_END mem len).toList
  | none => []

theorem serverRequest_opened (limit : MsgLimit) {rs : List ReadResult}
    (h : ∀ bs ∈ ReadResult.chunks rs, bs.length ≤ RESP_MSG_SIZE)
    (data : CharArray RESP_MSG_SIZE) (stack : List UInt8) :
    serverRequest limit true rs data stack =
      (ReadResult.chunks rs).map dataMsg ++
        endMarker limit ((leftover rs data).bytes ++ stack) := by
  simp only [serverRequest, if_true, sendLoop_eq limit h, endMarker]
  cases strlen? ((leftover rs data).bytes ++ stack) with
  | none => rw [List.append_nil]
  | some len => rfl

/-! ## What the client makes of it -/

theorem recvLoop_map_dataMsg {chunks : List (List UInt8)}
    (h : ∀ bs ∈ chunks, bs.length ≤ RESP_MSG_SIZE) (total : CInt) (readNum : ℕ)
    (queue : List Msg) :
    recvLoop RESP_MT_DATA total readNum (chunks.map dataMsg ++ queue) =
      recvLoop RESP_MT_DATA (total + BitVec.ofNat 32 chunks.flatten.length)
        (readNum + chunks.length) queue := by
  induction chunks generalizing total readNum with
  | nil => simp
  | cons bs chunks ih =>
    have hbs : bs.length ≤ RESP_MSG_SIZE := h bs List.mem_cons_self
    have hstep : recvLoop RESP_MT_DATA total readNum ((bs :: chunks).map dataMsg ++ queue) =
        recvLoop RESP_MT_DATA (total + BitVec.ofNat 32 bs.length) (readNum + 1)
          (chunks.map dataMsg ++ queue) := by
      rw [List.map_cons, List.cons_append, recvLoop, if_pos rfl]
      simp only [dataMsg, if_pos hbs, if_true]
    rw [hstep, ih fun c hc => h c (List.mem_cons_of_mem _ hc), List.flatten_cons,
      List.length_append, List.length_cons, BitVec.ofNat_add, BitVec.add_assoc,
      Nat.add_assoc, Nat.add_comm 1]

/-- The loop on the end marker: a report exactly if the marker was sent and fits the buffer. -/
theorem recvLoop_endMarker_iff (limit : MsgLimit) (mem : List UInt8) (total total' : CInt)
    (readNum n : ℕ) :
    recvLoop RESP_MT_DATA total readNum (endMarker limit mem) = .report total' n ↔
      (∃ len ≤ RESP_MSG_SIZE, strlen? mem = some len) ∧ total' = total ∧ n = readNum + 1 := by
  cases hlen : strlen? mem with
  | none =>
    rw [endMarker, hlen]
    simp [recvLoop]
  | some len =>
    have htake : (mem.take len).length = len := by
      rw [List.length_take, Nat.min_eq_left (strlen?_le hlen)]
    simp only [endMarker, hlen, msgsnd]
    by_cases hfits : len ≤ RESP_MSG_SIZE
    · rw [if_pos (hfits.trans limit.size_le)]
      simp [recvLoop, htake, hfits, RESP_MT_END, RESP_MT_DATA, eq_comm]
    · by_cases hmax : len ≤ limit.msgmax
      · simp [hmax, recvLoop, htake, hfits]
      · simp [hmax, recvLoop, hfits]

/-- The count the client reports: all data, or the length of the end marker if that comes
first. -/
def counted (chunks : List (List UInt8)) (len : ℕ) : ℕ :=
  if chunks = [] then len else chunks.flatten.length

theorem clientMain_eq_report_iff (limit : MsgLimit) {chunks : List (List UInt8)}
    (h : ∀ bs ∈ chunks, bs.length ≤ RESP_MSG_SIZE) (mem : List UInt8) (total : CInt) (n : ℕ) :
    clientMain (chunks.map dataMsg ++ endMarker limit mem) = .report total n ↔
      ∃ len ≤ RESP_MSG_SIZE, strlen? mem = some len ∧
        total = BitVec.ofNat 32 (counted chunks len) ∧ n = chunks.length + 1 := by
  cases chunks with
  | nil =>
    cases hlen : strlen? mem with
    | none =>
      rw [endMarker, hlen]
      simp [clientMain]
    | some len =>
      have htake : (mem.take len).length = len := by
        rw [List.length_take, Nat.min_eq_left (strlen?_le hlen)]
      simp only [endMarker, hlen, msgsnd, List.map_nil, List.nil_append]
      by_cases hfits : len ≤ RESP_MSG_SIZE
      · rw [if_pos (hfits.trans limit.size_le)]
        simp [clientMain, recvLoop, htake, hfits, RESP_MT_END, RESP_MT_DATA, RESP_MT_FAILURE,
          counted, eq_comm]
      · by_cases hmax : len ≤ limit.msgmax
        · simp [hmax, clientMain, htake, hfits]
        · simp [hmax, clientMain, hfits]
  | cons bs chunks =>
    have hbs : bs.length ≤ RESP_MSG_SIZE := h bs List.mem_cons_self
    have hfirst : clientMain ((bs :: chunks).map dataMsg ++ endMarker limit mem) =
        recvLoop RESP_MT_DATA (BitVec.ofNat 32 bs.length) 1
          (chunks.map dataMsg ++ endMarker limit mem) := by
      rw [List.map_cons, List.cons_append, clientMain,
        if_pos (show (dataMsg bs).mtext.length ≤ RESP_MSG_SIZE from hbs),
        if_neg (show ¬ (dataMsg bs).mtype = RESP_MT_FAILURE from
          (by decide : ¬ RESP_MT_DATA = RESP_MT_FAILURE))]
      rfl
    have hcounted : ∀ len, BitVec.ofNat 32 (counted (bs :: chunks) len) =
        BitVec.ofNat 32 bs.length + BitVec.ofNat 32 chunks.flatten.length := fun len => by
      rw [← BitVec.ofNat_add, ← List.length_append, ← List.flatten_cons]
      exact congrArg (BitVec.ofNat 32) (if_neg (List.cons_ne_nil _ _))
    rw [hfirst, recvLoop_map_dataMsg fun c hc => h c (List.mem_cons_of_mem _ hc),
      recvLoop_endMarker_iff, List.length_cons, Nat.add_comm 1]
    constructor
    · rintro ⟨⟨len, hle, hlen⟩, ht, hn⟩
      exact ⟨len, hle, hlen, ht.trans (hcounted len).symm, hn⟩
    · rintro ⟨len, hle, hlen, ht, hn⟩
      exact ⟨⟨len, hle, hlen⟩, ht.trans (hcounted len), hn⟩

/-! ## The exact condition -/

theorem endMarkerOk_iff (file : List UInt8) (reads : List ReadResult)
    (data : CharArray RESP_MSG_SIZE) (stack : List UInt8) :
    EndMarkerOk file reads data stack ↔
      ∃ len ≤ RESP_MSG_SIZE, strlen? ((leftover reads data).bytes ++ stack) = some len ∧
        file.length < 2 ^ 31 ∧ counted (ReadResult.chunks reads) len = file.length := by
  unfold EndMarkerOk counted
  refine exists_congr fun len => ?_
  by_cases h : ReadResult.chunks reads = []
  · rw [if_pos h, if_pos h]
  · rw [if_neg h, if_neg h]

/-- An `int` counter shows a count that is no larger than it should be, or small anyway, exactly
if the count is right and fits. -/
theorem toInt_ofNat_eq_iff {count size : ℕ} (h : count ≤ size ∨ count < 2 ^ 31) :
    (BitVec.ofNat 32 count).toInt = size ↔ size < 2 ^ 31 ∧ count = size := by
  rw [BitVec.toInt_ofNat', Int.bmod]
  split <;> omega

theorem clientMain_not_opened (limit : MsgLimit) (rs : List ReadResult)
    (data : CharArray RESP_MSG_SIZE) (stack : List UInt8) :
    clientMain (serverRequest limit false rs data stack) = .failure failureText := by
  have hlen : failureText.length ≤ RESP_MSG_SIZE := by decide
  rw [serverRequest, if_neg (by decide), msgsnd, if_pos (hlen.trans limit.size_le),
    List.take_length]
  rfl

/-- **When the client's report is right.**  For every file, every outcome of `open` and of the
`read` calls, whatever was on the stack, and every limit on messages: if the client reports, it
reports the length of the file, and if the file could be opened it does report, exactly when the
file could not be opened or `EndMarkerOk` holds. -/
theorem reports_iff (limit : MsgLimit) (opened : Bool) {file : List UInt8}
    (t : ReadTrace RESP_MSG_SIZE file) (data : CharArray RESP_MSG_SIZE) (stack : List UInt8) :
    Reports opened file (clientMain (serverRequest limit opened t.results data stack)) ↔
      opened = false ∨ EndMarkerOk file t.results data stack := by
  cases opened with
  | false =>
    rw [clientMain_not_opened]
    exact iff_of_true ⟨fun _ _ h => (nomatch h), fun h => (nomatch h)⟩ (Or.inl rfl)
  | true =>
    have hsize : ∀ bs ∈ ReadResult.chunks t.results, bs.length ≤ RESP_MSG_SIZE :=
      fun bs hbs => t.length_le_of_mem_chunks hbs
    have hreport := clientMain_eq_report_iff limit hsize ((leftover t.results data).bytes ++ stack)
    -- the count is at most the file's length, or the length of a marker that fits
    have hcount : ∀ len ≤ RESP_MSG_SIZE, counted (ReadResult.chunks t.results) len ≤ file.length ∨
        counted (ReadResult.chunks t.results) len < 2 ^ 31 := by
      intro len hlen
      unfold counted
      split
      · exact Or.inr (lt_of_le_of_lt hlen (by decide))
      · exact Or.inl t.length_flatten_chunks_le
    rw [serverRequest_opened limit hsize, endMarkerOk_iff]
    constructor
    · rintro ⟨hright, hdoes⟩
      obtain ⟨total, n, htotal⟩ := hdoes rfl
      obtain ⟨len, hle, hlen, rfl, -⟩ := (hreport total n).mp htotal
      have := (toInt_ofNat_eq_iff (hcount len hle)).mp (hright _ n htotal)
      exact Or.inr ⟨len, hle, hlen, this⟩
    · rintro (h | ⟨len, hle, hlen, hok⟩)
      · cases h
      · refine ⟨fun total n htotal => ?_,
          fun _ => ⟨_, _, (hreport _ _).mpr ⟨len, hle, hlen, rfl, rfl⟩⟩⟩
        obtain ⟨len', -, hlen', rfl, -⟩ := (hreport total n).mp htotal
        rw [Option.some.inj (hlen'.symm.trans hlen)]
        exact (toInt_ofNat_eq_iff (hcount len hle)).mpr hok

/-- An empty file, with a byte on the stack that is not zero: the client reports one byte. -/
theorem not_reports :
    ¬ ∀ (limit : MsgLimit) (opened : Bool) (file : List UInt8) (t : ReadTrace RESP_MSG_SIZE file)
      (data : CharArray RESP_MSG_SIZE) (stack : List UInt8),
      Reports opened file (clientMain (serverRequest limit opened t.results data stack)) := by
  intro h
  have hone := (h ⟨RESP_MSG_SIZE, le_rfl⟩ true [] ⟨[], by decide, by simp, rfl⟩
    ((CharArray.zeros RESP_MSG_SIZE).write [0x41]) [0]).1 1 1 (by decide +kernel)
  exact absurd hone (by decide)

end SvmsgFile
end CodeStrudy
