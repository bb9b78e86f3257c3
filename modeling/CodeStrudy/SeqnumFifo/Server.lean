import CodeStrudy.Foundation.CInt
import CodeStrudy.Foundation.CString
import Mathlib.Data.Int.ConditionallyCompleteOrder
import Mathlib.Order.CompletePartialOrder
import Mathlib.Order.ConditionallyCompleteLattice.Basic

/-!
# The sequence-number server

`routines/44.7.fifo/fifo_seqnum_server.c` hands out ranges of sequence numbers: it reads requests
from a FIFO, adds the length asked for to its counter, and answers with the counter.  The request
FIFO is the list of bytes the clients wrote, eight for each `struct request`.

The length it gives to `read` is `sizeof(req) != sizeof(req)`, the closing parenthesis being one
place too far right, so it reads zero bytes: nothing is ever taken from the FIFO, the test for an
error is never true, and `req` keeps what was on the stack.  `in_order_iff` says when that is not
to be seen: the requests written first have to be what was on the stack.
-/

namespace CodeStrudy
namespace SeqnumFifo

open Foundation

/-- `struct request`. -/
structure Request where
  pid : CInt
  seqLen : CInt
  deriving DecidableEq

/-- `struct response`. -/
structure Response where
  seqLen : CInt
  deriving DecidableEq

/-- `sizeof(struct request)`. -/
def sizeofRequest : ℕ := 8

/-- The bytes of a request, as `write` puts them into the FIFO. -/
def Request.toBytes (r : Request) : List UInt8 := r.pid.toBytes ++ r.seqLen.toBytes

/-- The request that eight bytes of memory hold. -/
def Request.ofBytes (mem : List UInt8) : Request :=
  ⟨CInt.ofBytes mem, CInt.ofBytes (mem.drop 4)⟩

theorem Request.ofBytes_toBytes (r : Request) : Request.ofBytes r.toBytes = r := by
  unfold Request.ofBytes Request.toBytes
  rw [CInt.ofBytes_append (CInt.length_toBytes _), List.drop_left' (CInt.length_toBytes _),
    CInt.ofBytes_toBytes, CInt.ofBytes_toBytes]

/-- `CLIENT_FIFO_TEMPLATE` filled in. -/
def clientFifo (pid : CInt) : String := "/tmp/seqnum_client." ++ toString pid.toInt

/-! ## The server's loop -/

/-- What the kernel answers in one round: whether `open` of the client's FIFO succeeds, and
whether `write` to it is complete. -/
structure Outcome where
  opened : Bool
  written : Bool
  deriving DecidableEq

/-- The server's variables and the bytes in its FIFO. -/
structure State where
  fifo : List UInt8
  req : CharArray sizeofRequest
  reqNum : CInt
  count : ℕ
  deriving DecidableEq

/-- The third argument of the server's `read`: the value of `sizeof(req) != sizeof(req)`. -/
def readLen : ℕ := if sizeofRequest ≠ sizeofRequest then 1 else 0

/-- `read(serverFd, &req, n)` on a FIFO that is never closed for writing: the number of bytes read
and the state after it; `none` when it blocks. -/
def read (n : ℕ) (s : State) : Option (ℕ × State) :=
  if n ≠ 0 ∧ s.fifo = [] then none
  else
    let got := s.fifo.take n
    some (got.length, { s with fifo := s.fifo.drop n, req := s.req.write got })

/-- What the server did with one request: the request it acted on, the FIFO it opened for the
answer, and the answer if it was written. -/
structure Served where
  request : Request
  path : String
  answer : Option Response
  deriving DecidableEq

/-- What a round does after the read: open the client's FIFO, advance the counter, answer. -/
def answer (s : State) (o : Outcome) : Served × State :=
  let req := Request.ofBytes s.req.bytes
  let path := clientFifo req.pid
  if o.opened then
    let reqNum := s.reqNum + req.seqLen
    (⟨req, path, if o.written then some ⟨reqNum⟩ else none⟩, { s with reqNum := reqNum })
  else (⟨req, path, none⟩, s)

/-- The loop, for the rounds whose outcomes are given.  A nonzero result of `read` is taken for an
error and skips the round. -/
def loop : State → List Outcome → List Served
  | _, [] => []
  | s, o :: os =>
    let s := { s with count := s.count + 1 }
    if s.count = 3 then []
    else
      match read readLen s with
      | none => []
      | some (got, s) =>
        if got ≠ 0 then loop s os
        else
          let (served, s) := answer s o
          served :: loop s os

/-- `main`, from its loop on: the requests in the order they were written, the bytes on the stack
where `req` is, and the outcomes of the rounds. -/
def main (requests : List Request) (stack : CharArray sizeofRequest) (os : List Outcome) :
    List Served :=
  loop ⟨requests.flatMap Request.toBytes, stack, 0, 0⟩ os

/-! ## Order and ranges -/

/-- The sequence numbers an answer gives to its request. -/
def Served.range (v : Served) : Set ℤ :=
  match v.answer with
  | some resp => Set.Ico (resp.seqLen.toInt - v.request.seqLen.toInt) resp.seqLen.toInt
  | none => ∅

/-- The server acts on the requests in the order they were written, and the ranges it hands out
are pairwise disjoint. -/
def InOrder (requests : List Request) (served : List Served) : Prop :=
  served.map (·.request) <+: requests ∧
    served.Pairwise fun v w => Disjoint v.range w.range

/-- The read takes nothing and says so. -/
theorem read_readLen (s : State) : read readLen s = some (0, s) := by
  have hlen : readLen = 0 := rfl
  rw [hlen, read, if_neg fun h => h.1 rfl]
  simp

/-- A round of the loop acts on what `req` holds. -/
theorem loop_cons {s : State} (h : s.count + 1 ≠ 3) (o : Outcome) (os : List Outcome) :
    loop s (o :: os) =
      (answer { s with count := s.count + 1 } o).1 ::
        loop (answer { s with count := s.count + 1 } o).2 os := by
  rw [loop, if_neg h, read_readLen]
  rfl

/-- The third round leaves the loop. -/
theorem loop_of_count_eq_two {s : State} (h : s.count = 2) (os : List Outcome) :
    loop s os = [] := by
  cases os with
  | nil => rfl
  | cons o os =>
    rw [loop]
    exact if_pos (congrArg (· + 1) h)

theorem answer_request (s : State) (o : Outcome) :
    (answer s o).1.request = Request.ofBytes s.req.bytes := by
  unfold answer
  cases o.opened <;> rfl

theorem answer_state (s : State) (o : Outcome) :
    (answer s o).2.req = s.req ∧ (answer s o).2.count = s.count := by
  unfold answer
  cases o.opened <;> exact ⟨rfl, rfl⟩

/-- What the server acts on, in each of its rounds, is what was on the stack. -/
theorem map_request_loop (os : List Outcome) {s : State} (hs : s.count ≤ 2) :
    (loop s os).map (·.request) =
      List.replicate (min os.length (2 - s.count)) (Request.ofBytes s.req.bytes) := by
  induction os generalizing s with
  | nil => simp [loop]
  | cons o os ih =>
    by_cases h : s.count = 2
    · rw [loop_of_count_eq_two h, h]
      simp
    · obtain ⟨hreq, hcount⟩ := answer_state { s with count := s.count + 1 } o
      have hlen : min (o :: os).length (2 - s.count) =
          min os.length (2 - (s.count + 1)) + 1 := by
        rw [List.length_cons]
        omega
      have hle : s.count + 1 ≤ 2 := by omega
      rw [loop_cons (by omega), List.map_cons, answer_request, ih (by rw [hcount]; exact hle),
        hreq, hcount, hlen, List.replicate_succ]

/-- Two ranges handed out for the same length do not meet, even when the counter overflows. -/
theorem disjoint_ranges (n : CInt) :
    Disjoint (Set.Ico (n.toInt - n.toInt) n.toInt)
      (Set.Ico ((n + n).toInt - n.toInt) (n + n).toInt) := by
  have h1 := n.toInt_lt
  have h2 := n.le_toInt
  rw [Set.disjoint_left]
  rintro x ⟨hx1, hx2⟩ ⟨hx3, hx4⟩
  rw [BitVec.toInt_add, Int.bmod] at hx3 hx4
  split at hx3 <;> omega

/-- The length asked for in the request that `req` holds. -/
def State.seqLen (s : State) : CInt := (Request.ofBytes s.req.bytes).seqLen

theorem answer_of_not_opened (s : State) {o : Outcome} (h : o.opened = false) :
    (answer s o).1.range = ∅ := by
  simp [answer, h, Served.range]

theorem answer_of_opened (s : State) {o : Outcome} (h : o.opened = true) :
    (answer s o).2 = { s with reqNum := s.reqNum + s.seqLen } := by
  simp [answer, h, State.seqLen]

theorem range_answer_subset (s : State) (o : Outcome) :
    (answer s o).1.range ⊆
      Set.Ico ((s.reqNum + s.seqLen).toInt - s.seqLen.toInt) (s.reqNum + s.seqLen).toInt := by
  obtain ⟨opened, written⟩ := o
  cases opened with
  | false =>
    rw [answer_of_not_opened s rfl]
    exact Set.empty_subset _
  | true =>
    cases written with
    | false => exact Set.empty_subset _
    | true => exact subset_rfl

/-- The answers of two rounds, the first with the counter at zero, for the same request. -/
theorem disjoint_answers {s s' : State} (hs : s.reqNum = 0#32) (o o' : Outcome)
    (hnum : s'.reqNum = (answer s o).2.reqNum) (hlen : s'.seqLen = s.seqLen) :
    Disjoint (answer s o).1.range (answer s' o').1.range := by
  cases ho : o.opened with
  | false =>
    rw [answer_of_not_opened s ho]
    exact disjoint_bot_left
  | true =>
    -- the counter was advanced once before the second answer
    have h1 := range_answer_subset s o
    have h2 := range_answer_subset s' o'
    have hnum' : s'.reqNum = s.seqLen := by
      rw [hnum, answer_of_opened s ho]
      show s.reqNum + s.seqLen = s.seqLen
      rw [hs, BitVec.zero_add]
    rw [hs, BitVec.zero_add] at h1
    rw [hlen, hnum'] at h2
    exact (disjoint_ranges s.seqLen).mono h1 h2

theorem pairwise_disjoint_loop {s : State} (hs : s.reqNum = 0#32) (hc : s.count = 0)
    (os : List Outcome) : (loop s os).Pairwise fun v w => Disjoint v.range w.range := by
  rcases os with _ | ⟨o, _ | ⟨o', os⟩⟩
  · exact List.Pairwise.nil
  · rw [loop_cons (by omega)]
    exact List.pairwise_singleton _ _
  · obtain ⟨hreq, hcount⟩ := answer_state { s with count := s.count + 1 } o
    have hcount' : (answer { s with count := s.count + 1 } o).2.count = 1 :=
      hcount.trans (congrArg (· + 1) hc)
    rw [loop_cons (by omega), loop_cons (by omega), loop_of_count_eq_two]
    · refine List.pairwise_pair.mpr
        (disjoint_answers (s := { s with count := s.count + 1 }) hs o o' rfl ?_)
      exact congrArg (fun r : CharArray _ => (Request.ofBytes r.bytes).seqLen) hreq
    · rw [(answer_state _ o').2, hcount']

/-- **When the server keeps to the order of the requests.**  For all requests, whatever was on the
stack and whatever `open` and `write` answer: the server acts on the requests in the order they
were written and hands out disjoint ranges exactly when the first requests written, one for each of
its (at most two) rounds, are all what the uninitialised `req` holds. -/
theorem in_order_iff (requests : List Request) (stack : CharArray sizeofRequest)
    (os : List Outcome) :
    InOrder requests (main requests stack os) ↔
      List.replicate (min os.length 2) (Request.ofBytes stack.bytes) <+: requests := by
  have hacted : (main requests stack os).map (·.request) =
      List.replicate (min os.length 2) (Request.ofBytes stack.bytes) :=
    map_request_loop os (Nat.zero_le 2)
  unfold InOrder
  rw [hacted]
  exact and_iff_left (pairwise_disjoint_loop rfl rfl os)

/-- A client asks for one number; the server acts on process 0 asking for none. -/
theorem not_in_order :
    ¬ ∀ (requests : List Request) (stack : CharArray sizeofRequest) (os : List Outcome),
      InOrder requests (main requests stack os) := by
  intro h
  have hp := (h [⟨1234, 1⟩] (CharArray.zeros _) [⟨true, true⟩]).1
  exact absurd hp (by decide)

end SeqnumFifo
end CodeStrudy
