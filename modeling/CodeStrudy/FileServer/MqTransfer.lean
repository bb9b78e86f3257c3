import CodeStrudy.Foundation.FileIO
import CodeStrudy.FileServer.FileComm

/-!
# The file transfer over POSIX message queues

`practice/52.2`: for each request the server forks a child, and `msgHandler` sends the file in
records; the client writes the data of each record to its destination file.  The client's queue has
one sender and one receiver and keeps the order of messages of equal priority, so what the client
does is a function of the list of records sent and of the results of its `mq_receive` calls.

## What is proved

Three return values are mishandled.  A `read` that fails returns `-1`, which is not zero, and goes
out as a data record of length `-1`.  An `mq_receive` that fails returns `-1`, which is not zero
either, and the client handles the record it received last once more.  And the destination is opened
without `O_TRUNC`.  `faithful_iff` says that these are the only ways to go wrong: for a client that
leaves its loop by a `RESP_END` record, the transfer is faithful exactly if no `read` and no
`mq_receive` failed and the destination was no longer than the source.
-/

namespace CodeStrudy
namespace FileServer
namespace MqTransfer

open Foundation

/-- `sizeof(resp.data)`. -/
def dataSize : ℕ := 4096

/-! ## The server's child -/

/-- `mq_send(clientFd, &resp, sizeof(resp), 0)`, where `sends` are the results of the calls; a list
that ends is a server that is blocked in the call. -/
def mqSend (resp : MqResponse) : List Bool → List MqResponse
  | true :: _ => [resp]
  | _ => []

/-- The record after `resp.dataLen = read(fd, resp.data, sizeof(resp.data))`, with the flags it is
sent with.  A failed `read` returns `-1` and leaves the data. -/
def fill (resp : MqResponse) : ReadResult → MqResponse
  | .data bs => ⟨RESP_DATA, resp.data.write bs, BitVec.ofNat 32 bs.length⟩
  | .error => { resp with flags := RESP_DATA, dataLen := -1 }

/-- The loop of `msgHandler` and the end record: what is sent.  A failed `mq_send` in the loop is
an `ERROUT`. -/
def sendLoop (resp : MqResponse) : List ReadResult → List Bool → List MqResponse
  | [], sends => mqSend { resp with flags := RESP_END, dataLen := 0 } sends
  | r :: rs, true :: sends => fill resp r :: sendLoop (fill resp r) rs sends
  | _ :: _, _ => []

/-- `msgHandler`: the records the client is sent.  `mqOpened` and `opened` are whether `mq_open`
and `open` succeed, and `resp` is what was on the stack. -/
def msgHandler (mqOpened opened : Bool) (reads : List ReadResult) (sends : List Bool)
    (resp : MqResponse) : List MqResponse :=
  if mqOpened then
    if opened then sendLoop resp reads sends
    else mqSend { resp with flags := RESP_FAILE } sends
  else []

/-! ## The client -/

/-- Where the client is: at its `mq_receive`, or out of its loop, with whether the last
`mq_receive` returned a record. -/
inductive ClientPc where
  | receive
  | left (received : Bool)
  deriving DecidableEq

/-- The client in its loop. -/
structure Client where
  pc : ClientPc
  resp : MqResponse
  file : OpenFile
  num : CInt
  /-- For every `write` so far, whether the `mq_receive` before it returned a record. -/
  writes : List Bool

/-- The client at the head of its loop: `resp` is what was on the stack, and the destination, opened
with `O_CREAT` only, still has its previous content. -/
def Client.start (resp : MqResponse) (prev : List UInt8) : Client :=
  ⟨.receive, resp, .opened prev, 0, []⟩

/-- The bytes that `write(fd, resp.data, resp.dataLen)` writes: those from `resp.data` on, where
`stack` is what follows the record.  A negative length is refused. -/
def payload (stack : List UInt8) (resp : MqResponse) : List UInt8 :=
  if resp.dataLen.toInt < 0 then []
  else (resp.data.bytes ++ resp.dataLen.toBytes ++ stack).take resp.dataLen.toNat

/-- The body of the loop after an `mq_receive` that did or did not return a record.  The test for a
failed call is for zero, which `mq_receive` does not return here. -/
def Client.handle (stack : List UInt8) (c : Client) (received : Bool) : Client :=
  if c.resp.flags ≠ RESP_DATA then { c with pc := .left received }
  else { c with
    file := c.file.write (payload stack c.resp)
    num := c.num + c.resp.dataLen
    writes := c.writes ++ [received] }

/-- `mq_receive(clientFd, &resp, …)`: `true` is the next record, which there must be, and `false` is
`-1`, which leaves `resp` as it was. -/
def mqReceive (resp : MqResponse) (queue : List MqResponse) :
    Bool → Option (MqResponse × List MqResponse)
  | true => queue.head?.map fun next => (next, queue.tail)
  | false => some (resp, queue)

/-- The client's loop, with the results of its `mq_receive` calls, on the records that are sent. -/
def clientLoop (stack : List UInt8) (c : Client) : List Bool → List MqResponse → Option Client
  | [], _ => some c
  | ok :: oks, queue =>
    if c.pc = .receive then
      (mqReceive c.resp queue ok).bind fun received =>
        clientLoop stack ({ c with resp := received.1 }.handle stack ok) oks received.2
    else none

/-! ## The property -/

/-- The client left its loop because of a `RESP_END` record. -/
def Client.LeftByEnd (c : Client) : Prop := c.pc = .left true ∧ c.resp.flags = RESP_END

/-- The destination is the source, no failed `read` was sent as data, and no failed `mq_receive`
was followed by a `write`. -/
structure Faithful (source : List UInt8) (sent : List MqResponse) (c : Client) : Prop where
  content_eq : c.file.content = source
  dataLen_nonneg : ∀ resp ∈ sent, resp.flags = RESP_DATA → 0 ≤ resp.dataLen.toInt
  false_notMem_writes : false ∉ c.writes

/-! ## What the server sends -/

theorem toInt_ofNat_of_le {n : ℕ} (h : n ≤ dataSize) : (BitVec.ofNat 32 n).toInt = n :=
  CInt.toInt_ofNat_of_lt (lt_of_le_of_lt h (by decide))

theorem payload_fill (stack : List UInt8) (resp : MqResponse) {r : ReadResult}
    (h : r.bytes.length ≤ dataSize) : payload stack (fill resp r) = r.bytes := by
  cases r with
  | error => rfl
  | data bs =>
    show payload stack ⟨RESP_DATA, resp.data.write bs, BitVec.ofNat 32 bs.length⟩ = bs
    have hlen : bs.length ≤ dataSize := h
    have hnat : (BitVec.ofNat 32 bs.length).toNat = bs.length := by
      rw [BitVec.toNat_ofNat]
      exact Nat.mod_eq_of_lt (lt_of_le_of_lt hlen (by decide))
    rw [payload, toInt_ofNat_of_le hlen, if_neg (by omega), hnat]
    show ((resp.data.write bs).bytes ++ _ ++ stack).take bs.length = bs
    rw [CharArray.bytes_write (n := 4096) hlen, List.append_assoc, List.append_assoc,
      List.take_left]

@[simp] theorem flags_fill (resp : MqResponse) (r : ReadResult) :
    (fill resp r).flags = RESP_DATA := by
  cases r <;> rfl

theorem mem_mqSend {resp resp' : MqResponse} {sends : List Bool} (h : resp' ∈ mqSend resp sends) :
    resp' = resp := by
  unfold mqSend at h
  split at h
  · exact List.mem_singleton.mp h
  · cases h

/-- Without failed reads, no record has a negative length. -/
theorem dataLen_nonneg_of_mem_sendLoop {rs : List ReadResult} (herr : .error ∉ rs)
    (hlen : ∀ bs, .data bs ∈ rs → bs.length ≤ dataSize) {resp resp' : MqResponse}
    {sends : List Bool} (h : resp' ∈ sendLoop resp rs sends) : 0 ≤ resp'.dataLen.toInt := by
  induction rs generalizing resp sends with
  | nil =>
    rw [mem_mqSend h]
    exact le_rfl
  | cons r rs ih =>
    cases sends with
    | nil => cases h
    | cons ok sends =>
      cases ok with
      | false => cases h
      | true =>
        rcases List.mem_cons.mp h with rfl | h
        · cases r with
          | error => exact absurd List.mem_cons_self herr
          | data bs =>
            show 0 ≤ (BitVec.ofNat 32 bs.length).toInt
            rw [toInt_ofNat_of_le (hlen bs List.mem_cons_self)]
            exact Int.natCast_nonneg _
        · exact ih (fun he => herr (List.mem_cons_of_mem _ he))
            (fun bs hbs => hlen bs (List.mem_cons_of_mem _ hbs)) h

/-- The end record comes after a record for every read, and a failed read has a negative length. -/
theorem exists_dataLen_neg {rs : List ReadResult} (herr : .error ∈ rs) {resp : MqResponse}
    {sends : List Bool} (hend : ∃ resp' ∈ sendLoop resp rs sends, resp'.flags = RESP_END) :
    ∃ resp' ∈ sendLoop resp rs sends, resp'.flags = RESP_DATA ∧ resp'.dataLen.toInt < 0 := by
  induction rs generalizing resp sends with
  | nil => cases herr
  | cons r rs ih =>
    obtain ⟨resp', hmem, hflags⟩ := hend
    cases sends with
    | nil => cases hmem
    | cons ok sends =>
      cases ok with
      | false => cases hmem
      | true =>
        rcases List.mem_cons.mp herr with rfl | herr
        · exact ⟨fill resp .error, List.mem_cons_self, rfl, (by decide : (-1 : CInt).toInt < 0)⟩
        · rcases List.mem_cons.mp hmem with rfl | hmem
          · rw [flags_fill] at hflags
            exact absurd hflags (by decide)
          · obtain ⟨m, hm, hdata⟩ := ih herr ⟨resp', hmem, hflags⟩
            exact ⟨m, List.mem_cons_of_mem _ hm, hdata⟩

/-- An end record is sent only of a file that could be opened. -/
theorem msgHandler_eq_sendLoop {mqOpened opened : Bool} {rs : List ReadResult} {sends : List Bool}
    {resp : MqResponse}
    (h : ∃ resp' ∈ msgHandler mqOpened opened rs sends resp, resp'.flags = RESP_END) :
    msgHandler mqOpened opened rs sends resp = sendLoop resp rs sends := by
  obtain ⟨resp', hmem, hflags⟩ := h
  unfold msgHandler at hmem ⊢
  cases mqOpened with
  | false => cases hmem
  | true =>
    cases opened with
    | true => rfl
    | false =>
      rw [mem_mqSend hmem] at hflags
      exact absurd hflags (by decide : RESP_FAILE ≠ RESP_END)

/-! ## What the client does -/

section Client

variable {stack : List UInt8} {c c' : Client} {ok : Bool} {oks : List Bool}
  {queue : List MqResponse}

theorem handle_of_ne (h : c.resp.flags ≠ RESP_DATA) :
    c.handle stack ok = { c with pc := .left ok } := if_pos h

theorem handle_of_eq (h : c.resp.flags = RESP_DATA) :
    c.handle stack ok = { c with
      file := c.file.write (payload stack c.resp)
      num := c.num + c.resp.dataLen
      writes := c.writes ++ [ok] } := if_neg (not_not.mpr h)

/-- A client that has left makes no further call. -/
theorem clientLoop_of_left {b : Bool} (hpc : c.pc = .left b)
    (h : clientLoop stack c oks queue = some c') : oks = [] ∧ c' = c := by
  cases oks with
  | nil => exact ⟨rfl, (Option.some.inj h).symm⟩
  | cons ok oks =>
    rw [clientLoop, if_neg (by rw [hpc]; exact ClientPc.noConfusion)] at h
    cases h

/-- One call of `mq_receive`: what is in `resp` after it is handled, the next record or what was
there. -/
theorem clientLoop_cons (h : clientLoop stack c (ok :: oks) queue = some c') :
    ∃ resp rest, clientLoop stack ({ c with resp := resp }.handle stack ok) oks rest = some c' ∧
      (ok = true ∧ queue = resp :: rest ∨ ok = false ∧ resp = c.resp ∧ rest = queue) := by
  rw [clientLoop, Option.ite_none_right_eq_some] at h
  obtain ⟨⟨resp, rest⟩, hreceive, h⟩ := Option.bind_eq_some_iff.mp h.2
  refine ⟨resp, rest, h, ?_⟩
  cases ok with
  | true =>
    cases queue with
    | nil => cases hreceive
    | cons next queue =>
      obtain ⟨rfl, rfl⟩ := Prod.mk.inj (Option.some.inj hreceive)
      exact Or.inl ⟨rfl, rfl⟩
  | false =>
    obtain ⟨rfl, rfl⟩ := Prod.mk.inj (Option.some.inj hreceive)
    exact Or.inr ⟨rfl, rfl, rfl⟩

/-- The record by which a client leaves was sent. -/
theorem resp_mem_of_leftByEnd (hpc : c.pc = .receive)
    (h : clientLoop stack c oks queue = some c') (hend : c'.LeftByEnd) : c'.resp ∈ queue := by
  induction oks generalizing c queue with
  | nil =>
    rw [← Option.some.inj h] at hend
    exact absurd (hpc.symm.trans hend.1) ClientPc.noConfusion
  | cons ok oks ih =>
    obtain ⟨resp, rest, h, hcase⟩ := clientLoop_cons h
    by_cases hdata : resp.flags = RESP_DATA
    · rw [handle_of_eq hdata] at h
      have hmem := ih (c := { c with
        resp := resp
        file := c.file.write (payload stack resp)
        num := c.num + resp.dataLen
        writes := c.writes ++ [ok] }) hpc h
      rcases hcase with ⟨-, rfl⟩ | ⟨-, -, rfl⟩
      · exact List.mem_cons_of_mem _ hmem
      · exact hmem
    · rw [handle_of_ne hdata] at h
      obtain ⟨-, rfl⟩ := clientLoop_of_left rfl h
      rcases hcase with ⟨-, rfl⟩ | ⟨rfl, -, -⟩
      · exact List.mem_cons_self
      · cases hend.1

/-- A failed `mq_receive` is followed by a `write`, unless the client leaves because of it. -/
theorem false_mem_writes_iff (h : clientLoop stack c oks queue = some c') (hend : c'.LeftByEnd) :
    false ∈ c'.writes ↔ false ∈ c.writes ∨ false ∈ oks := by
  induction oks generalizing c queue with
  | nil =>
    rw [Option.some.inj h]
    simp
  | cons ok oks ih =>
    obtain ⟨resp, rest, h, -⟩ := clientLoop_cons h
    by_cases hdata : resp.flags = RESP_DATA
    · rw [handle_of_eq hdata] at h
      rw [ih h, List.mem_append, List.mem_singleton, List.mem_cons, or_assoc]
    · rw [handle_of_ne hdata] at h
      obtain ⟨rfl, rfl⟩ := clientLoop_of_left rfl h
      have hok : ok = true := ClientPc.left.inj hend.1
      rw [hok]
      simp

/-- A client that receives every record writes what every read returned. -/
theorem file_of_leftByEnd {rs : List ReadResult}
    (hlen : ∀ r ∈ rs, r.bytes.length ≤ dataSize) {resp : MqResponse} {sends : List Bool}
    (hpc : c.pc = .receive) (h : clientLoop stack c oks (sendLoop resp rs sends) = some c')
    (hend : c'.LeftByEnd) (hoks : false ∉ oks) :
    c'.file = (rs.map ReadResult.bytes).foldl OpenFile.write c.file := by
  induction rs generalizing c resp sends oks with
  | nil =>
    cases oks with
    | nil =>
      rw [← Option.some.inj h] at hend
      exact absurd (hpc.symm.trans hend.1) ClientPc.noConfusion
    | cons ok oks =>
      obtain ⟨resp', rest, h, hcase⟩ := clientLoop_cons h
      rcases hcase with ⟨-, hqueue⟩ | ⟨rfl, -⟩
      · have hmem : resp' ∈ sendLoop resp [] sends := hqueue ▸ List.mem_cons_self
        have hne : resp'.flags ≠ RESP_DATA := by
          rw [mem_mqSend hmem]
          exact (by decide : RESP_END ≠ RESP_DATA)
        rw [handle_of_ne hne] at h
        obtain ⟨-, rfl⟩ := clientLoop_of_left rfl h
        rfl
      · exact absurd List.mem_cons_self hoks
  | cons r rs ih =>
    cases oks with
    | nil =>
      rw [← Option.some.inj h] at hend
      exact absurd (hpc.symm.trans hend.1) ClientPc.noConfusion
    | cons ok oks =>
      obtain ⟨resp', rest, h, hcase⟩ := clientLoop_cons h
      rcases hcase with ⟨-, hqueue⟩ | ⟨rfl, -⟩
      · obtain ⟨sends, rfl⟩ : ∃ sends', sends = true :: sends' := by
          rcases sends with - | ⟨_ | _, sends⟩
          · cases hqueue
          · cases hqueue
          · exact ⟨sends, rfl⟩
        obtain ⟨rfl, rfl⟩ := List.cons.inj hqueue
        rw [handle_of_eq (flags_fill resp r)] at h
        have hfile := ih (fun r hr => hlen r (List.mem_cons_of_mem _ hr))
          (c := { c with
            resp := fill resp r
            file := c.file.write (payload stack (fill resp r))
            num := c.num + (fill resp r).dataLen
            writes := c.writes ++ [ok] }) hpc h (fun hf => hoks (List.mem_cons_of_mem _ hf))
        rw [hfile, payload_fill stack resp (hlen r List.mem_cons_self), List.map_cons,
          List.foldl_cons]
      · exact absurd List.mem_cons_self hoks

end Client

/-! ## The exact condition -/

/-- **When the transfer is faithful.**  For every source and every previous content of the
destination, every outcome of the server's and of the client's calls and whatever was on the two
stacks: a client that leaves its loop by a `RESP_END` record has made a faithful copy exactly if no
`read` failed, no `mq_receive` failed, and the destination was no longer than the source. -/
theorem faithful_iff {source : List UInt8} (t : ReadTrace dataSize source) (mqOpened opened : Bool)
    (sends : List Bool) (resp resp' : MqResponse) (prev stack : List UInt8) (oks : List Bool)
    {c : Client}
    (h : clientLoop stack (.start resp' prev) oks
      (msgHandler mqOpened opened t.results sends resp) = some c) (hend : c.LeftByEnd) :
    Faithful source (msgHandler mqOpened opened t.results sends resp) c ↔
      .error ∉ t.results ∧ false ∉ oks ∧ prev.length ≤ source.length := by
  have hsent : ∃ m ∈ msgHandler mqOpened opened t.results sends resp, m.flags = RESP_END :=
    ⟨c.resp, resp_mem_of_leftByEnd rfl h hend, hend.2⟩
  have hsend := msgHandler_eq_sendLoop hsent
  rw [hsend] at h hsent ⊢
  have hwrites : false ∈ c.writes ↔ false ∈ oks := by
    rw [false_mem_writes_iff h hend]
    simp [Client.start]
  have hlen : ∀ r ∈ t.results, r.bytes.length ≤ dataSize := by
    intro r hr
    cases r with
    | data bs => exact t.length_le bs hr
    | error => exact Nat.zero_le _
  have hcontent : false ∉ oks → (c.file.content = source ↔ prev.length ≤ source.length) := by
    intro hoks
    rw [file_of_leftByEnd hlen rfl h hend hoks]
    have hiff :=
      OpenFile.content_foldl_write_opened_eq_iff prev (t.results.map ReadResult.bytes)
    rwa [← List.flatMap_def, t.flatMap_bytes] at hiff
  constructor
  · rintro ⟨hfile, hread, hreceive⟩
    have hoks : false ∉ oks := fun hf => hreceive (hwrites.mpr hf)
    refine ⟨fun herr => ?_, hoks, (hcontent hoks).mp hfile⟩
    obtain ⟨m, hm, hflags, hneg⟩ := exists_dataLen_neg herr hsent
    exact absurd (hread m hm hflags) (not_le.mpr hneg)
  · rintro ⟨herr, hoks, hprev⟩
    exact ⟨(hcontent hoks).mpr hprev,
      fun m hm _ => dataLen_nonneg_of_mem_sendLoop herr t.length_le hm,
      fun hf => hoks (hwrites.mp hf)⟩

/-- A file of one byte, read and received without a failure. -/
theorem faithful_one_byte :
    ∃ c, clientLoop [] (.start default []) [true, true]
        (msgHandler true true [.data [7]] [true, true] default) = some c ∧
      Faithful [7] (msgHandler true true [.data [7]] [true, true] default) c := by
  refine ⟨_, rfl, ?_⟩
  exact (faithful_iff ⟨[.data [7]], by decide, by simp [dataSize], rfl⟩ true true [true, true]
    default default [] [] [true, true] rfl ⟨rfl, rfl⟩).mpr ⟨by decide, by decide, by decide⟩

/-- An empty file is sent without a failure, and the destination keeps its one byte. -/
theorem not_faithful :
    ¬ ∀ (source : List UInt8) (t : ReadTrace dataSize source) (mqOpened opened : Bool)
      (sends : List Bool) (resp resp' : MqResponse) (prev stack : List UInt8) (oks : List Bool)
      (c : Client),
      clientLoop stack (.start resp' prev) oks
        (msgHandler mqOpened opened t.results sends resp) = some c → c.LeftByEnd →
      Faithful source (msgHandler mqOpened opened t.results sends resp) c := by
  intro h
  have hfaithful := h [] ⟨[], by decide, by simp, rfl⟩ true true [true] default default [1] []
    [true] _ rfl ⟨rfl, rfl⟩
  exact absurd hfaithful.content_eq (by decide)

end MqTransfer
end FileServer
end CodeStrudy
