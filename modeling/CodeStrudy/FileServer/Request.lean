import CodeStrudy.FileServer.FileComm

/-!
# The request of the file client

`practice/52.2/file_client.c` copies two of its arguments into a `struct mq_request` with `strcpy`,
which does not look at the size of a field, and sends the record.  A child of `file_server.c` takes
each field for a string.  The name of the queue goes into the first field, of 128 bytes, but
`mq_open` takes names of up to 255.

`rightRequest_iff` says which pairs of names come out as they went in.  The bytes of the queue name
that do not fit into its field are written into the field behind, where the file name replaces them,
so what the server takes for the queue name goes on with the file name.
-/

namespace CodeStrudy
namespace FileServer

open Foundation

/-! ## The record in memory -/

/-- The bytes of the record. -/
def MqRequest.bytes (req : MqRequest) : CharArray 384 where
  bytes := req.client_mq_name.bytes ++ req.file_name.bytes
  length_bytes := by
    rw [List.length_append, req.client_mq_name.length_bytes, req.file_name.length_bytes]

/-- The record that is made of bytes. -/
def MqRequest.ofBytes (mem : CharArray 384) : MqRequest where
  client_mq_name := ⟨mem.bytes.take 128, by rw [List.length_take, mem.length_bytes]; rfl⟩
  file_name := ⟨mem.bytes.drop 128, by rw [List.length_drop, mem.length_bytes]⟩

@[simp] theorem MqRequest.bytes_ofBytes (mem : CharArray 384) :
    (MqRequest.ofBytes mem).bytes = mem :=
  CharArray.ext (List.take_append_drop 128 mem.bytes)

/-! ## `file_client.c` -/

/-- A name that `mq_open` accepts: a slash and other bytes behind it, up to 255 bytes in all. -/
structure QueueName extends CStr where
  slash_cons : ∃ name, chars = 0x2f :: name ∧ name ≠ [] ∧ 0x2f ∉ name
  length_le : chars.length ≤ 255

/-- `strcpy(req.client_mq_name, argv[1]); strcpy(req.file_name, argv[2]);` on a record that is not
initialised. -/
def copyNames (req : MqRequest) (argv1 argv2 : CStr) : MqRequest :=
  .ofBytes ((req.bytes.writeAt 0 (argv1.chars ++ [0])).writeAt 128 (argv2.chars ++ [0]))

/-- The bytes of `"--help"`. -/
def helpFlag : List UInt8 := [0x2d, 0x2d, 0x68, 0x65, 0x6c, 0x70]

/-- The size of a message, for a queue with the default attributes. -/
def mq_msgsize : ℕ := 8192

/-- `mq_send(serverFd, (char *)&req, attr.mq_msgsize, 0)`: a message of the record and what stands
behind it on the stack; nothing if the program prints its usage. -/
def clientMessage (req : MqRequest) (stack : List UInt8) (argv1 argv2 : CStr) :
    Option (List UInt8) :=
  if argv2.chars = helpFlag then none
  else some (((copyNames req argv1 argv2).bytes.bytes ++ stack).take mq_msgsize)

/-! ## `file_server.c` -/

/-- `req->client_mq_name`, as a string in the memory from the received record on. -/
def clientMqName (mem : List UInt8) : List UInt8 := cstr mem

/-- `req->file_name` -/
def fileName (mem : List UInt8) : List UInt8 := cstr (mem.drop 128)

/-- Whatever was in the record and on the two stacks, the child opens the queue and the file that
the client was called with. -/
def RightRequest (argv1 argv2 : CStr) : Prop :=
  ∀ req stack stack' message, clientMessage req stack argv1 argv2 = some message →
    clientMqName (message ++ stack') = argv1.chars ∧ fileName (message ++ stack') = argv2.chars

/-! ## What the server reads -/

/-- The message has the whole record. -/
theorem exists_message_eq (req : MqRequest) (stack : List UInt8) :
    ∃ behind, (req.bytes.bytes ++ stack).take mq_msgsize = req.bytes.bytes ++ behind := by
  refine ⟨stack.take (mq_msgsize - 384), ?_⟩
  rw [List.take_append, req.bytes.length_bytes, List.take_of_length_le]
  rw [req.bytes.length_bytes, mq_msgsize]
  decide

variable {argv1 argv2 : CStr}

/-- The first copy fills the first field, and the second one leaves it. -/
theorem str_client_mq_name_copyNames (h1 : argv1.chars.length ≤ 255)
    (h2 : argv2.chars.length < 256) (req : MqRequest) :
    (copyNames req argv1 argv2).client_mq_name.str = argv1.chars.take 128 := by
  have hlen1 : (argv1.chars ++ [0]).length ≤ 384 := by
    rw [List.length_append, List.length_singleton]
    omega
  have hlen2 : 128 + (argv2.chars ++ [0]).length ≤ 384 := by
    rw [List.length_append, List.length_singleton]
    omega
  have htake : (copyNames req argv1 argv2).client_mq_name.bytes =
      (req.bytes.writeAt 0 (argv1.chars ++ [0])).bytes.take 128 :=
    CharArray.take_bytes_writeAt hlen2
  have hfirst := CharArray.bytes_write (b := req.bytes) hlen1
  rw [List.append_assoc, List.singleton_append] at hfirst
  exact CharArray.str_of_bytes_eq_take argv1.zero_notMem
    (htake.trans (congrArg (List.take 128) hfirst))

/-- The second field holds the file name. -/
theorem exists_file_name_copyNames (argv1 : CStr) (h2 : argv2.chars.length < 256)
    (req : MqRequest) :
    ∃ garbage, (copyNames req argv1 argv2).file_name.bytes = argv2.chars ++ 0 :: garbage := by
  have hlen : 128 + (argv2.chars ++ [0]).length ≤ 384 := by
    rw [List.length_append, List.length_singleton]
    omega
  have hdrop := CharArray.drop_bytes_writeAt (b := req.bytes.writeAt 0 (argv1.chars ++ [0])) hlen
  rw [List.append_assoc, List.singleton_append] at hdrop
  exact ⟨_, hdrop⟩

/-- What the server reads: the file name, and a queue name that goes on with the file name if it
does not end in its field. -/
theorem names_of_copyNames (h1 : argv1.chars.length ≤ 255) (h2 : argv2.chars.length < 256)
    (req : MqRequest) (behind : List UInt8) :
    clientMqName ((copyNames req argv1 argv2).bytes.bytes ++ behind) =
        (if argv1.chars.length ≤ 127 then argv1.chars else argv1.chars.take 128 ++ argv2.chars) ∧
      fileName ((copyNames req argv1 argv2).bytes.bytes ++ behind) = argv2.chars := by
  obtain ⟨garbage, hfile⟩ := exists_file_name_copyNames argv1 h2 req
  have hmem : (copyNames req argv1 argv2).bytes.bytes ++ behind =
      (copyNames req argv1 argv2).client_mq_name.bytes ++
        (argv2.chars ++ 0 :: (garbage ++ behind)) := by
    show _ ++ (copyNames req argv1 argv2).file_name.bytes ++ behind = _
    rw [hfile, List.append_assoc, List.append_assoc, List.cons_append]
  have hend := cstr_append_zero argv2.zero_notMem (garbage ++ behind)
  rw [hmem]
  constructor
  · rw [clientMqName, CharArray.cstr_bytes_append, str_client_mq_name_copyNames h1 h2,
      List.length_take, hend]
    split_ifs with hlt hle hle
    · exact List.take_of_length_le (by omega)
    · omega
    · omega
    · rfl
  · rw [fileName, List.drop_left' (CharArray.length_bytes _), hend]

/-- **When the server reads the names the client was called with.**  For every queue name that
`mq_open` accepts and every file name shorter than its field: exactly if the program only prints its
usage, the queue name fits into its field with its zero byte, or the file name happens to be what
does not fit. -/
theorem rightRequest_iff (argv1 : QueueName) {argv2 : CStr} (h2 : argv2.chars.length < 256) :
    RightRequest argv1.toCStr argv2 ↔
      argv2.chars = helpFlag ∨ argv1.chars.length ≤ 127 ∨
        argv2.chars = argv1.chars.drop 128 := by
  have hnames := fun req => names_of_copyNames argv1.length_le h2 req
  unfold RightRequest clientMessage
  by_cases hhelp : argv2.chars = helpFlag
  · exact iff_of_true (fun _ _ _ _ h => by rw [if_pos hhelp] at h; cases h) (Or.inl hhelp)
  rw [or_iff_right hhelp]
  constructor
  · intro h
    obtain ⟨hqueue, -⟩ := h default [] [] _ (if_neg hhelp)
    obtain ⟨behind, hbehind⟩ := exists_message_eq (copyNames default argv1.toCStr argv2) []
    rw [hbehind, List.append_nil, (hnames default behind).1] at hqueue
    by_cases hle : argv1.chars.length ≤ 127
    · exact Or.inl hle
    · rw [if_neg hle] at hqueue
      have hsame : argv1.chars.take 128 ++ argv2.chars =
          argv1.chars.take 128 ++ argv1.chars.drop 128 := by
        rw [hqueue, List.take_append_drop]
      exact Or.inr (List.append_cancel_left hsame)
  · intro h req stack stack' message hmessage
    rw [if_neg hhelp] at hmessage
    obtain ⟨behind, hbehind⟩ := exists_message_eq (copyNames req argv1.toCStr argv2) stack
    rw [← Option.some.inj hmessage, hbehind, List.append_assoc]
    refine ⟨(hnames req (behind ++ stack')).1.trans ?_, (hnames req (behind ++ stack')).2⟩
    split_ifs with hle
    · rfl
    · rw [h.resolve_left hle, List.take_append_drop]

/-- A queue name with a slash and more bytes `a`. -/
def longName (n : ℕ) (h : n ≤ 253) : QueueName where
  chars := 0x2f :: List.replicate (n + 1) 0x61
  zero_notMem := by simp
  slash_cons := ⟨List.replicate (n + 1) 0x61, rfl, by simp, by simp⟩
  length_le := by
    rw [List.length_cons, List.length_replicate]
    omega

/-- The file name `f`. -/
def fileF : CStr := ⟨[0x66], by decide⟩

theorem rightRequest_short : RightRequest (longName 3 (by decide)).toCStr fileF :=
  (rightRequest_iff (longName 3 (by decide)) (by decide)).mpr (by decide)

/-- With a queue name of 130 bytes the server opens the first 128 of them and the file name. -/
theorem not_rightRequest : ¬ ∀ (argv1 : QueueName) (argv2 : CStr), argv2.chars.length < 256 →
    RightRequest argv1.toCStr argv2 := by
  intro h
  have hnames := h (longName 128 (by decide)) fileF (by decide) default [] [] _ (if_neg (by decide))
  revert hnames
  decide +kernel

end FileServer
end CodeStrudy
