import CodeStrudy.Foundation.FileIO
import CodeStrudy.RemoteCommand.Command

/-!
# The response of the remote command server

`practice/61.5/client.c` reads the output of the command from the connection: one `read` into a
buffer of `BUF_SZIE` bytes, a zero byte stored behind what was read, and `printf("%s")` of the
buffer.  What the command prints may be of any length, TCP delivers it in pieces, and a zero byte
in it ends the string.

`answers_iff` says when that is enough: when there is no output, or all of it comes with the first
`read`, leaves room for the zero byte and has no zero byte itself.
-/

namespace CodeStrudy
namespace RemoteCommand

open Foundation

/-! ## The client -/

/-- How the client ends. -/
inductive Ending where
  /-- `ERROUT("read failed!")` -/
  | readFailed
  /-- `buf[numRd] = '\0'` is a store outside of the buffer. -/
  | outOfRange (numRd : ℕ)
  /-- `printf("%s", buf)` -/
  | printed (text : List UInt8)
  deriving DecidableEq

/-- `buf[numRd] = '\0'; printf("%s", buf);` -/
def printBuf (buf : CharArray BUF_SZIE) (numRd : ℕ) : Ending :=
  if numRd < BUF_SZIE then .printed (buf.set numRd 0).str else .outOfRange numRd

/-- The part of `main` from the second `memset` on, for what the one `read` returns; at the end of
the output it returns zero. -/
def respond (numRd : Option ReadResult) : Ending :=
  match numRd with
  | some .error => .readFailed
  | some (.data bytes) => printBuf ((CharArray.zeros BUF_SZIE).write bytes) bytes.length
  | none => printBuf (CharArray.zeros BUF_SZIE) 0

/-- What is on the client's standard output; it is not known after a store outside of the buffer. -/
def Ending.stdout : Ending → Option (List UInt8)
  | .readFailed => some []
  | .outOfRange _ => none
  | .printed text => some text

/-- No index is outside of the buffer, and what is printed is the output of the command. -/
def Answers {output : List UInt8} (t : ReadTrace BUF_SZIE output) : Prop :=
  (respond t.results.head?).stdout = some output

/-- There is no output, or one `read` returns all of it, with room for a zero byte. -/
def Whole {output : List UInt8} (t : ReadTrace BUF_SZIE output) : Prop :=
  output = [] ∨
    t.results.head? = some (.data output) ∧ output.length < BUF_SZIE ∧ 0 ∉ output

/-! ## What is printed -/

/-- The store of the zero byte changes nothing: the buffer was cleared. -/
theorem printBuf_write {bs : List UInt8} (h : bs.length < BUF_SZIE) :
    printBuf ((CharArray.zeros BUF_SZIE).write bs) bs.length = .printed (cstr bs) := by
  have hzeros : BUF_SZIE - bs.length = BUF_SZIE - bs.length - 1 + 1 := by omega
  have hbytes : (((CharArray.zeros BUF_SZIE).write bs).set bs.length 0).bytes =
      bs ++ 0 :: List.replicate (BUF_SZIE - bs.length - 1) 0 := by
    show ((CharArray.zeros BUF_SZIE).write bs).bytes.set bs.length 0 = _
    rw [CharArray.bytes_write_zeros (Nat.le_of_lt h), List.set_append_right _ _ (Nat.le_refl _),
      Nat.sub_self, hzeros, List.replicate_succ, List.set_cons_zero]
    rfl
  rw [printBuf, if_pos h, CharArray.str, hbytes]
  congr 1
  by_cases h0 : 0 ∈ bs
  · exact cstr_append_of_mem h0 _
  · rw [cstr_append_zero h0, cstr_of_notMem h0]

theorem printBuf_zeros : printBuf (CharArray.zeros BUF_SZIE) 0 = .printed [] := by
  have h : printBuf ((CharArray.zeros BUF_SZIE).write []) 0 = .printed [] :=
    printBuf_write (by decide)
  rwa [CharArray.write_nil] at h

theorem stdout_data (bs : List UInt8) :
    (respond (some (.data bs))).stdout =
      if bs.length < BUF_SZIE then some (cstr bs) else none := by
  rw [respond]
  split
  · rename_i h
    rw [printBuf_write h]
    rfl
  · rename_i h
    rw [printBuf, if_neg h]
    rfl

/-- A piece of the output is printed as the whole output exactly if it is and has no zero byte. -/
theorem cstr_eq_iff_of_prefix {bs output : List UInt8} (h : bs <+: output) :
    cstr bs = output ↔ bs = output ∧ 0 ∉ output := by
  constructor
  · intro heq
    have hlen := length_cstr_le bs
    rw [heq] at hlen
    exact ⟨h.eq_of_length_le hlen, heq ▸ zero_notMem_cstr bs⟩
  · rintro ⟨rfl, h0⟩
    exact cstr_of_notMem h0

/-- The first result is a failure or a piece from the beginning of the output. -/
theorem prefix_of_head? {output bs : List UInt8} (t : ReadTrace BUF_SZIE output)
    (h : t.results.head? = some (.data bs)) : bs <+: output := by
  obtain ⟨rs, hrs⟩ := List.head?_eq_some_iff.mp h
  refine ⟨rs.flatMap ReadResult.bytes, ?_⟩
  have hall := t.flatMap_bytes
  rwa [hrs, List.flatMap_cons] at hall

/-- **When the client prints the output of the command.**  For every output and every way it comes
out of the connection: no store is outside of the buffer and the output is printed exactly when
there is none, or the one `read` returns all of it, which is shorter than the buffer and has no zero
byte. -/
theorem answers_iff {output : List UInt8} (t : ReadTrace BUF_SZIE output) :
    Answers t ↔ Whole t := by
  unfold Answers Whole
  cases hhead : t.results.head? with
  | none =>
    have hnil : output = [] := by
      rw [← t.flatMap_bytes, List.head?_eq_none_iff.mp hhead]
      rfl
    rw [respond, printBuf_zeros]
    exact iff_of_true (congrArg some hnil.symm) (Or.inl hnil)
  | some r =>
    cases r with
    | error =>
      rw [respond, Ending.stdout, Option.some.injEq, eq_comm]
      exact (or_iff_left (by simp)).symm
    | data bs =>
      have hpre : bs <+: output := prefix_of_head? t hhead
      have hne : output ≠ [] := by
        intro hnil
        have hbs : bs = [] := List.prefix_nil.mp (hnil ▸ hpre)
        exact t.nil_notMem (hbs ▸ List.mem_of_mem_head? hhead)
      rw [stdout_data, Option.ite_none_right_eq_some, Option.some.injEq,
        cstr_eq_iff_of_prefix hpre, or_iff_right hne, Option.some.injEq, ReadResult.data.injEq]
      constructor
      · rintro ⟨hlt, hbs, h0⟩
        exact ⟨hbs, hbs ▸ hlt, h0⟩
      · rintro ⟨hbs, hlt, h0⟩
        exact ⟨hbs ▸ hlt, hbs, h0⟩

/-- The output `a`, `b` that comes in two pieces. -/
def inTwoPieces : ReadTrace BUF_SZIE [0x61, 0x62] where
  results := [.data [0x61], .data [0x62]]
  nil_notMem := by decide
  length_le := by simp [BUF_SZIE]
  flatMap_bytes := rfl

/-- The client prints the first piece only. -/
theorem not_answers :
    ¬ ∀ (output : List UInt8) (t : ReadTrace BUF_SZIE output), Answers t := by
  intro h
  have hsome := h [0x61, 0x62] inTwoPieces
  revert hsome
  unfold Answers
  decide +kernel

end RemoteCommand
end CodeStrudy
