import CodeStrudy.Foundation.CInt
import CodeStrudy.Foundation.CString

/-!
# Files read and written in pieces

What a program sees of a file is the results of its `read` calls: a piece of any positive length up
to the size it asked for, or a failure, which leaves the file position where it was; after the last
piece `read` returns zero.  `ReadTrace` is a sequence of such results that together deliver the
whole file.

What a program makes of a file it writes is the content and the file offset of an open file.  Bytes
behind the offset stay as they were: `content_foldl_write` says what is left of the old content
when the file was opened without being cut to length zero.
-/

namespace CodeStrudy
namespace Foundation

/-- The result of a `read` before the end of the file. -/
inductive ReadResult where
  | data (bytes : List UInt8)
  | error
  deriving DecidableEq

namespace ReadResult

/-- The bytes a result delivers. -/
def bytes : ReadResult → List UInt8
  | .data bs => bs
  | .error => []

/-- The pieces delivered before the first failure. -/
def chunks : List ReadResult → List (List UInt8)
  | .data bs :: rs => bs :: chunks rs
  | _ => []

theorem flatten_chunks_isPrefix (rs : List ReadResult) :
    (chunks rs).flatten <+: rs.flatMap bytes := by
  induction rs with
  | nil => exact List.prefix_rfl
  | cons r rs ih =>
    cases r with
    | data bs =>
      rw [chunks, List.flatten_cons, List.flatMap_cons, bytes]
      exact (List.prefix_append_right_inj bs).mpr ih
    | error => exact List.nil_prefix

end ReadResult

/-- The results of reading `file` to its end with calls that ask for `size` bytes. -/
structure ReadTrace (size : ℕ) (file : List UInt8) where
  /-- The results, in order; after them `read` returns zero. -/
  results : List ReadResult
  /-- Zero is returned at the end of the file only. -/
  nil_notMem : .data [] ∉ results
  /-- No call returns more than it was asked for. -/
  length_le : ∀ bs, .data bs ∈ results → bs.length ≤ size
  /-- All of the file is delivered, in order. -/
  flatMap_bytes : results.flatMap ReadResult.bytes = file

namespace ReadTrace

open ReadResult

theorem mem_of_mem_chunks {rs : List ReadResult} {bs : List UInt8} (h : bs ∈ chunks rs) :
    .data bs ∈ rs := by
  induction rs with
  | nil => cases h
  | cons r rs ih =>
    cases r with
    | data bs' =>
      rcases List.mem_cons.mp h with rfl | h
      · exact List.mem_cons_self
      · exact List.mem_cons_of_mem _ (ih h)
    | error => cases h

variable {size : ℕ} {file : List UInt8} (t : ReadTrace size file)

theorem length_flatten_chunks_le : (chunks t.results).flatten.length ≤ file.length := by
  have h := (flatten_chunks_isPrefix t.results).length_le
  rwa [t.flatMap_bytes] at h

theorem length_le_of_mem_chunks {bs : List UInt8} (h : bs ∈ chunks t.results) :
    bs.length ≤ size :=
  t.length_le bs (mem_of_mem_chunks h)

/-- A result that is not a failure is a piece of the file. -/
theorem exists_data_of_mem {r : ReadResult} (hr : r ∈ t.results) (hne : r ≠ .error) :
    ∃ bs, r = .data bs ∧ bs ≠ [] ∧ bs.length ≤ size := by
  cases r with
  | error => exact absurd rfl hne
  | data bs => exact ⟨bs, rfl, fun h => t.nil_notMem (h ▸ hr), t.length_le bs hr⟩

/-- Without failures every result is a piece of the file. -/
theorem exists_data (herr : .error ∉ t.results) :
    ∀ r ∈ t.results, ∃ bs, r = .data bs ∧ bs ≠ [] ∧ bs.length ≤ size := by
  intro r hr
  refine t.exists_data_of_mem hr ?_
  rintro rfl
  exact herr hr

end ReadTrace

/-! ## A read that may be short -/

/-- The number of bytes that a `read` of `size` bytes delivers if there are as many, for what the
call does: it fails, or delivers `n + 1` bytes at most. -/
def readSize (call : Option ℕ) (size : ℕ) : ℕ :=
  match call with
  | none => 0
  | some n => min (n + 1) size

theorem readSize_le (call : Option ℕ) (size : ℕ) : readSize call size ≤ size := by
  cases call with
  | none => exact Nat.zero_le _
  | some n => exact Nat.min_le_right _ _

/-- A call that does not fail delivers something, if it is asked to. -/
theorem readSize_eq_zero_iff {call : Option ℕ} (h : call ≠ none) {size : ℕ} :
    readSize call size = 0 ↔ size = 0 := by
  cases call with
  | none => exact absurd rfl h
  | some n =>
    show min (n + 1) size = 0 ↔ size = 0
    omega

/-- What `read` returns, and what is left of the input. -/
def readShort (call : Option ℕ) (size : ℕ) (input : List UInt8) :
    Option (List UInt8 × List UInt8) :=
  if call = none then none
  else some (input.take (readSize call size), input.drop (readSize call size))

/-! ## A buffer with a length -/

/-- What is handed over in a buffer with a length beside it: a piece of a file, or the end of the
file if the length is zero. -/
def item {n : ℕ} (len : CInt) (buf : CharArray n) : Option (List UInt8) :=
  if len = 0 then none else some (buf.bytes.take len.toNat)

@[simp] theorem item_zero {n : ℕ} (buf : CharArray n) : item 0#32 buf = none := if_pos rfl

theorem item_eq_none_iff {n : ℕ} {len : CInt} {buf : CharArray n} :
    item len buf = none ↔ len = 0 := by
  unfold item
  split <;> simp_all

theorem exists_item {n : ℕ} {len : CInt} (h : len ≠ 0) (buf : CharArray n) :
    ∃ bs, item len buf = some bs :=
  Option.ne_none_iff_exists'.mp fun hnone => h (item_eq_none_iff.mp hnone)

/-- The buffer and the length that a successful `read` leaves. -/
theorem item_write {n : ℕ} (hn : n < 2 ^ 32) {bs : List UInt8} (hne : bs ≠ [])
    (hlen : bs.length ≤ n) (buf : CharArray n) :
    item (BitVec.ofNat 32 bs.length) (buf.write bs) = some bs := by
  have hnat : (BitVec.ofNat 32 bs.length).toNat = bs.length := by
    rw [BitVec.toNat_ofNat]
    exact Nat.mod_eq_of_lt (lt_of_le_of_lt hlen hn)
  have hzero : BitVec.ofNat 32 bs.length ≠ 0 := by
    intro h
    rw [h] at hnat
    exact hne (List.length_eq_zero_iff.mp hnat.symm)
  rw [item, if_neg hzero, hnat, CharArray.bytes_write hlen, List.take_left]

/-! ## Writing -/

/-- The result of a `write`. -/
inductive WriteResult where
  | wrote (count : ℕ)
  | error
  deriving DecidableEq

/-- What a `write` of `size` bytes returns. -/
def WriteResult.value (r : WriteResult) (size : ℕ) : ℤ :=
  match r with
  | .wrote count => min count size
  | .error => -1

/-- A `write` is complete if it returns the number of bytes it was given. -/
theorem WriteResult.value_eq_iff {r : WriteResult} {size : ℕ} :
    r.value size = size ↔ ∃ count, r = .wrote count ∧ size ≤ count := by
  cases r with
  | wrote count => simp [value]
  | error => simp [value]

/-- The content after a complete `write` of `bs` at an offset, which may be behind the end: what is
skipped reads as zero. -/
def writeAt (content : List UInt8) (offset : ℕ) (bs : List UInt8) : List UInt8 :=
  if bs = [] then content
  else content.take offset ++ List.replicate (offset - content.length) 0 ++ bs ++
    content.drop (offset + bs.length)

/-- A file grows by the part of a write that is behind its end. -/
theorem length_writeAt (content : List UInt8) (offset : ℕ) {bs : List UInt8} (h : bs ≠ []) :
    (writeAt content offset bs).length = max content.length (offset + bs.length) := by
  rw [writeAt, if_neg h]
  simp only [List.length_append, List.length_take, List.length_replicate, List.length_drop]
  omega

/-- An open file: its content and the file offset.  The programs here never seek, so the offset is
inside the file. -/
@[ext] structure OpenFile where
  content : List UInt8
  offset : ℕ
  /-- The offset is inside the file. -/
  offset_le : offset ≤ content.length
  deriving DecidableEq

namespace OpenFile

/-- A file just opened with `O_CREAT` and without `O_TRUNC`. -/
def opened (content : List UInt8) : OpenFile := ⟨content, 0, Nat.zero_le _⟩

/-- A complete `write`. -/
def write (f : OpenFile) (bs : List UInt8) : OpenFile where
  content := f.content.take f.offset ++ bs ++ f.content.drop (f.offset + bs.length)
  offset := f.offset + bs.length
  offset_le := by
    have := f.offset_le
    rw [List.length_append, List.length_append, List.length_take, List.length_drop]
    omega

/-- The bytes before the offset. -/
def written (f : OpenFile) : List UInt8 := f.content.take f.offset

@[simp] theorem write_nil (f : OpenFile) : f.write [] = f := by
  refine OpenFile.ext ?_ rfl
  show f.content.take f.offset ++ [] ++ f.content.drop (f.offset + 0) = f.content
  rw [List.append_nil, Nat.add_zero, List.take_append_drop]

@[simp] theorem offset_write (f : OpenFile) (bs : List UInt8) :
    (f.write bs).offset = f.offset + bs.length := rfl

theorem length_written (f : OpenFile) : f.written.length = f.offset := by
  rw [written, List.length_take, Nat.min_eq_left f.offset_le]

@[simp] theorem written_opened (content : List UInt8) : (opened content).written = [] := rfl

@[simp] theorem written_write (f : OpenFile) (bs : List UInt8) :
    (f.write bs).written = f.written ++ bs := by
  have hlen : (f.written ++ bs).length = f.offset + bs.length := by
    rw [List.length_append, length_written]
  show ((f.written ++ bs) ++ f.content.drop (f.offset + bs.length)).take (f.offset + bs.length) = _
  rw [← hlen, List.take_left]

/-- A write leaves what is behind the new offset. -/
theorem drop_content_write (f : OpenFile) (bs : List UInt8) :
    (f.write bs).content.drop (f.offset + bs.length) = f.content.drop (f.offset + bs.length) := by
  have hlen : (f.written ++ bs).length = f.offset + bs.length := by
    rw [List.length_append, length_written]
  show ((f.written ++ bs) ++ f.content.drop (f.offset + bs.length)).drop (f.offset + bs.length) = _
  rw [← hlen, List.drop_left]

/-- After a list of writes the file is what was written, and behind it what was there before. -/
theorem content_foldl_write (f : OpenFile) (bss : List (List UInt8)) :
    (bss.foldl write f).content =
      f.written ++ bss.flatten ++ f.content.drop (f.offset + bss.flatten.length) := by
  induction bss generalizing f with
  | nil => simp [written]
  | cons bs bss ih =>
    have hdrop : (f.write bs).content.drop (f.offset + bs.length + bss.flatten.length) =
        f.content.drop (f.offset + bs.length + bss.flatten.length) := by
      rw [← List.drop_drop, drop_content_write, List.drop_drop]
    rw [List.foldl_cons, ih, written_write, offset_write, hdrop, List.flatten_cons,
      List.length_append, List.append_assoc f.written, Nat.add_assoc]

theorem content_foldl_write_opened (prev : List UInt8) (bss : List (List UInt8)) :
    (bss.foldl write (opened prev)).content = bss.flatten ++ prev.drop bss.flatten.length := by
  have h := content_foldl_write (opened prev) bss
  rw [written_opened, List.nil_append] at h
  rw [h]
  show bss.flatten ++ prev.drop (0 + bss.flatten.length) = _
  rw [Nat.zero_add]

/-- What was written is the whole file exactly if the old content was no longer. -/
theorem content_foldl_write_opened_eq_iff (prev : List UInt8) (bss : List (List UInt8)) :
    (bss.foldl write (opened prev)).content = bss.flatten ↔
      prev.length ≤ bss.flatten.length := by
  rw [content_foldl_write_opened, List.append_right_eq_self, List.drop_eq_nil_iff]

theorem offset_foldl_write (f : OpenFile) (bss : List (List UInt8)) :
    (bss.foldl write f).offset = f.offset + bss.flatten.length := by
  induction bss generalizing f with
  | nil => rfl
  | cons bs bss ih =>
    rw [List.foldl_cons, ih, offset_write, List.flatten_cons, List.length_append, Nat.add_assoc]

/-- Writes leave an open file as it was exactly if they write nothing. -/
theorem foldl_write_eq_self_iff {f : OpenFile} {bss : List (List UInt8)} :
    bss.foldl write f = f ↔ ∀ bs ∈ bss, bs = [] := by
  rw [← List.flatten_eq_nil_iff]
  constructor
  · intro h
    have hoffset := offset_foldl_write f bss
    rw [h, Nat.left_eq_add] at hoffset
    exact List.length_eq_zero_iff.mp hoffset
  · intro h
    rw [List.flatten_eq_nil_iff] at h
    induction bss with
    | nil => rfl
    | cons bs bss ih =>
      rw [List.foldl_cons, h bs List.mem_cons_self, write_nil]
      exact ih fun bs hbs => h bs (List.mem_cons_of_mem _ hbs)

end OpenFile

end Foundation
end CodeStrudy
