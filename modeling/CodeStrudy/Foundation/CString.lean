import Mathlib.Data.List.GetD
import Mathlib.Data.List.TakeWhile

/-!
# Strings and buffers of bytes in memory

A pointer to characters is read here as the list of bytes found from it on, as far as memory is
known.  The string it points to is what stands before the first zero byte; `strlen` is the length
of that string, and is `none` when the known memory ends before a zero byte, where the real call
would read on into memory nothing is known about.

`CharArray n` is the array `char buf[n]`: exactly `n` bytes, with no promise that one of them is
zero.  A string may fill such an array and leave no room for its zero byte; then the string at the
array's address goes on behind the array (`cstr_bytes_append`), and `strcmp` compares what it finds
there (`strcmpEq_iff`).
-/

namespace CodeStrudy
namespace Foundation

/-! ## Strings in memory -/

/-- The string at a pointer: the bytes before the first zero byte. -/
def cstr (mem : List UInt8) : List UInt8 := mem.takeWhile (· != 0)

/-- The length of the string at a pointer, if its zero byte is in the known memory. -/
def strlen? (mem : List UInt8) : Option ℕ :=
  if 0 ∈ mem then some (cstr mem).length else none

/-- Whether `strcmp` returns zero on two pointers: byte by byte up to the first zero byte. -/
def strcmpEq : List UInt8 → List UInt8 → Bool
  | a :: as, b :: bs => a == b && (a == 0 || strcmpEq as bs)
  | _, _ => false

theorem zero_notMem_cstr (mem : List UInt8) : 0 ∉ cstr mem := by
  intro h
  exact absurd (List.mem_takeWhile_imp h) (by decide)

theorem length_cstr_le (mem : List UInt8) : (cstr mem).length ≤ mem.length :=
  (List.takeWhile_prefix _).length_le

theorem strlen?_le {mem : List UInt8} {len : ℕ} (h : strlen? mem = some len) :
    len ≤ mem.length := by
  unfold strlen? at h
  split at h
  · exact Option.some.inj h ▸ length_cstr_le mem
  · cases h

theorem cstr_append_of_notMem {s : List UInt8} (h : 0 ∉ s) (t : List UInt8) :
    cstr (s ++ t) = s ++ cstr t := by
  refine List.takeWhile_append_of_pos fun b hb => ?_
  rw [bne_iff_ne]
  rintro rfl
  exact h hb

theorem cstr_of_notMem {s : List UInt8} (h : 0 ∉ s) : cstr s = s := by
  simpa [cstr] using cstr_append_of_notMem h []

theorem cstr_append_zero {s : List UInt8} (h : 0 ∉ s) (t : List UInt8) :
    cstr (s ++ 0 :: t) = s := by
  rw [cstr_append_of_notMem h]
  simp [cstr]

theorem cstr_append_of_mem {s : List UInt8} (h : 0 ∈ s) (t : List UInt8) :
    cstr (s ++ t) = cstr s := by
  unfold cstr
  rw [List.takeWhile_append, if_neg]
  intro hlen
  have hself : cstr s = s := (List.takeWhile_prefix _).eq_of_length hlen
  exact zero_notMem_cstr s (by rw [hself]; exact h)

/-- `strcmp` returns zero exactly on two equal strings that both end in the known memory. -/
theorem strcmpEq_iff (a b : List UInt8) :
    strcmpEq a b = true ↔ 0 ∈ a ∧ 0 ∈ b ∧ cstr a = cstr b := by
  induction a generalizing b with
  | nil => simp [strcmpEq]
  | cons x a ih =>
    cases b with
    | nil => simp [strcmpEq]
    | cons y b =>
      by_cases hxy : x = y
      · subst hxy
        by_cases hx : x = 0
        · simp [strcmpEq, hx, cstr]
        · have hcons : ∀ l, cstr (x :: l) = x :: cstr l := fun l => by
            rw [cstr, List.takeWhile_cons_of_pos (by simpa using hx)]
            rfl
          simp [strcmpEq, hx, ih, hcons, Ne.symm hx]
      · have hne : cstr (x :: a) = cstr (y :: b) → x = 0 ∧ y = 0 := by
          intro h
          by_cases hx : x = 0 <;> by_cases hy : y = 0 <;>
            simp_all [cstr]
        simp only [strcmpEq, beq_eq_false_iff_ne.mpr hxy, Bool.false_and, Bool.false_eq_true,
          false_iff]
        rintro ⟨-, -, h⟩
        exact hxy ((hne h).1.trans (hne h).2.symm)

/-! ## Arrays of characters -/

/-- The array `char buf[n]`. -/
@[ext] structure CharArray (n : ℕ) where
  /-- The bytes of the array. -/
  bytes : List UInt8
  /-- The array has its declared size. -/
  length_bytes : bytes.length = n
  deriving DecidableEq

namespace CharArray

variable {n : ℕ}

/-- The array after `memset(buf, 0, sizeof(buf))`. -/
def zeros (n : ℕ) : CharArray n := ⟨List.replicate n 0, List.length_replicate⟩

instance : Inhabited (CharArray n) := ⟨zeros n⟩

/-- The string in the array: up to its first zero byte, or all of it when there is none. -/
def str (b : CharArray n) : List UInt8 := cstr b.bytes

/-- Bytes copied into the array from an offset on; what does not fit is left out. -/
def writeAt (b : CharArray n) (off : ℕ) (data : List UInt8) : CharArray n where
  bytes := (b.bytes.take off ++ data ++ b.bytes.drop (off + data.length)).take n
  length_bytes := by
    rw [List.length_take, List.length_append, List.length_append, List.length_take,
      List.length_drop, b.length_bytes]
    omega

/-- Bytes copied to the start of the array. -/
def write (b : CharArray n) (data : List UInt8) : CharArray n := b.writeAt 0 data

theorem writeAt_nil (off : ℕ) (b : CharArray n) : b.writeAt off [] = b := by
  refine CharArray.ext ?_
  show (b.bytes.take off ++ [] ++ b.bytes.drop off).take n = b.bytes
  rw [List.append_nil, List.take_append_drop, List.take_of_length_le (le_of_eq b.length_bytes)]

@[simp] theorem write_nil (b : CharArray n) : b.write [] = b := writeAt_nil 0 b

theorem bytes_writeAt {b : CharArray n} {off : ℕ} {data : List UInt8} (h : off + data.length ≤ n) :
    (b.writeAt off data).bytes =
      b.bytes.take off ++ data ++ b.bytes.drop (off + data.length) := by
  refine List.take_of_length_le ?_
  rw [List.length_append, List.length_append, List.length_take, List.length_drop, b.length_bytes]
  omega

/-- The bytes before the offset stay. -/
theorem take_bytes_writeAt {b : CharArray n} {off : ℕ} {data : List UInt8}
    (h : off + data.length ≤ n) : (b.writeAt off data).bytes.take off = b.bytes.take off := by
  have hoff : (b.bytes.take off).length = off := by
    rw [List.length_take, b.length_bytes]
    omega
  rw [bytes_writeAt h, List.append_assoc, List.take_left' hoff]

/-- From the offset on there are the data and the old bytes behind them. -/
theorem drop_bytes_writeAt {b : CharArray n} {off : ℕ} {data : List UInt8}
    (h : off + data.length ≤ n) :
    (b.writeAt off data).bytes.drop off = data ++ b.bytes.drop (off + data.length) := by
  have hoff : (b.bytes.take off).length = off := by
    rw [List.length_take, b.length_bytes]
    omega
  rw [bytes_writeAt h, List.append_assoc, List.drop_left' hoff]

theorem bytes_write {b : CharArray n} {data : List UInt8} (h : data.length ≤ n) :
    (b.write data).bytes = data ++ b.bytes.drop data.length := by
  rw [write, bytes_writeAt (by rwa [Nat.zero_add]), List.take_zero, List.nil_append, Nat.zero_add]

theorem bytes_write_zeros {data : List UInt8} (h : data.length ≤ n) :
    ((zeros n).write data).bytes = data ++ List.replicate (n - data.length) 0 := by
  rw [bytes_write h]
  exact congrArg (data ++ ·) List.drop_replicate

/-- The string that a text and its zero byte at the start of the array make. -/
theorem str_write_append_zero {b : CharArray n} {text : List UInt8} (h : text.length < n) :
    (b.write (text ++ [0])).str = cstr text := by
  have hlen : (text ++ [0]).length ≤ n := by
    rw [List.length_append, List.length_singleton]
    exact h
  rw [str, bytes_write hlen, List.append_assoc, List.singleton_append]
  by_cases h0 : 0 ∈ text
  · exact cstr_append_of_mem h0 _
  · rw [cstr_append_zero h0, cstr_of_notMem h0]

theorem length_str_le (b : CharArray n) : b.str.length ≤ n :=
  (length_cstr_le b.bytes).trans (le_of_eq b.length_bytes)

/-- There is a zero byte in the array exactly if its string does not fill it. -/
theorem zero_mem_bytes_iff (b : CharArray n) : 0 ∈ b.bytes ↔ b.str.length < n := by
  constructor
  · intro h
    refine lt_of_le_of_ne b.length_str_le fun hlen => ?_
    have hself : cstr b.bytes = b.bytes :=
      (List.takeWhile_prefix _).eq_of_length (hlen.trans b.length_bytes.symm)
    exact zero_notMem_cstr b.bytes (by rw [hself]; exact h)
  · intro hlt
    by_contra h
    rw [str, cstr_of_notMem h, b.length_bytes] at hlt
    exact lt_irrefl n hlt

/-- The string in the first bytes of a string and its zero byte. -/
theorem str_of_bytes_eq_take {b : CharArray n} {s t : List UInt8} (h0 : 0 ∉ s)
    (h : b.bytes = (s ++ 0 :: t).take n) : b.str = s.take n := by
  rw [str, h, cstr, ← List.take_takeWhile]
  exact congrArg (List.take n) (cstr_append_zero h0 t)

/-- The string at the address of an array: it ends in the array, or goes on behind it. -/
theorem cstr_bytes_append (b : CharArray n) (mem : List UInt8) :
    cstr (b.bytes ++ mem) = if b.str.length < n then b.str else b.str ++ cstr mem := by
  split
  · rename_i h
    exact cstr_append_of_mem (b.zero_mem_bytes_iff.mpr h) mem
  · rename_i h
    have hnot : 0 ∉ b.bytes := fun hz => h (b.zero_mem_bytes_iff.mp hz)
    rw [cstr_append_of_notMem hnot, str, cstr_of_notMem hnot]

/-- The first bytes of the string at the address of an array are the string in the array. -/
theorem take_cstr_bytes_append (b : CharArray n) (mem : List UInt8) :
    (cstr (b.bytes ++ mem)).take n = b.str := by
  rw [cstr_bytes_append]
  split
  · exact List.take_of_length_le b.length_str_le
  · rename_i h
    exact List.take_left' (le_antisymm b.length_str_le (not_lt.mp h))

/-- `strcmp` of two arrays of one size: their strings are equal, and if these fill the arrays, so
are the strings behind them. -/
theorem strcmpEq_bytes_append (a b : CharArray n) (mem mem' : List UInt8) :
    strcmpEq (a.bytes ++ mem) (b.bytes ++ mem') = true ↔
      a.str = b.str ∧ (b.str.length = n → strcmpEq mem mem' = true) := by
  rw [strcmpEq_iff, strcmpEq_iff]
  by_cases hstr : a.str = b.str
  · by_cases hfull : b.str.length = n
    · -- both strings fill their arrays, and go on behind them
      simp [List.mem_append, zero_mem_bytes_iff, cstr_bytes_append, hstr, hfull]
    · have hlt : b.str.length < n := lt_of_le_of_ne b.length_str_le hfull
      simp [List.mem_append, zero_mem_bytes_iff, cstr_bytes_append, hstr, hlt, hfull]
  · refine iff_of_false (fun h => hstr ?_) (fun h => hstr h.1)
    rw [← take_cstr_bytes_append a mem, h.2.2, take_cstr_bytes_append]

/-! ### Text in an array -/

/-- The array that holds a text, cut to what leaves room for a zero byte, and zeros after it. -/
def ofText (n : ℕ) (text : List UInt8) : CharArray n where
  bytes := text.take (n - 1) ++ List.replicate (n - min (n - 1) text.length) 0
  length_bytes := by
    rw [List.length_append, List.length_take, List.length_replicate]
    omega

theorem str_ofText (hn : 0 < n) {text : List UInt8} (h : 0 ∉ text) :
    (ofText n text).str = text.take (n - 1) := by
  have hpos : n - min (n - 1) text.length = (n - min (n - 1) text.length - 1) + 1 := by omega
  show cstr (text.take (n - 1) ++ List.replicate (n - min (n - 1) text.length) 0) = _
  rw [hpos, List.replicate_succ]
  exact cstr_append_zero (fun h0 => h (List.mem_of_mem_take h0)) _

theorem zeros_eq_ofText (n : ℕ) : zeros n = ofText n [] := by
  refine CharArray.ext ?_
  show List.replicate n 0 = [].take (n - 1) ++ List.replicate (n - min (n - 1) 0) 0
  rw [List.take_nil, List.nil_append, Nat.min_zero, Nat.sub_zero]

/-- `strncpy(buf, src, n)` into an array of `n` bytes: the string, cut to what fits, and zeros
behind it; a string that fills the array gets no zero byte. -/
def strncpy (n : ℕ) (src : List UInt8) : CharArray n where
  bytes := cstr (src.take n) ++ List.replicate (n - (cstr (src.take n)).length) 0
  length_bytes := by
    have h := (length_cstr_le (src.take n)).trans (List.length_take_le n src)
    rw [List.length_append, List.length_replicate]
    omega

theorem str_strncpy (n : ℕ) (src : List UInt8) : (strncpy n src).str = cstr (src.take n) := by
  have hnot := zero_notMem_cstr (src.take n)
  show cstr (cstr (src.take n) ++ List.replicate (n - (cstr (src.take n)).length) 0) = _
  rw [cstr_append_of_notMem hnot]
  cases n - (cstr (src.take n)).length with
  | zero => exact List.append_nil _
  | succ k =>
    rw [List.replicate_succ]
    exact List.append_nil _

example : (strncpy 2 [0x61, 0x62, 0]).bytes = [0x61, 0x62] := by decide

/-- Copying one array to another of the same size keeps the string. -/
theorem str_strncpy_bytes (b : CharArray n) : (strncpy n b.bytes).str = b.str := by
  rw [str_strncpy, List.take_of_length_le (le_of_eq b.length_bytes)]
  rfl

/-- `snprintf(buf + strlen(buf), sizeof(buf) - strlen(buf), "%s", text)`: the text goes behind the
string in the array, cut to what fits, with a zero byte after it. -/
def snprintfAppend (b : CharArray n) (text : List UInt8) : CharArray n :=
  b.writeAt b.str.length (text.take (n - b.str.length - 1) ++ [0])

/-- Copying at the end of a known beginning of the array. -/
theorem bytes_writeAt_length {b : CharArray n} {u v : List UInt8} (h : b.bytes = u ++ v)
    (data : List UInt8) :
    (b.writeAt u.length data).bytes = (u ++ data ++ v.drop data.length).take n := by
  show (b.bytes.take u.length ++ data ++ b.bytes.drop (u.length + data.length)).take n = _
  rw [h, List.take_left, List.drop_length_add_append]

theorem snprintfAppend_ofText (hn : 0 < n) {s : List UInt8} (hs : 0 ∉ s) (t : List UInt8) :
    (ofText n s).snprintfAppend t = ofText n (s ++ t) := by
  have hlen : (s.take (n - 1)).length = min (n - 1) s.length := List.length_take
  have hroom : n - min (n - 1) s.length - 1 = n - 1 - s.length := by omega
  have hzeros : n - min (n - 1) s.length - (min (n - 1 - s.length) t.length + 1) + 1 =
      n - min (n - 1) (s ++ t).length := by
    rw [List.length_append]
    omega
  refine CharArray.ext ?_
  unfold snprintfAppend
  rw [str_ofText hn hs, bytes_writeAt_length (b := ofText n s) rfl, hlen, hroom,
    List.drop_replicate, List.length_append, List.length_take, List.length_singleton]
  -- the text that fits, its zero byte, and the zeros that were behind it
  rw [List.append_assoc, List.append_assoc, List.singleton_append, ← List.replicate_succ, hzeros,
    ← List.append_assoc, ← List.take_append]
  exact List.take_of_length_le (le_of_eq (ofText n (s ++ t)).length_bytes)

/-! ### Text that fits into an array -/

/-- The byte at an index; zero behind the end. -/
def get (b : CharArray n) (i : ℕ) : UInt8 := b.bytes.getD i 0

/-- `buf[i] = c` -/
def set (b : CharArray n) (i : ℕ) (c : UInt8) : CharArray n where
  bytes := b.bytes.set i c
  length_bytes := by rw [List.length_set, b.length_bytes]

theorem bytes_ofText {text : List UInt8} (h : text.length < n) :
    (ofText n text).bytes = text ++ List.replicate (n - text.length) 0 := by
  show text.take (n - 1) ++ List.replicate (n - min (n - 1) text.length) 0 = _
  rw [List.take_of_length_le (by omega), Nat.min_eq_right (by omega)]

theorem str_ofText_of_lt {text : List UInt8} (hlt : text.length < n) (h : 0 ∉ text) :
    (ofText n text).str = text := by
  rw [str_ofText (Nat.zero_lt_of_lt hlt) h, List.take_of_length_le (by omega)]

theorem strlen?_ofText {text : List UInt8} (hlt : text.length < n) (h : 0 ∉ text) :
    strlen? (ofText n text).bytes = some text.length := by
  have hmem : 0 ∈ (ofText n text).bytes := by
    rw [zero_mem_bytes_iff, str_ofText_of_lt hlt h]
    exact hlt
  rw [strlen?, if_pos hmem]
  exact congrArg (fun s => some (List.length s)) (str_ofText_of_lt hlt h)

theorem get_ofText {u v : List UInt8} {c : UInt8} (h : (u ++ c :: v).length < n) :
    (ofText n (u ++ c :: v)).get u.length = c := by
  rw [get, bytes_ofText h, List.append_assoc, List.getD_append_right _ _ _ _ (Nat.le_refl _),
    Nat.sub_self]
  rfl

/-- A byte stored in front of the place of others. -/
theorem writeAt_set {b : CharArray n} {i : ℕ} (h : i < n) (c : UInt8) (data : List UInt8) :
    (b.set i c).writeAt (i + 1) data = b.writeAt i (c :: data) := by
  have hset : b.bytes.set i c = b.bytes.take i ++ c :: b.bytes.drop (i + 1) :=
    List.set_eq_take_append_cons_drop.trans (if_pos (b.length_bytes.symm ▸ h))
  have hlen : (b.bytes.take i ++ [c]).length = i + 1 := by
    rw [List.length_append, List.length_take, b.length_bytes, List.length_singleton]
    omega
  have hcut : b.bytes.set i c = (b.bytes.take i ++ [c]) ++ b.bytes.drop (i + 1) := by
    rw [hset, List.append_assoc, List.singleton_append]
  have hbytes : (b.set i c).bytes = (b.bytes.take i ++ [c]) ++ b.bytes.drop (i + 1) := hcut
  have hstore := bytes_writeAt_length hbytes data
  rw [hlen, List.drop_drop] at hstore
  refine CharArray.ext (hstore.trans ?_)
  show _ = (b.bytes.take i ++ c :: data ++ b.bytes.drop (i + (data.length + 1))).take n
  rw [List.append_assoc, List.append_assoc, List.append_assoc, List.singleton_append,
    List.cons_append]
  congr 5
  omega

/-- The last byte of the text made zero. -/
theorem set_ofText_concat {u : List UInt8} (h : u.length + 1 < n) (c : UInt8) :
    (ofText n (u ++ [c])).set u.length 0 = ofText n u := by
  have hzeros : n - u.length = n - (u.length + 1) + 1 := by omega
  refine CharArray.ext ?_
  show (ofText n (u ++ [c])).bytes.set u.length 0 = _
  rw [bytes_ofText (by simpa using h), bytes_ofText (by omega), List.append_assoc,
    List.set_append_right _ _ (Nat.le_refl _), Nat.sub_self, List.singleton_append,
    List.set_cons_zero, List.length_append, List.length_singleton, hzeros, List.replicate_succ]

/-- `strcat(buf, text)` -/
def strcat (b : CharArray n) (text : List UInt8) : CharArray n :=
  b.writeAt b.str.length (text ++ [0])

theorem strcat_zeros {text : List UInt8} (h : text.length < n) :
    (zeros n).strcat text = ofText n text := by
  have hn : 0 < n := Nat.zero_lt_of_lt h
  have hempty : (ofText n []).str = [] := (str_ofText hn (List.not_mem_nil)).trans List.take_nil
  have happend : (ofText n []).strcat text = (ofText n []).snprintfAppend text := by
    unfold strcat snprintfAppend
    rw [hempty, List.length_nil, List.take_of_length_le (by omega)]
  rw [zeros_eq_ofText, happend, snprintfAppend_ofText hn List.not_mem_nil, List.nil_append]

end CharArray

/-- A string that a program is called with: bytes, none of them zero. -/
structure CStr where
  /-- The characters before the terminating zero byte. -/
  chars : List UInt8
  /-- A string ends at its first zero byte. -/
  zero_notMem : 0 ∉ chars

/-- `argc` as `main(char argc, char *argv[])` sees it, for `n` words on the command line. -/
def charArgc (n : ℕ) : ℤ := (BitVec.ofNat 8 n).toInt

theorem charArgc_le (n : ℕ) : charArgc n ≤ 127 := by
  have h := (BitVec.ofNat 8 n).toInt_lt
  rw [charArgc]
  omega

/-- Up to 127 words are counted. -/
theorem charArgc_of_le {n : ℕ} (h : n ≤ 127) : charArgc n = n := by
  rw [charArgc, BitVec.toInt_ofNat', Int.bmod]
  split <;> omega

/-- With more words the count is short of at least 256 of them. -/
theorem charArgc_add_le {n : ℕ} (h : 127 < n) : charArgc n + 256 ≤ n := by
  rw [charArgc, BitVec.toInt_ofNat', Int.bmod]
  split <;> omega

end Foundation
end CodeStrudy
