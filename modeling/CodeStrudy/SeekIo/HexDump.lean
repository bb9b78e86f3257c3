import CodeStrudy.Foundation.PrefixCode
import CodeStrudy.SeekIo.Interpreter

/-!
# Bytes in hexadecimal

`printf("%02x", (unsigned int)buf[j])` is given a `char`, which is signed.  A byte from 128 on is
extended by its sign, and is printed with eight digits instead of two.

## What is proved

* `exact_iff`: the text of a string of bytes has two digits for each byte, and gives the bytes back
  pair by pair, exactly if all bytes are below 128.
* `hexText_injective`: different strings of bytes are printed differently all the same.
-/

namespace CodeStrudy
namespace SeekIo

open Foundation GetNum

/-- What the loop over the bytes prints. -/
def hexText (buf : List UInt8) : List UInt8 := buf.flatMap hex02

/-- What the command `R` prints of the bytes that were read. -/
theorem dump_hex (buf : List UInt8) : dump 0x52 buf = hexText buf ++ [0x0a] := rfl

/-! ## Reading the digits in pairs -/

/-- The bytes that a text of pairs of hexadecimal digits stands for. -/
def decodePairs : List UInt8 → Option (List UInt8)
  | [] => some []
  | [_] => none
  | c :: d :: text =>
    if isDigit 16 c ∧ isDigit 16 d then
      (decodePairs text).map fun buf => (ofDigits 16 [c, d]).toUInt8 :: buf
    else none

/-- The hexadecimal digit for a number below 16. -/
def hexDigit (n : ℕ) : UInt8 := if n < 10 then (0x30 + n).toUInt8 else (0x57 + n).toUInt8

/-- The two digits of a byte. -/
def hexPair (b : UInt8) : List UInt8 := [hexDigit (b.toNat / 16), hexDigit (b.toNat % 16)]

/-- What is printed in front of them when the sign is extended. -/
def signDigits (b : UInt8) : List UInt8 := if b < 0x80 then [] else List.replicate 6 0x66

variable {b : UInt8} {bs : List UInt8}

theorem hex02_eq (b : UInt8) : hex02 b = signDigits b ++ hexPair b := by
  have hlist : ∀ n < 256,
      (List.replicate (2 - (Nat.toDigits 16 (n.toUInt8.toBitVec.signExtend 32).toNat).length) '0' ++
        Nat.toDigits 16 (n.toUInt8.toBitVec.signExtend 32).toNat).map (fun c => c.toNat.toUInt8) =
      signDigits n.toUInt8 ++ hexPair n.toUInt8 := by decide +kernel
  have hb := hlist b.toNat b.toNat_lt
  rw [Nat.toUInt8_eq, UInt8.ofNat_toNat] at hb
  rwa [hex02, ascii, String.toList_ofList]

/-- The two digits of a byte are read back. -/
theorem decodePairs_hexPair (b : UInt8) (text : List UInt8) :
    decodePairs (hexPair b ++ text) = (decodePairs text).map fun buf => b :: buf := by
  have hlt := b.toNat_lt
  have hdigit : ∀ n < 16, isDigit 16 (hexDigit n) = true := by decide
  have hval : ∀ n < 16, digitVal? (hexDigit n) = some n := by decide
  have hbyte : (ofDigits 16 (hexPair b)).toUInt8 = b := by
    simp only [hexPair, ofDigits, List.foldl_cons, List.foldl_nil,
      hval _ (show b.toNat / 16 < 16 by omega), hval _ (show b.toNat % 16 < 16 by omega),
      Option.getD_some]
    rw [show (0 * 16 + b.toNat / 16) * 16 + b.toNat % 16 = b.toNat by omega, Nat.toUInt8_eq,
      UInt8.ofNat_toNat]
  unfold hexPair at hbyte ⊢
  rw [List.cons_append, List.cons_append, List.nil_append, decodePairs,
    if_pos ⟨hdigit _ (by omega), hdigit _ (by omega)⟩, hbyte]

theorem hexPair_injective : Function.Injective hexPair := by
  intro a b h
  have ha := decodePairs_hexPair a []
  rw [h, decodePairs_hexPair b []] at ha
  exact (List.cons.inj (Option.some.inj ha)).1.symm

theorem length_hex02 (b : UInt8) : (hex02 b).length = if b < 0x80 then 2 else 8 := by
  rw [hex02_eq, List.length_append, signDigits]
  split_ifs
  · rfl
  · rfl

/-- A byte below 128 does not begin with the letter `f`, as one from 128 on does. -/
theorem lt_of_begins {a b : UInt8} (h : hex02 a <+: hex02 b) : a < 0x80 ↔ b < 0x80 := by
  have hdigit : ∀ n < 8, hexDigit n ≠ 0x66 := by decide
  have hhead : ∀ b, (hex02 b).head? = some 0x66 ↔ ¬ b < 0x80 := by
    intro b
    rw [hex02_eq, signDigits]
    split_ifs with hb
    · have hlt : b.toNat < 128 := UInt8.lt_iff_toNat_lt.mp hb
      rw [List.nil_append, hexPair, List.head?_cons, Option.some_inj]
      exact iff_of_false (hdigit _ (by omega)) (not_not_intro hb)
    · exact iff_of_true rfl hb
  have hsome : (hex02 a).head? = (hex02 b).head? := by
    have hne : hex02 a ≠ [] := by
      rw [hex02_eq]
      exact List.append_ne_nil_of_right_ne_nil _ (List.cons_ne_nil _ _)
    obtain ⟨rest, hrest⟩ := h
    rw [← hrest, List.head?_append_of_ne_nil _ hne]
  rw [← not_iff_not, ← hhead a, ← hhead b, hsome]

/-- No byte's digits begin those of another byte. -/
theorem prefixCode_hex02 : PrefixCode hex02 where
  ne_nil b := by
    rw [hex02_eq]
    exact List.append_ne_nil_of_right_ne_nil _ (List.cons_ne_nil _ _)
  eq_of_begins a b hbegins := by
    have hkind := lt_of_begins hbegins
    have hsign : signDigits a = signDigits b := by simp only [signDigits, hkind]
    have hlength : (hex02 a).length = (hex02 b).length := by simp only [length_hex02, hkind]
    have heq := hbegins.eq_of_length hlength
    rw [hex02_eq, hex02_eq, hsign] at heq
    exact hexPair_injective (List.append_cancel_left heq)

/-! ## A string of bytes -/

/-- Different strings of bytes are printed differently. -/
theorem hexText_injective : Function.Injective hexText := prefixCode_hex02.flatMap_injective

theorem length_hexText (bs : List UInt8) :
    (hexText bs).length = 2 * bs.length + 6 * bs.countP fun b => ¬ b < 0x80 := by
  induction bs with
  | nil => rfl
  | cons b bs ih =>
    have hcons : hexText (b :: bs) = hex02 b ++ hexText bs := rfl
    rw [hcons, List.length_append, length_hex02, ih, List.length_cons, List.countP_cons]
    split_ifs <;> simp_all <;> omega

/-- Below 128 the text is read back. -/
theorem decodePairs_hexText (h : ∀ b ∈ bs, b < 0x80) : decodePairs (hexText bs) = some bs := by
  induction bs with
  | nil => rfl
  | cons b bs ih =>
    rw [List.forall_mem_cons] at h
    have hcons : hexText (b :: bs) = hexPair b ++ hexText bs := by
      show hex02 b ++ hexText bs = _
      rw [hex02_eq, signDigits, if_pos h.1, List.nil_append]
    rw [hcons, decodePairs_hexPair, ih h.2, Option.map_some]

/-- What a program prints around the text of the bytes is fixed; the text has two digits for each
byte and gives the bytes back, and no other string of bytes is printed the same. -/
structure Exact (print : List UInt8 → List UInt8) (header : List UInt8) (bs : List UInt8) :
    Prop where
  decodes : ∃ text, print bs = header ++ text ++ [0x0a] ∧ text.length = 2 * bs.length ∧
    decodePairs text = some bs
  unique : ∀ bs', print bs' = print bs → bs' = bs

/-- A program that prints the text of the bytes on a line prints it exactly if all bytes are below
128. -/
theorem exact_iff {print : List UInt8 → List UInt8} {header : List UInt8}
    (hprint : ∀ bs, print bs = header ++ hexText bs ++ [0x0a]) :
    Exact print header bs ↔ ∀ b ∈ bs, b < 0x80 := by
  constructor
  · rintro ⟨⟨text, htext, hlength, -⟩, -⟩
    rw [hprint] at htext
    have heq := List.append_cancel_left (List.append_cancel_right htext)
    rw [← heq, length_hexText] at hlength
    have hcount : bs.countP (fun b => ¬ b < 0x80) = 0 := by omega
    intro b hb
    simpa using List.countP_eq_zero.mp hcount b hb
  · intro h
    refine ⟨⟨hexText bs, hprint bs, ?_, decodePairs_hexText h⟩, fun bs' heq => ?_⟩
    · have hcount : bs.countP (fun b => ¬ b < 0x80) = 0 :=
        List.countP_eq_zero.mpr fun b hb => by simpa using h b hb
      rw [length_hexText, hcount]
      rfl
    · rw [hprint, hprint] at heq
      exact hexText_injective (List.append_cancel_left (List.append_cancel_right heq))

end SeekIo
end CodeStrudy
