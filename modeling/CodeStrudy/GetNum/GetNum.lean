import CodeStrudy.Foundation.CString
import Mathlib.Data.Int.Notation
import Mathlib.Data.List.Basic

/-!
# Numbers on the command line

`error_functions/get_num.c` turns an argument into a `long` with `strtol`, and ends the process when
the argument is empty, is out of the range of a `long`, or does not end with the number.

What `strtol` makes of a string is given here as it is documented for the C locale: spaces, a sign,
for base zero the mark of the base, and the digits up to the first character that is none.
-/

namespace CodeStrudy
namespace GetNum

open Foundation

def LONG_MAX : ℤ := 9223372036854775807

def LONG_MIN : ℤ := -9223372036854775808

/-! ## The library's `strtol` -/

/-- The characters of a text without accents. -/
def ascii (s : String) : List UInt8 := s.toList.map fun c => c.toNat.toUInt8

def isspace (c : UInt8) : Bool := c == 0x20 || (0x09 ≤ c && c ≤ 0x0d)

/-- What a digit or a letter counts as a digit. -/
def digitVal? (c : UInt8) : Option ℕ :=
  if 0x30 ≤ c && c ≤ 0x39 then some (c.toNat - 0x30)
  else if 0x41 ≤ c && c ≤ 0x5a then some (c.toNat - 0x41 + 10)
  else if 0x61 ≤ c && c ≤ 0x7a then some (c.toNat - 0x61 + 10)
  else none

def isDigit (base : ℕ) (c : UInt8) : Bool := (digitVal? c).any (· < base)

/-- The number with the given digits. -/
def ofDigits (base : ℕ) (digits : List UInt8) : ℕ :=
  digits.foldl (fun n c => n * base + (digitVal? c).getD 0) 0

/-- Whether there is a minus sign, and what stands behind the sign if there is one. -/
def splitSign (cs : List UInt8) : Bool × List UInt8 :=
  if cs.head? = some 0x2d then (true, cs.tail)
  else if cs.head? = some 0x2b then (false, cs.tail)
  else (false, cs)

/-- Whether the text begins with `0x` and a hexadecimal digit. -/
def hasHexMark (cs : List UInt8) : Bool :=
  cs[0]? == some 0x30 && (cs[1]? == some 0x78 || cs[1]? == some 0x58) &&
    (cs[2]?).any (isDigit 16)

/-- The base that counts, and where the digits begin.  A leading zero is a digit itself. -/
def splitBase (base : ℕ) (cs : List UInt8) : ℕ × List UInt8 :=
  if (base = 0 ∨ base = 16) ∧ hasHexMark cs then (16, cs.drop 2)
  else if base = 0 then (if cs.head? = some 0x30 then 8 else 10, cs)
  else (base, cs)

/-- What `strtol` returns, where `endptr` points, and whether `errno` is set. -/
structure Strtol where
  value : ℤ
  endptr : List UInt8
  erange : Bool
  deriving DecidableEq

/-- A number cut to the range of a `long`. -/
def clamp (v : ℤ) (endptr : List UInt8) : Strtol :=
  if LONG_MAX < v then ⟨LONG_MAX, endptr, true⟩
  else if v < LONG_MIN then ⟨LONG_MIN, endptr, true⟩
  else ⟨v, endptr, false⟩

def strtol (arg : List UInt8) (base : ℕ) : Strtol :=
  let (neg, unsigned) := splitSign (arg.dropWhile isspace)
  let (b, cs) := splitBase base unsigned
  let digits := cs.takeWhile (isDigit b)
  if digits = [] then ⟨0, arg, false⟩
  else clamp (if neg then -(ofDigits b digits : ℤ) else ofDigits b digits)
    (cs.dropWhile (isDigit b))

/-! ### Numbers as `printf` writes them -/

/-- A number as `"%d"` writes it. -/
def decimal (n : ℕ) : List UInt8 := (Nat.toDigits 10 n).map fun c => c.toNat.toUInt8

theorem decimal_ne_nil (n : ℕ) : decimal n ≠ [] :=
  fun h => Nat.toDigits_ne_nil (List.map_eq_nil_iff.mp h)

theorem toNat_of_mem_toDigits {n : ℕ} {c : Char} (h : c ∈ Nat.toDigits 10 n) :
    0x30 ≤ c.toNat ∧ c.toNat < 0x3a := by
  have hdigit := Char.isDigit_iff_toNat.mp (Nat.isDigit_of_mem_toDigits (by decide) (by decide) h)
  exact ⟨hdigit.1, Nat.lt_succ_of_le hdigit.2⟩

/-- The characters of a number are digits: what holds of all ten holds of them. -/
theorem of_mem_decimal {p : UInt8 → Prop} (hp : ∀ k < 0x3a, 0x30 ≤ k → p k.toUInt8) {n : ℕ}
    {b : UInt8} (h : b ∈ decimal n) : p b := by
  obtain ⟨c, hc, rfl⟩ := List.mem_map.mp h
  have hdigit := toNat_of_mem_toDigits hc
  exact hp c.toNat hdigit.2 hdigit.1

theorem notMem_decimal {c : UInt8} (hc : ∀ k < 0x3a, 0x30 ≤ k → k.toUInt8 ≠ c) (n : ℕ) :
    c ∉ decimal n :=
  fun hmem => of_mem_decimal (p := (· ≠ c)) hc hmem rfl

theorem ofDigits_decimal (n : ℕ) : ofDigits 10 (decimal n) = n := by
  have hval : ∀ k < 0x3a, 0x30 ≤ k → digitVal? k.toUInt8 = some (k - 0x30) := by decide
  unfold ofDigits decimal
  rw [List.foldl_map]
  refine Eq.trans (List.foldl_ext _ _ _ fun m c hc => ?_)
    (Nat.ofDigitChars_eq_foldl.symm.trans Nat.ofDigitChars_ten_toDigits)
  have hdigit := toNat_of_mem_toDigits hc
  rw [hval c.toNat hdigit.2 hdigit.1, Option.getD_some, Nat.mul_comm]
  rfl

/-- `strtol` reads a number back. -/
theorem strtol_decimal {n : ℕ} (h : n ≤ LONG_MAX) : strtol (decimal n) 10 = ⟨n, [], false⟩ := by
  have hdigit : ∀ b ∈ decimal n, isDigit 10 b = true := fun b =>
    of_mem_decimal (p := fun b => isDigit 10 b = true) (by decide)
  obtain ⟨c, cs, hcons⟩ := List.exists_cons_of_ne_nil (decimal_ne_nil n)
  have hc : c ∈ decimal n := by simp [hcons]
  have hspace : isspace c = false := of_mem_decimal (p := fun b => isspace b = false) (by decide) hc
  have hminus : c ≠ 0x2d := of_mem_decimal (p := (· ≠ 0x2d)) (by decide) hc
  have hplus : c ≠ 0x2b := of_mem_decimal (p := (· ≠ 0x2b)) (by decide) hc
  have hdrop : (decimal n).dropWhile isspace = decimal n := by
    rw [hcons, List.dropWhile_cons_of_neg (by simp [hspace])]
  have hsign : splitSign (decimal n) = (false, decimal n) := by
    simp [splitSign, hcons, hminus, hplus]
  have hbase : splitBase 10 (decimal n) = (10, decimal n) := by simp [splitBase]
  have htake : (decimal n).takeWhile (isDigit 10) = decimal n :=
    List.takeWhile_eq_self_iff.mpr hdigit
  have hrest : (decimal n).dropWhile (isDigit 10) = [] := List.dropWhile_eq_nil_iff.mpr hdigit
  unfold strtol
  simp only [hdrop, hsign, hbase, htake, hrest, decimal_ne_nil, ofDigits_decimal, if_false,
    Bool.false_eq_true]
  unfold clamp
  rw [if_neg (Int.not_lt.mpr h), if_neg]
  unfold LONG_MIN
  omega

/-! ## `get_num.c` -/

/-- What `gnFail` prints before it ends the process. -/
structure GnFail where
  fname : String
  msg : String
  arg : List UInt8
  deriving DecidableEq

/-- `getnum` with the base that its flags choose and without a bound on the number. -/
def getnum (fname : String) (arg : List UInt8) (base : ℕ) : Except GnFail ℤ :=
  if arg = [] then .error ⟨fname, "null or emtry string", arg⟩
  else if (strtol arg base).erange then .error ⟨fname, "strtol() failed", arg⟩
  else if (strtol arg base).endptr ≠ [] then .error ⟨fname, "nonmumeric characters", arg⟩
  else .ok (strtol arg base).value

/-- `getLong(arg, GN_ANY_BASE, name)`. -/
def getLong (arg : List UInt8) : Except GnFail ℤ := getnum "getLong" arg 0

example : (getLong (ascii "0x1f")).toOption = some 31 := by decide

example : (getLong (ascii " -010")).toOption = some (-8) := by decide

example : (getLong (ascii "5k")).toOption = none := by decide

end GetNum
end CodeStrudy
