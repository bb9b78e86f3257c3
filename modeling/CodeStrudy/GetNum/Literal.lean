import CodeStrudy.GetNum.GetInt

/-!
# The numbers that are accepted

What `getLong` accepts is given here as a grammar: blanks, a sign or none, a mark of the base or
none, and digits.

## What is proved

* `getLong_eq_ok_iff_literal`: `getLong` succeeds with a number exactly if the whole of its argument
  is written by the grammar in the base that the flags choose, a `long` holds the number and the
  flags admit its sign.
* `getLong_printed_iff`: it reads back what `printf` writes for a `long`.
-/

namespace CodeStrudy
namespace GetNum

open Foundation

/-- A sign or none, and whether it is a minus. -/
inductive Sign : List UInt8 → Bool → Prop
  | absent : Sign [] false
  | plus : Sign [0x2b] false
  | minus : Sign [0x2d] true

/-- What stands in front of the digits for a number in base `base`, and the base that counts.  With
base zero the number says itself which base it is in. -/
inductive Mark (base : ℕ) : List UInt8 → List UInt8 → ℕ → Prop
  | hex {digits : List UInt8} {x : UInt8} (hbase : base = 0 ∨ base = 16)
      (hx : x = 0x78 ∨ x = 0x58) : Mark base [0x30, x] digits 16
  | given {digits : List UInt8} (hbase : base ≠ 0) : Mark base [] digits base
  | octal {digits : List UInt8} (hbase : base = 0) (hzero : digits.head? = some 0x30) :
      Mark base [] digits 8
  | decimal {digits : List UInt8} (hbase : base = 0) (hzero : digits.head? ≠ some 0x30) :
      Mark base [] digits 10

/-- `digits` after a sign. -/
def signed (neg : Bool) (n : ℕ) : ℤ := if neg then -(n : ℤ) else n

/-- A number as it can be written. -/
inductive Literal (base : ℕ) : List UInt8 → ℤ → Prop
  | mk {blanks sign mark digits : List UInt8} {neg : Bool} {b : ℕ}
      (hblanks : ∀ c ∈ blanks, isspace c) (hsign : Sign sign neg) (hmark : Mark base mark digits b)
      (hne : digits ≠ []) (hdigits : ∀ c ∈ digits, isDigit b c) :
      Literal base (blanks ++ (sign ++ (mark ++ digits))) (signed neg (ofDigits b digits))

theorem Literal.ne_nil {base : ℕ} {text : List UInt8} {v : ℤ} (h : Literal base text v) :
    text ≠ [] := by
  cases h with
  | mk _ _ _ hdigits _ => simp [hdigits]

/-! ## Characters -/

section Characters

variable {base b : ℕ} {c : UInt8} {cs digits : List UInt8}

theorem isDigit_iff : isDigit b c ↔ ∃ d, digitVal? c = some d ∧ d < b := by
  rw [isDigit, Option.any_eq_true]
  exact exists_congr fun d => and_congr_right fun _ => decide_eq_true_iff

/-- A digit is neither a blank nor a sign. -/
theorem zero_le_of_isDigit (h : isDigit b c) : 0x30 ≤ c.toNat := by
  obtain ⟨d, hd, -⟩ := isDigit_iff.mp h
  rw [digitVal?] at hd
  simp only [Bool.and_eq_true, decide_eq_true_eq, UInt8.le_iff_toNat_le] at hd
  by_contra hlt
  rw [if_neg fun h' => hlt h'.1, if_neg, if_neg] at hd
  · cases hd
  all_goals
    rintro ⟨hle, -⟩
    exact hlt (le_trans (by decide) hle)

theorem not_isspace_of_le (h : 0x30 ≤ c.toNat) : isspace c = false := by
  rw [isspace, Bool.or_eq_false_iff, Bool.and_eq_false_iff, beq_eq_false_iff_ne,
    decide_eq_false_iff_not, decide_eq_false_iff_not, UInt8.le_iff_toNat_le, UInt8.le_iff_toNat_le]
  refine ⟨fun heq => ?_, .inr fun hle => ?_⟩
  · subst heq
    exact absurd h (by decide)
  · exact absurd (h.trans hle) (by decide)

/-- The mark of the base 16 does not begin with digits. -/
theorem not_isDigit_x {x : UInt8} (hx : x = 0x78 ∨ x = 0x58) (hb : b ≤ 16) : ¬ isDigit b x := by
  intro h
  obtain ⟨d, hd, hlt⟩ := isDigit_iff.mp h
  rcases hx with rfl | rfl
  all_goals
    obtain rfl : 33 = d := Option.some.inj hd
    omega

end Characters

/-! ## `strtol` takes a number apart -/

section Strtol

variable {base b : ℕ} {neg : Bool} {text sign mark digits cs : List UInt8} {v : ℤ}

theorem exists_sign (cs : List UInt8) :
    ∃ sign, Sign sign (splitSign cs).1 ∧ sign ++ (splitSign cs).2 = cs := by
  rw [splitSign]
  split_ifs with hminus hplus
  · exact ⟨_, .minus, by rw [List.singleton_append, List.cons_head?_tail hminus]⟩
  · exact ⟨_, .plus, by rw [List.singleton_append, List.cons_head?_tail hplus]⟩
  · exact ⟨_, .absent, rfl⟩

theorem splitSign_append (hsign : Sign sign neg) (hcs : ∀ c, cs.head? = some c → 0x30 ≤ c.toNat) :
    splitSign (sign ++ cs) = (neg, cs) := by
  cases hsign with
  | absent =>
    have hhead : ∀ c : UInt8, c.toNat < 0x30 → cs.head? ≠ some c := fun c hlt hc =>
      absurd (hcs c hc) (not_le.mpr hlt)
    rw [List.nil_append, splitSign, if_neg (hhead 0x2d (by decide)),
      if_neg (hhead 0x2b (by decide))]
  | plus => rfl
  | minus => rfl

/-- The digits that `hasHexMark` asks for after the mark. -/
theorem hasHexMark_iff : hasHexMark cs ↔ ∃ x c rest, cs = 0x30 :: x :: c :: rest ∧
    (x = 0x78 ∨ x = 0x58) ∧ isDigit 16 c := by
  rw [hasHexMark]
  match cs with
  | [] => simp
  | [z] => simp
  | [z, x] => simp
  | z :: x :: c :: rest => simp [and_assoc]

theorem exists_mark (base : ℕ) (cs : List UInt8) :
    ∃ mark, Mark base mark (splitBase base cs).2 (splitBase base cs).1 ∧
      mark ++ (splitBase base cs).2 = cs := by
  rw [splitBase]
  split_ifs with hhex hbase hzero
  · obtain ⟨x, c, rest, rfl, hx, -⟩ := hasHexMark_iff.mp hhex.2
    exact ⟨_, .hex hhex.1 hx, rfl⟩
  · exact ⟨_, .octal hbase hzero, rfl⟩
  · exact ⟨_, .decimal hbase hzero, rfl⟩
  · exact ⟨_, .given hbase, rfl⟩

/-- Digits alone are not taken for a mark. -/
theorem not_hasHexMark (hb : b ≤ 16) (hdigits : ∀ c ∈ digits, isDigit b c) :
    ¬ hasHexMark digits := by
  intro h
  obtain ⟨x, c, rest, rfl, hx, -⟩ := hasHexMark_iff.mp h
  exact not_isDigit_x hx hb (hdigits x (by simp))

theorem splitBase_append (hbase : base ≤ 16) (hmark : Mark base mark digits b) (hne : digits ≠ [])
    (hdigits : ∀ c ∈ digits, isDigit b c) : splitBase base (mark ++ digits) = (b, digits) := by
  rw [splitBase]
  cases hmark with
  | @hex _ x hbase16 hx =>
    obtain ⟨c, rest, rfl⟩ := List.exists_cons_of_ne_nil hne
    have hhex : hasHexMark ([0x30, x] ++ c :: rest) :=
      hasHexMark_iff.mpr ⟨x, c, rest, rfl, hx, hdigits c List.mem_cons_self⟩
    rw [if_pos ⟨hbase16, hhex⟩]
    rfl
  | given hne0 =>
    rw [List.nil_append, if_neg fun h => not_hasHexMark hbase hdigits h.2, if_neg hne0]
  | octal hzero hhead =>
    rw [List.nil_append, if_neg fun h => not_hasHexMark (by decide) hdigits h.2, if_pos hzero,
      if_pos hhead]
  | decimal hzero hhead =>
    rw [List.nil_append, if_neg fun h => not_hasHexMark (by decide) hdigits h.2, if_pos hzero,
      if_neg hhead]

/-- The first character behind the sign is a digit or the zero of a mark. -/
theorem zero_le_head (hmark : Mark base mark digits b)
    (hdigits : ∀ c ∈ digits, isDigit b c) {c : UInt8} (hc : (mark ++ digits).head? = some c) :
    0x30 ≤ c.toNat := by
  have hdigit : digits.head? = some c → 0x30 ≤ c.toNat := fun h =>
    zero_le_of_isDigit (hdigits c (List.mem_of_mem_head? h))
  cases hmark with
  | hex =>
    obtain rfl := Option.some.inj hc
    decide
  | given => exact hdigit hc
  | octal => exact hdigit hc
  | decimal => exact hdigit hc

/-- What `strtol` makes of a number. -/
theorem strtol_literal (hbase : base ≤ 16) (h : Literal base text v) :
    strtol text base = clamp v [] := by
  obtain @⟨blanks, sign, mark, digits, neg, b, hblanks, hsign, hmark, hne, hdigits⟩ := h
  have hhead := fun c => zero_le_head (c := c) hmark hdigits
  have hsignHead : ∀ c, (sign ++ (mark ++ digits)).head? = some c → isspace c = false := by
    intro c hc
    cases hsign with
    | absent => exact not_isspace_of_le (hhead c hc)
    | plus => obtain rfl := Option.some.inj hc; decide
    | minus => obtain rfl := Option.some.inj hc; decide
  have hdrop : (blanks ++ (sign ++ (mark ++ digits))).dropWhile isspace =
      sign ++ (mark ++ digits) := by
    rw [List.dropWhile_append_of_pos hblanks]
    cases hrest : sign ++ (mark ++ digits) with
    | nil => rfl
    | cons c rest =>
      rw [List.dropWhile_cons_of_neg]
      rw [hsignHead c (by rw [hrest]; rfl)]
      exact Bool.false_ne_true
  rw [strtol, hdrop, splitSign_append hsign hhead]
  dsimp only
  rw [splitBase_append hbase hmark hne hdigits]
  dsimp only
  rw [List.takeWhile_eq_self_iff.mpr hdigits, List.dropWhile_eq_nil_iff.mpr hdigits, if_neg hne]
  rfl

/-- Where `strtol` reads to the end there is a number. -/
theorem literal_of_strtol (hne : text ≠ []) {r : Strtol} (h : strtol text base = r)
    (hend : r.endptr = []) : ∃ v, Literal base text v ∧ r = clamp v [] := by
  subst h
  rw [strtol] at hend ⊢
  obtain ⟨sign, hsign, hcs⟩ := exists_sign (text.dropWhile isspace)
  generalize splitSign (text.dropWhile isspace) = p at *
  obtain ⟨neg, unsigned⟩ := p
  obtain ⟨mark, hmark, hunsigned⟩ := exists_mark base unsigned
  dsimp only at hend ⊢ hcs hsign
  generalize splitBase base unsigned = q at *
  obtain ⟨b, cs⟩ := q
  dsimp only at hend ⊢ hmark hunsigned
  by_cases hdigits : cs.takeWhile (isDigit b) = []
  · rw [if_pos hdigits] at hend
    exact absurd hend hne
  · rw [if_neg hdigits] at hend ⊢
    have hrest : cs.dropWhile (isDigit b) = [] := by
      rw [← hend]
      unfold clamp
      split_ifs <;> rfl
    have hall : ∀ c ∈ cs, isDigit b c := List.dropWhile_eq_nil_iff.mp hrest
    have htake : cs.takeWhile (isDigit b) = cs := List.takeWhile_eq_self_iff.mpr hall
    rw [htake] at hdigits ⊢
    rw [hrest]
    refine ⟨signed neg (ofDigits b cs), ?_, rfl⟩
    rw [← List.takeWhile_append_dropWhile (p := isspace) (l := text), ← hcs, ← hunsigned]
    exact .mk (fun c hc => List.mem_takeWhile_imp hc) hsign hmark hdigits hall

theorem clamp_eq_iff {w : ℤ} :
    clamp w [] = ⟨v, [], false⟩ ↔ w = v ∧ LONG_MIN ≤ v ∧ v ≤ LONG_MAX := by
  unfold clamp
  split_ifs with hmax hmin
  · exact iff_of_false nofun (by rintro ⟨rfl, -, hle⟩; omega)
  · exact iff_of_false nofun (by rintro ⟨rfl, hle, -⟩; omega)
  · simp only [Strtol.mk.injEq, and_true]
    constructor
    · rintro rfl
      exact ⟨rfl, by omega, by omega⟩
    · exact And.left

end Strtol

/-! ## What `printf` writes -/

section Printed

variable {b n : ℕ}

/-- A digit of a number in a base up to 16. -/
def digit (d : ℕ) : UInt8 := d.digitChar.toNat.toUInt8

/-- The digits of a number. -/
def digitsText (b n : ℕ) : List UInt8 := (Nat.toDigits b n).map fun c => c.toNat.toUInt8

theorem digitsText_eq_if (hb : 1 < b) : digitsText b n =
    if n < b then [digit n] else digitsText b (n / b) ++ [digit (n % b)] := by
  rw [digitsText, Nat.toDigits_eq_if hb]
  split_ifs
  · rfl
  · rw [List.map_append]
    rfl

theorem digitVal?_digit : ∀ d < 16, digitVal? (digit d) = some d := by decide

theorem isDigit_digit (hb : b ≤ 16) {d : ℕ} (hd : d < b) : isDigit b (digit d) :=
  isDigit_iff.mpr ⟨d, digitVal?_digit d (by omega), hd⟩

theorem digitsText_ne_nil (b n : ℕ) : digitsText b n ≠ [] :=
  fun h => Nat.toDigits_ne_nil (List.map_eq_nil_iff.mp h)

theorem isDigit_of_mem_digitsText (hb : 1 < b) (hb' : b ≤ 16) :
    ∀ c ∈ digitsText b n, isDigit b c := by
  induction n using Nat.strong_induction_on with
  | _ n ih =>
    rw [digitsText_eq_if hb]
    split_ifs with hn
    · exact fun c hc => List.mem_singleton.mp hc ▸ isDigit_digit hb' hn
    · intro c hc
      rcases List.mem_append.mp hc with hc | hc
      · exact ih (n / b) (Nat.div_lt_self (by omega) hb) c hc
      · exact List.mem_singleton.mp hc ▸ isDigit_digit hb' (Nat.mod_lt _ (by omega))

theorem ofDigits_append_singleton (digits : List UInt8) (c : UInt8) :
    ofDigits b (digits ++ [c]) = ofDigits b digits * b + (digitVal? c).getD 0 := by
  rw [ofDigits, List.foldl_append]
  rfl

theorem ofDigits_digitsText (hb : 1 < b) (hb' : b ≤ 16) : ofDigits b (digitsText b n) = n := by
  induction n using Nat.strong_induction_on with
  | _ n ih =>
    rw [digitsText_eq_if hb]
    split_ifs with hn
    · rw [← List.nil_append [digit n], ofDigits_append_singleton, digitVal?_digit n (by omega),
        ofDigits, List.foldl_nil, Nat.zero_mul, Nat.zero_add]
      rfl
    · have hmod := Nat.mod_lt n (Nat.lt_of_succ_lt hb)
      rw [ofDigits_append_singleton, ih (n / b) (Nat.div_lt_self (by omega) hb),
        digitVal?_digit _ (by omega)]
      exact Nat.div_add_mod' n b

/-- Only zero begins with a zero. -/
theorem head?_digitsText (hb : 1 < b) (hb' : b ≤ 16) (hn : n ≠ 0) :
    (digitsText b n).head? ≠ some 0x30 := by
  have hdigit : ∀ d < 16, d ≠ 0 → digit d ≠ 0x30 := by decide
  induction n using Nat.strong_induction_on with
  | _ n ih =>
    rw [digitsText_eq_if hb]
    split_ifs with hlt
    · rw [List.head?_cons]
      exact fun h => hdigit n (by omega) hn (Option.some.inj h)
    · rw [List.head?_append_of_ne_nil _ (digitsText_ne_nil _ _)]
      exact ih (n / b) (Nat.div_lt_self (by omega) hb)
        (Nat.div_pos (not_lt.mp hlt) (by omega)).ne'

/-- The conversions of a `long`: `%ld`, `%lo`, `%lx`, `%#lo` and `%#lx`. -/
inductive Conversion
  | ld
  | lo
  | lx
  | altLo
  | altLx

namespace Conversion

/-- What `printf` writes. -/
def print (v : BitVec 64) : Conversion → List UInt8
  | ld => if v.toInt < 0 then 0x2d :: digitsText 10 v.toInt.natAbs
    else digitsText 10 v.toInt.natAbs
  | lo => digitsText 8 v.toNat
  | lx => digitsText 16 v.toNat
  | altLo => if v = 0 then [0x30] else 0x30 :: digitsText 8 v.toNat
  | altLx => if v = 0 then [0x30] else 0x30 :: 0x78 :: digitsText 16 v.toNat

/-- The number that it writes; only `%ld` has a sign. -/
def value (v : BitVec 64) : Conversion → ℤ
  | ld => v.toInt
  | _ => v.toNat

/-- The bases in which it can be read back. -/
def ReadIn (base : ℕ) : Conversion → Prop
  | ld => base = 10 ∨ base = 0
  | lo => base = 8
  | lx => base = 16
  | altLo => base = 8 ∨ base = 0
  | altLx => base = 16 ∨ base = 0

variable {base : ℕ} {v : BitVec 64} {conv : Conversion}

/-- A number with its sign and its mark. -/
theorem literal_of_mark {sign mark : List UInt8} {neg : Bool} (hsign : Sign sign neg)
    (hmark : Mark base mark (digitsText b n) b) (hb : 1 < b) (hb' : b ≤ 16) :
    Literal base (sign ++ (mark ++ digitsText b n)) (signed neg n) := by
  have h := Literal.mk (fun _ hc => absurd hc List.not_mem_nil) hsign hmark
    (digitsText_ne_nil b n) (isDigit_of_mem_digitsText hb hb')
  rwa [ofDigits_digitsText hb hb'] at h

/-- The digits of `%ld`; in base zero a lone zero counts as octal. -/
theorem literal_ld {sign : List UInt8} {neg : Bool} (hsign : Sign sign neg)
    (h : base = 10 ∨ base = 0) : Literal base (sign ++ digitsText 10 n) (signed neg n) := by
  rcases h with rfl | rfl
  · exact literal_of_mark hsign (.given (by decide)) (by decide) (by decide)
  · by_cases hn : n = 0
    · subst hn
      exact literal_of_mark (b := 8) (n := 0) hsign (.octal rfl rfl) (by decide) (by decide)
    · exact literal_of_mark hsign (.decimal rfl (head?_digitsText (by decide) (by decide) hn))
        (by decide) (by decide)

/-- A lone zero. -/
theorem literal_zero (h : base = 8 ∨ base = 16 ∨ base = 0) : Literal base [0x30] 0 := by
  rcases h with rfl | rfl | rfl
  · exact literal_of_mark (b := 8) (n := 0) .absent (.given (by decide)) (by decide) (by decide)
  · exact literal_of_mark (b := 16) (n := 0) .absent (.given (by decide)) (by decide) (by decide)
  · exact literal_of_mark (b := 8) (n := 0) .absent (.octal rfl rfl) (by decide) (by decide)

/-- The zero in front of the octal digits is a digit itself. -/
theorem literal_altLo (h : base = 8 ∨ base = 0) : Literal base (0x30 :: digitsText 8 n) n := by
  have hmark : Mark base [] (0x30 :: digitsText 8 n) 8 := by
    rcases h with rfl | rfl
    · exact .given (by decide)
    · exact .octal rfl rfl
  have hdigits : ∀ c ∈ 0x30 :: digitsText 8 n, isDigit 8 c :=
    List.forall_mem_cons.mpr ⟨by decide, isDigit_of_mem_digitsText (by decide) (by decide)⟩
  have hliteral := Literal.mk (fun _ hc => absurd hc List.not_mem_nil) .absent hmark
    (List.cons_ne_nil _ _) hdigits
  have hvalue : ofDigits 8 (0x30 :: digitsText 8 n) = n :=
    (ofDigits_digitsText (b := 8) (by decide) (by decide))
  rwa [hvalue] at hliteral

/-- **What is written is a number**, the one that was to be written. -/
theorem literal_print (h : conv.ReadIn base) : Literal base (conv.print v) (conv.value v) := by
  cases conv with
  | ld =>
    rw [print, value]
    split_ifs with hneg
    · have hsigned : signed true v.toInt.natAbs = v.toInt := by
        rw [signed, if_pos rfl]
        omega
      have hliteral := literal_ld (n := v.toInt.natAbs) .minus h
      rwa [hsigned] at hliteral
    · have hsigned : signed false v.toInt.natAbs = v.toInt := by
        rw [signed, if_neg Bool.false_ne_true]
        omega
      have hliteral := literal_ld (n := v.toInt.natAbs) .absent h
      rwa [hsigned] at hliteral
  | lo => exact h ▸ literal_of_mark .absent (.given (by decide)) (by decide) (by decide)
  | lx => exact h ▸ literal_of_mark .absent (.given (by decide)) (by decide) (by decide)
  | altLo =>
    rw [print, value]
    split_ifs with hzero
    · subst hzero
      exact literal_zero (h.imp_right .inr)
    · exact literal_altLo h
    · nofun
  | altLx =>
    rw [print, value]
    split_ifs with hzero
    · subst hzero
      exact literal_zero (.inr h)
    · exact literal_of_mark .absent (.hex h.symm (.inl rfl)) (by decide) (by decide)
    · nofun

theorem zero_notMem_digitsText (hb : 1 < b) (hb' : b ≤ 16) : 0 ∉ digitsText b n :=
  fun h => absurd (zero_le_of_isDigit (isDigit_of_mem_digitsText hb hb' 0 h)) (by decide)

/-- There is no zero byte in it. -/
theorem zero_notMem_print (v : BitVec 64) (conv : Conversion) : 0 ∉ conv.print v := by
  have hoct := zero_notMem_digitsText (b := 8) (n := v.toNat) (by decide) (by decide)
  have hhex := zero_notMem_digitsText (b := 16) (n := v.toNat) (by decide) (by decide)
  have hdec := zero_notMem_digitsText (b := 10) (n := v.toInt.natAbs) (by decide) (by decide)
  cases conv with
  | ld => rw [print]; split_ifs <;> simp [hdec]
  | lo => exact hoct
  | lx => exact hhex
  | altLo => rw [print]; split_ifs <;> simp [hoct]
  | altLx => rw [print]; split_ifs <;> simp [hhex]

/-- A number is one that a `long` holds exactly if it has a sign or needs none. -/
theorem value_eq_iff {w : ℤ} : conv.value v = w ∧ LONG_MIN ≤ w ∧ w ≤ LONG_MAX ↔
    w = v.toInt ∧ (conv = .ld ∨ 0 ≤ v.toInt) := by
  have hlow := BitVec.le_toInt v
  have hhigh := BitVec.toInt_lt (x := v)
  have hunsigned : (v.toNat : ℤ) = w ∧ LONG_MIN ≤ w ∧ w ≤ LONG_MAX ↔
      w = v.toInt ∧ 0 ≤ v.toInt := by
    have hlt := v.isLt
    unfold LONG_MIN LONG_MAX
    rw [BitVec.toInt_eq_toNat_cond] at *
    split_ifs at * <;> omega
  cases conv with
  | ld =>
    unfold LONG_MIN LONG_MAX
    rw [value]
    constructor
    · rintro ⟨rfl, -⟩
      exact ⟨rfl, .inl rfl⟩
    · rintro ⟨rfl, -⟩
      omega
  | lo => exact hunsigned.trans (by simp)
  | lx => exact hunsigned.trans (by simp)
  | altLo => exact hunsigned.trans (by simp)
  | altLx => exact hunsigned.trans (by simp)

/-- A `long` as `printf` writes it. -/
def printed (v : BitVec 64) (conv : Conversion) : CStr := ⟨conv.print v, zero_notMem_print v conv⟩

end Conversion

end Printed

namespace Flags

variable {flags : CInt} {text : List UInt8} {v : ℤ}

theorem base_le (flags : CInt) : base flags ≤ 16 := by
  unfold base
  split_ifs <;> decide

/-- **The texts that are numbers.** -/
theorem numeral_iff_literal :
    Numeral (base flags) text v ↔ Literal (base flags) text v ∧ LONG_MIN ≤ v ∧ v ≤ LONG_MAX := by
  constructor
  · rintro ⟨hne, h⟩
    obtain ⟨w, hw, hclamp⟩ := literal_of_strtol hne h rfl
    obtain ⟨rfl, hrange⟩ := clamp_eq_iff.mp hclamp.symm
    exact ⟨hw, hrange⟩
  · rintro ⟨h, hrange⟩
    exact ⟨h.ne_nil, (strtol_literal (base_le flags) h).trans (clamp_eq_iff.mpr ⟨rfl, hrange⟩)⟩

/-- **What `getLong` accepts**, and the number that it returns. -/
theorem getLong_eq_ok_iff_literal (s : CStr) (flags : CInt) (v : ℤ) :
    getLong (some s) flags = .ok v ↔
      Literal (base flags) s.chars v ∧ (LONG_MIN ≤ v ∧ v ≤ LONG_MAX) ∧ Admitted flags v := by
  rw [getLong, getnum_eq_ok_iff, ← and_assoc, ← numeral_iff_literal]
  constructor
  · rintro ⟨_, hs, h⟩
    obtain rfl := Option.some.inj hs
    exact h
  · exact fun h => ⟨s, rfl, h⟩

/-- **Numbers come back.**  What `printf` writes for a `long` `getLong` reads back, if its flags
choose a base to read it in and admit its sign; but a negative number that was written without a
sign is out of range. -/
theorem getLong_printed_iff (v : BitVec 64) (conv : Conversion) (flags : CInt)
    (hreads : conv.ReadIn (base flags)) (w : ℤ) :
    getLong (some (conv.printed v)) flags = .ok w ↔
      (w = v.toInt ∧ (conv = .ld ∨ 0 ≤ v.toInt)) ∧ Admitted flags w := by
  have hliteral := Conversion.literal_print (v := v) hreads
  have hnumeral : Numeral (base flags) (conv.print v) w ↔
      w = v.toInt ∧ (conv = .ld ∨ 0 ≤ v.toInt) := by
    rw [Numeral, and_iff_right hliteral.ne_nil, strtol_literal (base_le flags) hliteral,
      clamp_eq_iff, Conversion.value_eq_iff]
  rw [getLong, getnum_eq_ok_iff]
  constructor
  · rintro ⟨_, hs, h⟩
    obtain rfl := Option.some.inj hs
    exact ⟨hnumeral.mp h.1, h.2⟩
  · exact fun h => ⟨_, rfl, hnumeral.mpr h.1, h.2⟩

/-- `-31` by `%ld` and without flags. -/
theorem getLong_printed_neg : Conversion.ReadIn (base 0) .ld ∧
    (getLong (some (Conversion.printed (-31) .ld)) 0 = .ok (-31) ↔
      ((-31 : ℤ) = BitVec.toInt (-31 : BitVec 64) ∧
        (Conversion.ld = .ld ∨ 0 ≤ BitVec.toInt (-31 : BitVec 64))) ∧ Admitted 0 (-31)) :=
  ⟨.inl rfl, getLong_printed_iff (-31) .ld 0 (.inl rfl) (-31)⟩

end Flags
end GetNum
end CodeStrudy
