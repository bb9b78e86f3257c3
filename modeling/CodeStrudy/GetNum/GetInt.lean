import CodeStrudy.Foundation.CInt
import CodeStrudy.GetNum.GetNum

/-!
# Numbers with flags, as a `long` and as an `int`

`error_functions/get_num.c` with all its flags: the base of the number, and whether negative numbers
or zero are refused.  `getInt` stores what `getnum` returns in an `int` and then compares the `int`
with `INT_MAX` and `INT_MIN`.

## What is proved

* `getnum_anyBase`: with `GN_ANY_BASE` alone this is the `getnum` of the commands of `seek_io`.
* `getnum_eq_ok_iff`: what numbers are returned.
* `agrees_iff`: `getInt` is `getLong` on the numbers that an `int` holds exactly if the argument is
  not a number that a `long` holds, an `int` does not, and the flags admit.
-/

namespace CodeStrudy
namespace GetNum
namespace Flags

open Foundation

def GN_NONNEG : CInt := 0o1#32

def GN_GT_0 : CInt := 0o2#32

def GN_ANY_BASE : CInt := 0o100#32

def GN_BASE_8 : CInt := 0o200#32

def GN_BASE_16 : CInt := 0o400#32

def INT_MAX : ℤ := 2147483647

def INT_MIN : ℤ := -2147483648

/-! ## `get_num.c` -/

/-- The base that the flags choose. -/
def base (flags : CInt) : ℕ :=
  if flags &&& GN_ANY_BASE ≠ 0 then 0
  else if flags &&& GN_BASE_8 ≠ 0 then 8
  else if flags &&& GN_BASE_16 ≠ 0 then 16
  else 10

/-- `getnum`; the argument may be the null pointer. -/
def getnum (fname : String) (arg : Option CStr) (flags : CInt) : Except GnFail ℤ :=
  match arg with
  | none => .error ⟨fname, "null or emtry string", []⟩
  | some s =>
    if s.chars = [] then .error ⟨fname, "null or emtry string", s.chars⟩
    else if (strtol s.chars (base flags)).erange then .error ⟨fname, "strtol() failed", s.chars⟩
    else if (strtol s.chars (base flags)).endptr ≠ [] then
      .error ⟨fname, "nonmumeric characters", s.chars⟩
    else if flags &&& GN_NONNEG ≠ 0 ∧ (strtol s.chars (base flags)).value < 0 then
      .error ⟨fname, "negative value not allowed", s.chars⟩
    else if flags &&& GN_GT_0 ≠ 0 ∧ (strtol s.chars (base flags)).value ≤ 0 then
      .error ⟨fname, "value must be > 0", s.chars⟩
    else .ok (strtol s.chars (base flags)).value

def getLong (arg : Option CStr) (flags : CInt) : Except GnFail ℤ := getnum "getLong" arg flags

/-- A `long` stored in an `int`. -/
def intOfLong (v : ℤ) : ℤ := (BitVec.ofInt 32 v).toInt

def getInt (arg : Option CStr) (flags : CInt) : Except GnFail ℤ :=
  match getnum "getInt" arg flags with
  | .error e => .error e
  | .ok res =>
    if INT_MAX < intOfLong res ∨ intOfLong res < INT_MIN then
      .error ⟨"getInt", "integer out of range", (arg.map CStr.chars).getD []⟩
    else .ok (intOfLong res)

example : (getInt (some ⟨ascii "4294967301", by decide⟩) GN_NONNEG).toOption = some 5 := by decide

/-! ## What it should do -/

/-- `getInt` succeeds with a number exactly if `getLong` does and an `int` holds the number. -/
def Agrees (arg : Option CStr) (flags : CInt) : Prop :=
  ∀ v, getInt arg flags = .ok v ↔ getLong arg flags = .ok v ∧ INT_MIN ≤ v ∧ v ≤ INT_MAX

/-- The whole of a text is a number that a `long` holds. -/
def Numeral (b : ℕ) (text : List UInt8) (v : ℤ) : Prop := text ≠ [] ∧ strtol text b = ⟨v, [], false⟩

/-- The sign of a number is one that the flags admit. -/
def Admitted (flags : CInt) (v : ℤ) : Prop :=
  (flags &&& GN_NONNEG ≠ 0 → 0 ≤ v) ∧ (flags &&& GN_GT_0 ≠ 0 → 0 < v)

/-! ## What it does -/

/-- With `GN_ANY_BASE` alone there is no check of the sign. -/
theorem getnum_anyBase (fname : String) (s : CStr) :
    getnum fname (some s) GN_ANY_BASE = GetNum.getnum fname s.chars 0 := by
  have hbase : base GN_ANY_BASE = 0 := by decide
  have hnonneg : ¬ (GN_ANY_BASE &&& GN_NONNEG ≠ 0) := by decide
  have hpos : ¬ (GN_ANY_BASE &&& GN_GT_0 ≠ 0) := by decide
  unfold getnum GetNum.getnum
  simp only [hbase, eq_false hnonneg, eq_false hpos, false_and, if_false]

theorem strtol_eq_mk {r : Strtol} (hend : r.endptr = []) (hrange : r.erange = false) :
    r = ⟨r.value, [], false⟩ := by
  rw [← hend, ← hrange]

/-- **What `getnum` returns**: the numbers that a `long` holds and the flags admit. -/
theorem getnum_eq_ok_iff {fname : String} {arg : Option CStr} {flags : CInt} {v : ℤ} :
    getnum fname arg flags = .ok v ↔
      ∃ s, arg = some s ∧ Numeral (base flags) s.chars v ∧ Admitted flags v := by
  constructor
  · intro h
    unfold getnum at h
    cases arg with
    | none => cases h
    | some s =>
      simp only at h
      split_ifs at h with hne hrange hend hnonneg hpos
      obtain rfl := Except.ok.inj h
      refine ⟨s, rfl, ⟨hne, ?_⟩, fun hflag => ?_, fun hflag => ?_⟩
      · rw [Bool.not_eq_true] at hrange
        exact strtol_eq_mk (not_not.mp hend) hrange
      · exact not_lt.mp fun hlt => hnonneg ⟨hflag, hlt⟩
      · exact not_le.mp fun hle => hpos ⟨hflag, hle⟩
  · rintro ⟨s, rfl, ⟨hne, hstrtol⟩, hnonneg, hpos⟩
    unfold getnum
    simp only
    rw [if_neg hne, hstrtol, if_neg Bool.false_ne_true, if_neg (not_not_intro rfl),
      if_neg fun h => not_lt.mpr (hnonneg h.1) h.2, if_neg fun h => not_le.mpr (hpos h.1) h.2]

theorem intOfLong_mem (v : ℤ) : INT_MIN ≤ intOfLong v ∧ intOfLong v ≤ INT_MAX := by
  have hlow := BitVec.le_toInt (x := BitVec.ofInt 32 v)
  have hhigh := BitVec.toInt_lt (x := BitVec.ofInt 32 v)
  unfold INT_MIN INT_MAX intOfLong
  omega

theorem intOfLong_of_mem {v : ℤ} (h : INT_MIN ≤ v ∧ v ≤ INT_MAX) : intOfLong v = v := by
  unfold INT_MIN INT_MAX at h
  rw [intOfLong, BitVec.toInt_ofInt]
  exact Int.bmod_eq_of_le (by omega) (by omega)

/-- The comparisons of `getInt` never fail. -/
theorem getInt_eq_ok_iff {arg : Option CStr} {flags : CInt} {w : ℤ} :
    getInt arg flags = .ok w ↔ ∃ v, getLong arg flags = .ok v ∧ intOfLong v = w := by
  have hsame : ∀ v, getnum "getInt" arg flags = .ok v ↔ getLong arg flags = .ok v := fun v => by
    rw [getLong, getnum_eq_ok_iff, getnum_eq_ok_iff]
  unfold getInt
  cases hget : getnum "getInt" arg flags with
  | error e =>
    refine iff_of_false (fun h => nomatch h) ?_
    rintro ⟨v, hv, -⟩
    rw [← hsame, hget] at hv
    cases hv
  | ok v =>
    have hmem := intOfLong_mem v
    have hlong := (hsame v).mp hget
    show (if INT_MAX < intOfLong v ∨ intOfLong v < INT_MIN then _ else _) = _ ↔ _
    rw [if_neg (by omega), hlong]
    simp

/-! ## When it does what it should -/

/-- **When `getInt` is `getLong` on the numbers that an `int` holds**: the argument is not a number
that a `long` holds and the flags admit, or an `int` holds that number. -/
theorem agrees_iff (arg : Option CStr) (flags : CInt) :
    Agrees arg flags ↔ ∀ s, arg = some s → ∀ v, Numeral (base flags) s.chars v →
      Admitted flags v → INT_MIN ≤ v ∧ v ≤ INT_MAX := by
  constructor
  · intro h s hs v hnum hadm
    have hlong : getLong arg flags = .ok v := getnum_eq_ok_iff.mpr ⟨s, hs, hnum, hadm⟩
    have hint := (h (intOfLong v)).mp (getInt_eq_ok_iff.mpr ⟨v, hlong, rfl⟩)
    have hsame : v = intOfLong v := Except.ok.inj (hlong.symm.trans hint.1)
    rw [hsame]
    exact hint.2
  · intro h w
    rw [getInt_eq_ok_iff]
    constructor
    · rintro ⟨v, hlong, rfl⟩
      obtain ⟨s, hs, hnum, hadm⟩ := getnum_eq_ok_iff.mp hlong
      have hmem := h s hs v hnum hadm
      rw [intOfLong_of_mem hmem]
      exact ⟨hlong, hmem⟩
    · rintro ⟨hlong, hmem⟩
      exact ⟨w, hlong, intOfLong_of_mem hmem⟩

/-- `4294967301` is more than an `int` holds, and `getInt` makes 5 of it. -/
theorem not_agrees : ¬ ∀ (s : CStr) (flags : CInt), Agrees (some s) flags := by
  intro h
  have h5 := (h ⟨ascii "4294967301", by decide⟩ GN_NONNEG 5).mp (by decide)
  revert h5
  decide

end Flags
end GetNum
end CodeStrudy
