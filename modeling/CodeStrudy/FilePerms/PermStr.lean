import CodeStrudy.Foundation.CInt
import Mathlib.Data.List.Basic

/-!
# The permission string of a file

`filePermStr` of `practice/15.3` and `routines/15.5.t_umask`: nine characters for the permissions of
the owner, the group and the others.  With `FP_SPECIAL` the third character of each group of three
also shows the set-user-ID, set-group-ID or sticky bit, as `s` where the permission to execute is
given and as `S` where it is not.

## What is proved

* `parse_filePermStr`: what is shown can be read back: the twelve bits with `FP_SPECIAL`, and the
  nine without it.
* `parse_eq_some_iff`: the strings that can be read are exactly those that `filePermStr` writes, one
  for each choice of the twelve bits.
* `filePermStr_umask`: taking the bits of a mask away takes its characters away.
-/

namespace CodeStrudy
namespace FilePerms

open Foundation

/-- `mode_t`. -/
abbrev Mode := BitVec 32

def S_ISUID : Mode := 0o4000
def S_ISGID : Mode := 0o2000
def S_ISVTX : Mode := 0o1000
def S_IRUSR : Mode := 0o400
def S_IWUSR : Mode := 0o200
def S_IXUSR : Mode := 0o100
def S_IRGRP : Mode := 0o40
def S_IWGRP : Mode := 0o20
def S_IXGRP : Mode := 0o10
def S_IROTH : Mode := 0o4
def S_IWOTH : Mode := 0o2
def S_IXOTH : Mode := 0o1

def FP_SPECIAL : CInt := 1

/-- The truth value of `perm & bit`. -/
def has (perm bit : Mode) : Bool := perm &&& bit != 0

/-- The truth value of `flags & FP_SPECIAL`. -/
def special (flags : CInt) : Bool := flags &&& FP_SPECIAL != 0

/-- Three of the nine characters. -/
def permChars (perm r w x s : Mode) (flags : CInt) : List Char :=
  [if has perm r then 'r' else '-',
    if has perm w then 'w' else '-',
    if has perm x then (if has perm s && special flags then 's' else 'x')
    else (if has perm s && special flags then 'S' else '-')]

/-- The characters that `filePermStr` leaves in its buffer. -/
def filePermStr (perm : Mode) (flags : CInt) : List Char :=
  permChars perm S_IRUSR S_IWUSR S_IXUSR S_ISUID flags ++
    permChars perm S_IRGRP S_IWGRP S_IXGRP S_ISGID flags ++
      permChars perm S_IROTH S_IWOTH S_IXOTH S_ISVTX flags

/-- The text and its zero byte fill the buffer of `sizeof("rwxrwxrwx")` bytes. -/
theorem length_filePermStr (perm : Mode) (flags : CInt) : (filePermStr perm flags).length = 9 := rfl

/-! ## Bits -/

/-- A mode of one bit. -/
def IsBit (bit : Mode) : Prop := ∃ i, bit = BitVec.twoPow 32 i

theorem IsBit.and_eq {bit : Mode} (h : IsBit bit) (perm : Mode) :
    perm &&& bit = if has perm bit then bit else 0 := by
  obtain ⟨i, rfl⟩ := h
  rw [has, BitVec.and_twoPow]
  cases perm.getLsbD i <;> simp

/-! ## Reading the string back -/

/-- What three characters show. -/
structure Triad where
  r : Bool
  w : Bool
  x : Bool
  s : Bool
  deriving DecidableEq

namespace Triad

/-- The bits of a mode that three characters show. -/
def ofMode (perm r w x s : Mode) (flags : CInt) : Triad :=
  ⟨has perm r, has perm w, has perm x, has perm s && special flags⟩

def toMode (t : Triad) (r w x s : Mode) : Mode :=
  (if t.r then r else 0) ||| (if t.w then w else 0) ||| (if t.x then x else 0) |||
    (if t.s then s else 0)

def chars (t : Triad) : List Char :=
  [if t.r then 'r' else '-', if t.w then 'w' else '-',
    if t.x then (if t.s then 's' else 'x') else (if t.s then 'S' else '-')]

/-- Three characters are read. -/
def parse (c₁ c₂ c₃ : Char) : Option Triad :=
  if (c₁ = 'r' ∨ c₁ = '-') ∧ (c₂ = 'w' ∨ c₂ = '-') ∧ c₃ ∈ ['x', 's', 'S', '-'] then
    some ⟨c₁ = 'r', c₂ = 'w', c₃ = 'x' ∨ c₃ = 's', c₃ = 's' ∨ c₃ = 'S'⟩
  else none

theorem parse_chars (t : Triad) :
    parse (if t.r then 'r' else '-') (if t.w then 'w' else '-')
      (if t.x then (if t.s then 's' else 'x') else (if t.s then 'S' else '-')) = some t := by
  obtain ⟨r, w, x, s⟩ := t
  revert r w x s
  decide

theorem chars_of_parse {c₁ c₂ c₃ : Char} {t : Triad} (h : parse c₁ c₂ c₃ = some t) :
    t.chars = [c₁, c₂, c₃] := by
  obtain ⟨⟨h₁, h₂, h₃⟩, ht⟩ := Option.ite_none_right_eq_some.mp h
  obtain rfl := Option.some.inj ht
  simp only [List.mem_cons, List.not_mem_nil, or_false] at h₃
  rcases h₁ with rfl | rfl <;> rcases h₂ with rfl | rfl <;>
    rcases h₃ with rfl | rfl | rfl | rfl <;> decide

end Triad

/-- The mode that a string of nine characters shows. -/
def parse : List Char → Option Mode
  | [c₁, c₂, c₃, c₄, c₅, c₆, c₇, c₈, c₉] => do
    let usr ← Triad.parse c₁ c₂ c₃
    let grp ← Triad.parse c₄ c₅ c₆
    let oth ← Triad.parse c₇ c₈ c₉
    some (usr.toMode S_IRUSR S_IWUSR S_IXUSR S_ISUID |||
      grp.toMode S_IRGRP S_IWGRP S_IXGRP S_ISGID |||
      oth.toMode S_IROTH S_IWOTH S_IXOTH S_ISVTX)
  | _ => none

/-- The bits that are shown. -/
def shown (flags : CInt) : Mode := if special flags then 0o7777 else 0o777

/-- Nine characters are read as three times three. -/
theorem parse_append (usr grp oth : Triad) :
    parse (usr.chars ++ grp.chars ++ oth.chars) =
      some (usr.toMode S_IRUSR S_IWUSR S_IXUSR S_ISUID |||
        grp.toMode S_IRGRP S_IWGRP S_IXGRP S_ISGID |||
          oth.toMode S_IROTH S_IWOTH S_IXOTH S_ISVTX) := by
  simp only [Triad.chars, List.cons_append, List.nil_append, parse, Triad.parse_chars,
    Option.bind_eq_bind, Option.bind_some]

theorem permChars_eq (perm r w x s : Mode) (flags : CInt) :
    permChars perm r w x s flags = (Triad.ofMode perm r w x s flags).chars := rfl

/-- Three characters show the bits of the mode that they are about. -/
theorem toMode_ofMode {r w x s : Mode} (hr : IsBit r) (hw : IsBit w) (hx : IsBit x) (hs : IsBit s)
    (perm : Mode) (flags : CInt) :
    (Triad.ofMode perm r w x s flags).toMode r w x s =
      perm &&& (r ||| w ||| x ||| if special flags then s else 0) := by
  rw [BitVec.and_or_distrib_left, BitVec.and_or_distrib_left, BitVec.and_or_distrib_left,
    hr.and_eq, hw.and_eq, hx.and_eq, Triad.toMode, Triad.ofMode]
  congr 1
  cases special flags with
  | false => simp
  | true => simp [hs.and_eq]

/-- **The round trip.**  What `filePermStr` shows of a mode is read back from its string. -/
theorem parse_filePermStr (perm : Mode) (flags : CInt) :
    parse (filePermStr perm flags) = some (perm &&& shown flags) := by
  have husr := toMode_ofMode (r := S_IRUSR) (w := S_IWUSR) (x := S_IXUSR) (s := S_ISUID)
    ⟨8, by decide⟩ ⟨7, by decide⟩ ⟨6, by decide⟩ ⟨11, by decide⟩ perm flags
  have hgrp := toMode_ofMode (r := S_IRGRP) (w := S_IWGRP) (x := S_IXGRP) (s := S_ISGID)
    ⟨5, by decide⟩ ⟨4, by decide⟩ ⟨3, by decide⟩ ⟨10, by decide⟩ perm flags
  have hoth := toMode_ofMode (r := S_IROTH) (w := S_IWOTH) (x := S_IXOTH) (s := S_ISVTX)
    ⟨2, by decide⟩ ⟨1, by decide⟩ ⟨0, by decide⟩ ⟨9, by decide⟩ perm flags
  rw [filePermStr, permChars_eq, permChars_eq, permChars_eq, parse_append, husr, hgrp, hoth,
    ← BitVec.and_or_distrib_left, ← BitVec.and_or_distrib_left, shown]
  cases special flags <;> rfl

theorem has_and_of_subset {mask bit : Mode} (h : mask &&& bit = bit) (perm : Mode) :
    has (perm &&& mask) bit = has perm bit := by
  rw [has, has, BitVec.and_assoc, h]

theorem permChars_and_shown {r w x s : Mode} {flags : CInt} (hr : shown flags &&& r = r)
    (hw : shown flags &&& w = w) (hx : shown flags &&& x = x)
    (hs : special flags = true → shown flags &&& s = s) (perm : Mode) :
    permChars (perm &&& shown flags) r w x s flags = permChars perm r w x s flags := by
  have hspecial : (has (perm &&& shown flags) s && special flags) =
      (has perm s && special flags) := by
    cases hf : special flags with
    | false => rw [Bool.and_false, Bool.and_false]
    | true => rw [has_and_of_subset (hs hf)]
  rw [permChars, has_and_of_subset hr, has_and_of_subset hw, has_and_of_subset hx, hspecial]
  rfl

/-- The permission bits are always shown. -/
theorem shown_and_perm (flags : CInt) : ∀ bit ∈ [S_IRUSR, S_IWUSR, S_IXUSR, S_IRGRP, S_IWGRP,
    S_IXGRP, S_IROTH, S_IWOTH, S_IXOTH], shown flags &&& bit = bit := by
  unfold shown
  simp only [List.forall_mem_cons]
  cases special flags <;> exact ⟨rfl, rfl, rfl, rfl, rfl, rfl, rfl, rfl, rfl, by simp⟩

theorem shown_and_special {flags : CInt} (h : special flags = true) :
    ∀ bit ∈ [S_ISUID, S_ISGID, S_ISVTX], shown flags &&& bit = bit := by
  rw [shown, if_pos h]
  simp only [List.forall_mem_cons]
  exact ⟨rfl, rfl, rfl, by simp⟩

/-- Only the bits that are shown count. -/
theorem filePermStr_and_shown (perm : Mode) (flags : CInt) :
    filePermStr (perm &&& shown flags) flags = filePermStr perm flags := by
  have hperm := shown_and_perm flags
  have hspecial := fun h : special flags = true => shown_and_special h
  unfold filePermStr
  rw [permChars_and_shown (hperm _ (by simp)) (hperm _ (by simp)) (hperm _ (by simp))
      fun h => hspecial h _ (by simp),
    permChars_and_shown (hperm _ (by simp)) (hperm _ (by simp)) (hperm _ (by simp))
      fun h => hspecial h _ (by simp),
    permChars_and_shown (hperm _ (by simp)) (hperm _ (by simp)) (hperm _ (by simp))
      fun h => hspecial h _ (by simp)]

/-- Two modes have one string exactly if they agree on the bits that are shown. -/
theorem filePermStr_eq_iff (perm perm' : Mode) (flags : CInt) :
    filePermStr perm flags = filePermStr perm' flags ↔
      perm &&& shown flags = perm' &&& shown flags := by
  constructor
  · intro h
    have hparse := congrArg parse h
    rw [parse_filePermStr, parse_filePermStr] at hparse
    exact Option.some.inj hparse
  · intro h
    rw [← filePermStr_and_shown, h, filePermStr_and_shown]

/-! ## The strings that can be read -/

theorem has_or (a b bit : Mode) : has (a ||| b) bit = (has a bit || has b bit) := by
  rw [has, has, has, BitVec.and_or_distrib_right, Bool.eq_iff_iff, Bool.or_eq_true]
  simp only [bne_iff_ne]
  rw [← not_and_or, not_iff_not]
  exact BitVec.or_eq_zero_iff

theorem has_ite (p : Bool) (b bit : Mode) : has (if p then b else 0) bit = (p && has b bit) := by
  cases p
  · exact by simp [has]
  · rfl

theorem has_comm (a b : Mode) : has a b = has b a := by rw [has, has, BitVec.and_comm]

theorem has_toMode (t : Triad) (r w x s bits : Mode) : has (t.toMode r w x s) bits =
    (t.r && has r bits || t.w && has w bits || t.x && has x bits || t.s && has s bits) := by
  rw [Triad.toMode, has_or, has_or, has_or, has_ite, has_ite, has_ite, has_ite]

/-- Bits that have nothing to do with those of three characters. -/
theorem has_toMode_eq_false {r w x s bits : Mode} (h : has (r ||| w ||| x ||| s) bits = false)
    (t : Triad) : has (t.toMode r w x s) bits = false := by
  simp only [has_or, Bool.or_eq_false_iff] at h
  simp only [has_toMode, h, Bool.and_false, Bool.or_false]

/-- Three characters are read off a mode that has their bits and others. -/
theorem ofMode_toMode {r w x s : Mode}
    (hself : has r r && has w w && has x x && has s s)
    (hother : !(has r w || has r x || has r s || has w x || has w s || has x s))
    (t : Triad) {rest : Mode} (hrest : has rest (r ||| w ||| x ||| s) = false) :
    Triad.ofMode (t.toMode r w x s ||| rest) r w x s FP_SPECIAL = t := by
  have hspecial : special FP_SPECIAL = true := rfl
  rw [has_comm, has_or, has_or, has_or] at hrest
  simp only [Bool.not_eq_true', Bool.or_eq_false_iff, Bool.and_eq_true] at hself hother hrest
  simp only [Triad.ofMode, has_or, has_toMode, hspecial, hself, hother, has_comm rest, hrest,
    has_comm w r, has_comm x r, has_comm s r, has_comm x w, has_comm s w, has_comm s x,
    Bool.and_true, Bool.and_false, Bool.or_false, Bool.false_or]

/-- `filePermStr` shows three triads as they are. -/
theorem filePermStr_of_triads (usr grp oth : Triad) :
    filePermStr (usr.toMode S_IRUSR S_IWUSR S_IXUSR S_ISUID |||
        grp.toMode S_IRGRP S_IWGRP S_IXGRP S_ISGID |||
          oth.toMode S_IROTH S_IWOTH S_IXOTH S_ISVTX) FP_SPECIAL =
      usr.chars ++ grp.chars ++ oth.chars := by
  have hapart : ∀ {r w x s r' w' x' s' : Mode} (t : Triad),
      has (r ||| w ||| x ||| s) (r' ||| w' ||| x' ||| s') = false →
        has (t.toMode r w x s) (r' ||| w' ||| x' ||| s') = false :=
    fun t h => has_toMode_eq_false h t
  rw [filePermStr, permChars_eq, permChars_eq, permChars_eq]
  congr 1
  · congr 1
    · rw [BitVec.or_assoc, ofMode_toMode rfl rfl usr]
      rw [has_or, hapart grp rfl, hapart oth rfl]
      rfl
    · rw [BitVec.or_comm (usr.toMode _ _ _ _), BitVec.or_assoc, ofMode_toMode rfl rfl grp]
      rw [has_or, hapart usr rfl, hapart oth rfl]
      rfl
  · rw [BitVec.or_comm, ofMode_toMode rfl rfl oth]
    rw [has_or, hapart usr rfl, hapart grp rfl]
    rfl

/-- A string that can be read is put together from three triads. -/
theorem exists_triads_of_parse {l : List Char} {perm : Mode} (h : parse l = some perm) :
    ∃ usr grp oth : Triad, l = usr.chars ++ grp.chars ++ oth.chars := by
  unfold parse at h
  split at h
  · obtain ⟨usr, husr, h⟩ := Option.bind_eq_some_iff.mp h
    obtain ⟨grp, hgrp, h⟩ := Option.bind_eq_some_iff.mp h
    obtain ⟨oth, hoth, -⟩ := Option.bind_eq_some_iff.mp h
    refine ⟨usr, grp, oth, ?_⟩
    rw [Triad.chars_of_parse husr, Triad.chars_of_parse hgrp, Triad.chars_of_parse hoth]
    rfl
  · cases h

/-- **The strings.** A string is read as a mode exactly if it is the one that `filePermStr` writes
for it with `FP_SPECIAL`, and the mode has no other bits than the twelve. -/
theorem parse_eq_some_iff (l : List Char) (perm : Mode) :
    parse l = some perm ↔ l = filePermStr perm FP_SPECIAL ∧ perm &&& 0o7777 = perm := by
  have hshown : shown FP_SPECIAL = 0o7777 := rfl
  constructor
  · intro h
    obtain ⟨usr, grp, oth, rfl⟩ := exists_triads_of_parse h
    rw [parse_append] at h
    have hstr := filePermStr_of_triads usr grp oth
    rw [Option.some.inj h] at hstr
    refine ⟨hstr.symm, ?_⟩
    have hparse := parse_filePermStr perm FP_SPECIAL
    rw [hstr, parse_append, h, hshown] at hparse
    exact (Option.some.inj hparse).symm
  · rintro ⟨rfl, hbits⟩
    rw [parse_filePermStr, hshown, hbits]

/-! ## The mask of the process -/

/-- One character of what is left by a mask: it is there if it was asked for and is not in the
mask. -/
def masked (requested mask : Char) : Char := if mask = '-' then requested else '-'

theorem has_twoPow (perm : Mode) {i : ℕ} (hi : i < 32) :
    has perm (BitVec.twoPow 32 i) = perm.getLsbD i := by
  have hne : BitVec.twoPow 32 i ≠ 0 := by
    intro h0
    have hbit := congrArg (fun b : Mode => b.getLsbD i) h0
    simp [hi] at hbit
  rw [has, BitVec.and_twoPow]
  cases perm.getLsbD i with
  | false => rfl
  | true => exact bne_iff_ne.mpr hne

theorem has_and_not {i : ℕ} (hi : i < 32) (perm mask : Mode) :
    has (perm &&& ~~~mask) (BitVec.twoPow 32 i) =
      (has perm (BitVec.twoPow 32 i) && !has mask (BitVec.twoPow 32 i)) := by
  rw [has_twoPow _ hi, has_twoPow _ hi, has_twoPow _ hi, BitVec.getLsbD_and, BitVec.getLsbD_not,
    decide_eq_true hi, Bool.true_and]

/-- One of the characters without the special bits. -/
theorem char_and_not {i : ℕ} (hi : i < 32) (c : Char) (hc : c ≠ '-') (perm mask : Mode) :
    (if has (perm &&& ~~~mask) (BitVec.twoPow 32 i) then c else '-') =
      masked (if has perm (BitVec.twoPow 32 i) then c else '-')
        (if has mask (BitVec.twoPow 32 i) then c else '-') := by
  rw [has_and_not hi, masked]
  cases has perm (BitVec.twoPow 32 i) <;> cases has mask (BitVec.twoPow 32 i) <;> simp [hc]

theorem permChars_umask {i j k : ℕ} (hi : i < 32) (hj : j < 32) (hk : k < 32) (s perm mask : Mode) :
    permChars (perm &&& ~~~mask) (BitVec.twoPow 32 i) (BitVec.twoPow 32 j) (BitVec.twoPow 32 k) s
        0 =
      List.zipWith masked
        (permChars perm (BitVec.twoPow 32 i) (BitVec.twoPow 32 j) (BitVec.twoPow 32 k) s 0)
        (permChars mask (BitVec.twoPow 32 i) (BitVec.twoPow 32 j) (BitVec.twoPow 32 k) s 0) := by
  have hspecial : special 0 = false := rfl
  simp only [permChars, hspecial, Bool.and_false, Bool.false_eq_true, if_false,
    List.zipWith_cons_cons, List.zipWith_nil_left, char_and_not hi 'r' (by decide),
    char_and_not hj 'w' (by decide), char_and_not hk 'x' (by decide)]

/-- **Masks.**  What a mask leaves of permissions is shown as they are, without the characters of
the mask. -/
theorem filePermStr_umask (perm mask : Mode) :
    filePermStr (perm &&& ~~~mask) 0 =
      List.zipWith masked (filePermStr perm 0) (filePermStr mask 0) := by
  have husr := permChars_umask (i := 8) (j := 7) (k := 6) (by decide) (by decide) (by decide)
    S_ISUID perm mask
  have hgrp := permChars_umask (i := 5) (j := 4) (k := 3) (by decide) (by decide) (by decide)
    S_ISGID perm mask
  have hoth := permChars_umask (i := 2) (j := 1) (k := 0) (by decide) (by decide) (by decide)
    S_ISVTX perm mask
  show permChars _ (BitVec.twoPow 32 8) (BitVec.twoPow 32 7) (BitVec.twoPow 32 6) _ _ ++
    permChars _ (BitVec.twoPow 32 5) (BitVec.twoPow 32 4) (BitVec.twoPow 32 3) _ _ ++
      permChars _ (BitVec.twoPow 32 2) (BitVec.twoPow 32 1) (BitVec.twoPow 32 0) _ _ = _
  rw [husr, hgrp, hoth]
  rfl

end FilePerms
end CodeStrudy
