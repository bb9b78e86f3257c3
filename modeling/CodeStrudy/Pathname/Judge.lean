import CodeStrudy.Foundation.CString
import CodeStrudy.Foundation.Separator

/-!
# Pathnames in a buffer of their own

`practice/31.2/main.c` gives each thread a buffer for the result of `myDirname` and one for that of
`myBasename`.  Both begin with `judgePath`, which copies the pathname to the buffer with every run
of slashes made one, and takes away the slash that is left at the end.

A run that would read or write outside of a buffer has no result here.

## What is proved

* `judgeLoop_eq`: what the loop of `judgePath` puts into a buffer.
* `judgePath_zeros`: what `judgePath` leaves in an empty buffer is the normal form of the pathname.
-/

namespace CodeStrudy
namespace Pathname

open Foundation

/-- The byte `/`. -/
def slash : UInt8 := 0x2f

/-- The byte `.`. -/
def dot : UInt8 := 0x2e

def BUF_LIZE : ℕ := 4096

/-- The buffers that a thread has, as far as it has allocated them. -/
structure Specific where
  dirBuf : Option (CharArray BUF_LIZE)
  baseBuf : Option (CharArray BUF_LIZE)

/-- What the functions return: the null pointer or the address of a buffer. -/
inductive Ptr where
  | null
  | dirBuf
  | baseBuf
  deriving DecidableEq

/-- The string at a pointer. -/
def Specific.str (t : Specific) : Ptr → Option (List UInt8)
  | .null => none
  | .dirBuf => t.dirBuf.map CharArray.str
  | .baseBuf => t.baseBuf.map CharArray.str

/-! ## `judgePath` -/

section

variable {n : ℕ}

/-- The loop over the pathname: how many bytes are in the buffer after it, and the buffer. -/
def judgeLoop : List UInt8 → Bool → ℕ → CharArray n → Option (ℕ × CharArray n)
  | [], _, i, tempTo => some (i, tempTo)
  | c :: tempFrom, flag, i, tempTo =>
    if c = slash ∧ flag then judgeLoop tempFrom flag i tempTo
    else if i < n then judgeLoop tempFrom (c = slash) (i + 1) (tempTo.set i c)
    else none

def judgePath (pathname : CStr) (buf : CharArray n) : Option (CharArray n) :=
  (judgeLoop pathname.chars false 0 buf).bind fun r =>
    if r.1 = 0 then none
    else if r.2.get (r.1 - 1) = slash then some (r.2.set (r.1 - 1) 0)
    else some r.2

/-- The loop puts the pathname, its runs made one, behind what is in the buffer, if there is room
for it. -/
theorem judgeLoop_eq (l : List UInt8) (flag : Bool) {i : ℕ} (hi : i ≤ n) (buf : CharArray n) :
    judgeLoop l flag i buf =
      if i + (squeezeFrom slash flag l).length ≤ n then
        some (i + (squeezeFrom slash flag l).length, buf.writeAt i (squeezeFrom slash flag l))
      else none := by
  induction l generalizing flag i buf with
  | nil =>
    rw [judgeLoop, squeezeFrom, List.length_nil, Nat.add_zero, if_pos hi, CharArray.writeAt_nil]
  | cons c l ih =>
    rw [judgeLoop, squeezeFrom]
    by_cases hskip : c = slash ∧ flag
    · rw [if_pos hskip, if_pos hskip]
      exact ih flag hi buf
    · rw [if_neg hskip, if_neg hskip, List.length_cons]
      by_cases hroom : i < n
      · have hroom' : i + 1 ≤ n := hroom
        rw [if_pos hroom, ih _ hroom', CharArray.writeAt_set hroom, Nat.add_assoc, Nat.add_comm 1]
      · rw [if_neg hroom, if_neg (by omega)]

/-- A pathname that is not empty keeps its last byte. -/
theorem exists_squeeze_eq {pathname : CStr} (hne : pathname.chars ≠ []) :
    ∃ w c, squeeze slash pathname.chars = w ++ [c] := by
  have hne' : squeeze slash pathname.chars ≠ [] := by
    intro h
    have hlast := getLast?_squeeze (a := slash) pathname.chars
    rw [h] at hlast
    exact hne (List.getLast?_eq_none_iff.mp hlast.symm)
  exact ⟨_, _, (List.dropLast_append_getLast hne').symm⟩

/-- **What `judgePath` makes of a pathname** whose bytes, the runs of slashes made one, fit into the
buffer: its normal form and zeros behind it, if there is room for one. -/
theorem exists_judgePath_zeros {pathname : CStr} (hne : pathname.chars ≠ [])
    (hlen : (squeeze slash pathname.chars).length ≤ n) :
    ∃ buf, judgePath pathname (CharArray.zeros n) = some buf ∧
      buf.bytes = normalForm slash pathname.chars ++
        List.replicate (n - (normalForm slash pathname.chars).length) 0 := by
  obtain ⟨w, c, hw⟩ := exists_squeeze_eq hne
  rw [hw, List.length_append, List.length_singleton] at hlen
  have hloop : judgeLoop pathname.chars false 0 (CharArray.zeros n) =
      some (w.length + 1, (CharArray.zeros n).write (w ++ [c])) := by
    have hfrom : squeezeFrom slash false pathname.chars = w ++ [c] := hw
    rw [judgeLoop_eq _ _ (Nat.zero_le n), hfrom, List.length_append, List.length_singleton,
      Nat.zero_add, if_pos hlen]
    rfl
  have hbytes : ((CharArray.zeros n).write (w ++ [c])).bytes =
      w ++ c :: List.replicate (n - (w.length + 1)) 0 := by
    rw [CharArray.bytes_write_zeros (by simpa using hlen), List.append_assoc,
      List.singleton_append, List.length_append, List.length_singleton]
  have hget : ((CharArray.zeros n).write (w ++ [c])).get w.length = c := by
    rw [CharArray.get, hbytes, List.getD_append_right _ _ _ _ (Nat.le_refl _), Nat.sub_self]
    rfl
  rw [judgePath, hloop, Option.bind_some, if_neg (Nat.succ_ne_zero _), Nat.add_sub_cancel, hget,
    normalForm, hw, List.getLast?_concat, List.dropLast_concat]
  by_cases hc : c = slash
  · -- the last slash is made zero
    refine ⟨_, if_pos hc, ?_⟩
    have hzeros : n - w.length = n - (w.length + 1) + 1 := by omega
    show ((CharArray.zeros n).write (w ++ [c])).bytes.set w.length 0 = _
    rw [if_pos (by rw [hc]), hbytes, List.set_append_right _ _ (Nat.le_refl _), Nat.sub_self,
      List.set_cons_zero, hzeros, List.replicate_succ]
  · refine ⟨_, if_neg hc, ?_⟩
    rw [if_neg fun h => hc (Option.some.inj h), hbytes, List.append_assoc, List.singleton_append,
      List.length_append, List.length_singleton]

/-- Otherwise it goes out of the buffer. -/
theorem judgePath_zeros_eq_none {pathname : CStr}
    (h : pathname.chars = [] ∨ n < (squeeze slash pathname.chars).length) :
    judgePath pathname (CharArray.zeros n) = none := by
  rw [judgePath, judgeLoop_eq _ _ (Nat.zero_le n), Nat.zero_add]
  rcases h with hnil | hlong
  · rw [hnil]
    rfl
  · have hlong' : ¬ (squeezeFrom slash false pathname.chars).length ≤ n := not_le.mpr hlong
    rw [if_neg hlong']
    rfl

/-- What it makes of a pathname that fits into the buffer. -/
theorem judgePath_zeros {pathname : CStr} (hne : pathname.chars ≠ [])
    (hlen : pathname.chars.length < n) :
    judgePath pathname (CharArray.zeros n) =
      some (CharArray.ofText n (normalForm slash pathname.chars)) := by
  have hle := (squeezeFrom_sublist (a := slash) false pathname.chars).length_le
  obtain ⟨buf, hbuf, hbytes⟩ := exists_judgePath_zeros hne (hle.trans hlen.le)
  have hlt := lt_of_le_of_lt (normalForm_sublist (a := slash) pathname.chars).length_le hlen
  rw [hbuf, CharArray.ext (hbytes.trans (CharArray.bytes_ofText hlt).symm)]

theorem length_normalForm_lt {l : List UInt8} (h : l.length < n) :
    (normalForm slash l).length < n :=
  lt_of_le_of_lt (normalForm_sublist l).length_le h

theorem zero_notMem_normalForm (p : CStr) : 0 ∉ normalForm slash p.chars :=
  fun h => p.zero_notMem ((normalForm_sublist p.chars).subset h)

theorem str_strcat_zeros {text : List UInt8} (hlen : text.length < n) (h : 0 ∉ text) :
    ((CharArray.zeros n).strcat text).str = text := by
  rw [CharArray.strcat_zeros hlen, CharArray.str_ofText_of_lt hlen h]

end

end Pathname
end CodeStrudy
