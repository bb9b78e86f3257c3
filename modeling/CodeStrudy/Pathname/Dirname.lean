import CodeStrudy.Pathname.Judge

/-!
# `myDirname`

`practice/31.2/main.c`: after `judgePath` a loop goes back from the end of the buffer, making every
byte zero, up to and including the first slash it meets.  The pathnames `/` and `..` are treated
apart, and for these the variable `len`, which nothing has set, is read after the loop.

## What is proved

* `dirnameStr_eq`: what the function returns: the part before the last slash of the normal form.
* `dirnameStr_eq_posixDirname_iff`: when that is the POSIX `dirname`.  It is not for a pathname in
  the root directory, for one of several slashes only, and for one whose directory part has a run of
  slashes, and for `/` and `..` it depends on what `len` holds.
-/

namespace CodeStrudy
namespace Pathname

open Foundation

/-! ## The function -/

/-- The loop that goes back from `len`, which is one less than the argument: the buffer when it
meets a slash, or nothing when it comes to the beginning. -/
def dirScan {n : ℕ} : ℕ → CharArray n → Option (CharArray n)
  | 0, _ => none
  | len + 1, buf =>
    if buf.get len = slash then some (buf.set len 0) else dirScan len (buf.set len 0)

/-- What follows the scan: `if (len < 0) { memset(buf, 0, BUF_LIZE); strcat(buf, "."); }` -/
def dirTail (len : ℤ) (buf : CharArray BUF_LIZE) (t : Specific) : Ptr × Specific :=
  (.dirBuf, { t with
    dirBuf := some (if len < 0 then (CharArray.zeros BUF_LIZE).strcat [dot] else buf) })

/-- `myDirname`.  `opens` gives the descriptor that `open` returns for a name, and `len` is what the
variable holds before it is set. -/
def myDirname (opens : List UInt8 → ℤ) (len : ℤ) (pathname : Option CStr) (t : Specific) :
    Option (Ptr × Specific) :=
  match pathname with
  | none => some (dirTail len ((CharArray.zeros BUF_LIZE).strcat [dot]) t)
  | some p =>
    if p.chars = [slash] then some (dirTail len ((CharArray.zeros BUF_LIZE).strcat [slash]) t)
    else if p.chars = [dot, dot] then
      some (dirTail len ((CharArray.zeros BUF_LIZE).strcat [dot, dot]) t)
    else
      (judgePath p (CharArray.zeros BUF_LIZE)).bind fun buf =>
        if opens buf.str = 0 then some (.null, { t with dirBuf := some buf })
        else
          (strlen? buf.bytes).map fun strlen =>
            match dirScan strlen buf with
            | some buf => (.dirBuf, { t with dirBuf := some buf })
            | none => dirTail (-1) buf t

/-- The string that `myDirname` returns for a pathname. -/
def dirnameStr (opens : List UInt8 → ℤ) (len : ℤ) (p : CStr) (t : Specific) :
    Option (List UInt8) :=
  (myDirname opens len (some p) t).bind fun r => r.2.str r.1

/-! ## What it should do -/

/-- The POSIX `dirname` of a pathname that is not empty. -/
def posixDirname (p : List UInt8) : List UInt8 :=
  if strip slash p = [] then [slash]
  else if slash ∉ strip slash p then [dot]
  else if initPart slash (strip slash p) = [] then [slash]
  else initPart slash (strip slash p)

/-! ## What it does -/

section Scan

variable {n : ℕ}

theorem dirScan_concat {w : List UInt8} (h : w.length + 1 < n) (c : UInt8) :
    dirScan (w ++ [c]).length (CharArray.ofText n (w ++ [c])) =
      if c = slash then some (CharArray.ofText n w)
      else dirScan w.length (CharArray.ofText n w) := by
  have hget : (CharArray.ofText n (w ++ [c])).get w.length = c :=
    CharArray.get_ofText (v := []) (by simpa using h)
  rw [List.length_append, List.length_singleton, dirScan, hget, CharArray.set_ofText_concat h]

theorem dirScan_of_notMem {w : List UInt8} (hlen : w.length < n) (h : slash ∉ w) :
    dirScan w.length (CharArray.ofText n w) = none := by
  induction w using List.reverseRecOn with
  | nil => rfl
  | append_singleton w c ih =>
    rw [List.length_append, List.length_singleton] at hlen
    have hc : c ≠ slash := fun hc => h (by simp [hc])
    rw [dirScan_concat hlen, if_neg hc]
    exact ih (by omega) fun hmem => h (List.mem_append_left _ hmem)

/-- The scan stops at the last slash. -/
theorem dirScan_append_cons {u v : List UInt8} (hlen : (u ++ slash :: v).length < n)
    (hv : slash ∉ v) :
    dirScan (u ++ slash :: v).length (CharArray.ofText n (u ++ slash :: v)) =
      some (CharArray.ofText n u) := by
  induction v using List.reverseRecOn with
  | nil => rw [dirScan_concat (by simpa using hlen), if_pos rfl]
  | append_singleton v c ih =>
    have hc : c ≠ slash := fun hc => hv (by simp [hc])
    rw [← List.cons_append, ← List.append_assoc] at hlen ⊢
    rw [List.length_append, List.length_singleton] at hlen
    rw [dirScan_concat hlen, if_neg hc]
    exact ih (by omega) fun hmem => hv (List.mem_append_left _ hmem)

end Scan

section

variable {opens : List UInt8 → ℤ} {p : CStr}

/-- **What `myDirname` returns** for a pathname that is not treated apart. -/
theorem dirnameStr_eq (hopens : ∀ s, opens s ≠ 0) (hne : p.chars ≠ [])
    (hlen : p.chars.length < BUF_LIZE) (hslash : p.chars ≠ [slash])
    (hdots : p.chars ≠ [dot, dot]) (len : ℤ) (t : Specific) :
    dirnameStr opens len p t = some (if slash ∈ strip slash p.chars then
      squeeze slash (initPart slash (strip slash p.chars)) else [dot]) := by
  have hlt := length_normalForm_lt hlen
  have hzero := zero_notMem_normalForm p
  unfold dirnameStr myDirname
  simp only
  rw [if_neg hslash, if_neg hdots, judgePath_zeros hne hlen, Option.bind_some, if_neg (hopens _),
    CharArray.strlen?_ofText hlt hzero, Option.map_some, Option.bind_some]
  by_cases hmem : slash ∈ strip slash p.chars
  · have hnormal := normalForm_of_mem hmem
    rw [hnormal] at hlt hzero
    have hinit : (squeeze slash (initPart slash (strip slash p.chars))).length < BUF_LIZE := by
      rw [List.length_append] at hlt
      omega
    rw [if_pos hmem, hnormal, dirScan_append_cons hlt (notMem_lastPart _)]
    show some (CharArray.ofText BUF_LIZE _).str = _
    rw [CharArray.str_ofText_of_lt hinit fun h => hzero (List.mem_append_left _ h)]
  · have hnormal := normalForm_of_notMem hmem
    rw [hnormal] at hlt
    rw [if_neg hmem, hnormal, dirScan_of_notMem hlt hmem]
    show some ((CharArray.zeros BUF_LIZE).strcat [dot]).str = _
    rw [str_strcat_zeros (by decide) (by decide)]

/-- For `/` it depends on what `len` holds. -/
theorem dirnameStr_slash (hp : p.chars = [slash]) (len : ℤ) (t : Specific) :
    dirnameStr opens len p t = some (if len < 0 then [dot] else [slash]) := by
  unfold dirnameStr myDirname
  simp only
  rw [if_pos hp, Option.bind_some]
  show some (CharArray.str (if len < 0 then _ else _)) = _
  rw [apply_ite CharArray.str, str_strcat_zeros (by decide) (by decide),
    str_strcat_zeros (by decide) (by decide)]

/-- For `..` it depends on what `len` holds. -/
theorem dirnameStr_dots (hp : p.chars = [dot, dot]) (len : ℤ) (t : Specific) :
    dirnameStr opens len p t = some (if len < 0 then [dot] else [dot, dot]) := by
  unfold dirnameStr myDirname
  simp only
  rw [if_neg (by rw [hp]; decide), if_pos hp, Option.bind_some]
  show some (CharArray.str (if len < 0 then _ else _)) = _
  rw [apply_ite CharArray.str, str_strcat_zeros (by decide) (by decide),
    str_strcat_zeros (by decide) (by decide)]

/-! ## When it does what it should -/

/-- For `/` the variable `len` holds no negative number, and for `..` it does; any other pathname is
not slashes only, and if it has a directory part, that is not the root directory and has no run of
slashes. -/
def DirnameWorks (len : ℤ) (p : List UInt8) : Prop :=
  if p = [slash] then 0 ≤ len
  else if p = [dot, dot] then len < 0
  else strip slash p ≠ [] ∧ (slash ∈ strip slash p →
    initPart slash (strip slash p) ≠ [] ∧
      ¬ [slash, slash] <:+: initPart slash (strip slash p))

instance (len : ℤ) (p : List UInt8) : Decidable (DirnameWorks len p) := by
  unfold DirnameWorks
  infer_instance

/-- **When `myDirname` returns the POSIX `dirname`.** -/
theorem dirnameStr_eq_posixDirname_iff (opens : List UInt8 → ℤ) (hopens : ∀ s, opens s ≠ 0)
    (p : CStr) (hne : p.chars ≠ []) (hlen : p.chars.length < BUF_LIZE) (len : ℤ)
    (t : Specific) :
    dirnameStr opens len p t = some (posixDirname p.chars) ↔ DirnameWorks len p.chars := by
  unfold DirnameWorks
  by_cases hslash : p.chars = [slash]
  · have hposix : posixDirname p.chars = [slash] := by rw [hslash]; decide
    rw [if_pos hslash, dirnameStr_slash hslash, hposix, Option.some_inj]
    by_cases hneg : len < 0
    · rw [if_pos hneg]
      exact iff_of_false (by decide) (by omega)
    · rw [if_neg hneg]
      exact iff_of_true rfl (by omega)
  rw [if_neg hslash]
  by_cases hdots : p.chars = [dot, dot]
  · have hposix : posixDirname p.chars = [dot] := by rw [hdots]; decide
    rw [if_pos hdots, dirnameStr_dots hdots, hposix, Option.some_inj]
    by_cases hneg : len < 0
    · rw [if_pos hneg]
      exact iff_of_true rfl hneg
    · rw [if_neg hneg]
      exact iff_of_false (by decide) hneg
  rw [if_neg hdots, dirnameStr_eq hopens hne hlen hslash hdots, Option.some_inj, posixDirname]
  by_cases hnil : strip slash p.chars = []
  · -- slashes only
    rw [if_pos hnil, hnil]
    exact iff_of_false (by decide) fun h => h.1 rfl
  rw [if_neg hnil]
  by_cases hmem : slash ∈ strip slash p.chars
  · rw [if_pos hmem, if_neg (not_not_intro hmem)]
    by_cases hroot : initPart slash (strip slash p.chars) = []
    · rw [if_pos hroot, hroot]
      exact iff_of_false (by decide) fun h => (h.2 hmem).1 rfl
    · rw [if_neg hroot, squeeze_eq_self_iff]
      exact ⟨fun h => ⟨hnil, fun _ => ⟨hroot, h⟩⟩, fun h => (h.2 hmem).2⟩
  · rw [if_neg hmem, if_pos hmem]
    exact iff_of_true rfl ⟨hnil, fun h => absurd h hmem⟩

/-- For `a/b` it is `a`. -/
theorem dirname_relative : dirnameStr (fun _ => 3) 0 ⟨[0x61, slash, 0x62], by decide⟩ ⟨none, none⟩ =
    some (posixDirname [0x61, slash, 0x62]) :=
  (dirnameStr_eq_posixDirname_iff (fun _ => 3) (fun _ => by decide) ⟨[0x61, slash, 0x62], by decide⟩
    (by decide) (by decide) 0 ⟨none, none⟩).mpr (by decide)

/-- For `/a` it is not the root directory but the empty string. -/
theorem not_dirname : ¬ ∀ (opens : List UInt8 → ℤ), (∀ s, opens s ≠ 0) → ∀ p : CStr,
    p.chars ≠ [] → p.chars.length < BUF_LIZE → ∀ (len : ℤ) (t : Specific),
      dirnameStr opens len p t = some (posixDirname p.chars) := by
  intro h
  have hroot := h (fun _ => 3) (fun _ => by decide) ⟨[slash, 0x61], by decide⟩ (by decide)
    (by decide) 0 ⟨none, none⟩
  rw [dirnameStr_eq (fun _ => by decide) (by decide) (by decide) (by decide) (by decide)] at hroot
  revert hroot
  decide

end

end Pathname
end CodeStrudy
