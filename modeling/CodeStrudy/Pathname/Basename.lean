import CodeStrudy.Pathname.Dirname

/-!
# `myBasename`

`practice/31.2/main.c`: after `judgePath` a loop looks for the last slash in the buffer, and what
stands behind it is copied to the beginning with `strcpy`.  When the last component is longer than
what stands before it, the two ends of this copy overlap, and what `strcpy` does is undefined: such
a run has no result here.  When there is no slash, the pathname is copied to the buffer as it was
given, with the slashes that `judgePath` took away.

## What is proved

* `basenameStr_eq`: what the function returns.
* `basenameStr_eq_posixBasename_iff`: when that is the POSIX `basename`.  It is not for one
  component with slashes behind it, for a pathname of several slashes only, and where the copy
  overlaps.
* `split_rejoin_iff`: when what the two functions return of a pathname with a directory part, with a
  slash between, is its normal form.
-/

namespace CodeStrudy
namespace Pathname

open Foundation

/-! ## The function -/

/-- The loop that looks for the last slash: its index, if there is one. -/
def baseScan {n : ℕ} : ℕ → CharArray n → Option ℕ
  | 0, _ => none
  | len + 1, buf => if buf.get len = slash then some len else baseScan len buf

/-- `strcpy(buf, temp)` with `temp` in the same buffer: undefined if the copy, its zero byte
included, reaches to where the string begins. -/
def strcpyWithin {n : ℕ} (buf : CharArray n) (temp : ℕ) : Option (CharArray n) :=
  let src := cstr (buf.bytes.drop temp)
  if src.length < temp then some (buf.write (src ++ [0])) else none

/-- `myBasename`.  `opens` gives the descriptor that `open` returns for a name. -/
def myBasename (opens : List UInt8 → ℤ) (p : CStr) (t : Specific) : Option (Ptr × Specific) :=
  if p.chars = [slash] then
    some (.baseBuf, { t with baseBuf := some ((CharArray.zeros BUF_LIZE).strcat [slash]) })
  else if p.chars = [dot, dot] then
    some (.baseBuf, { t with baseBuf := some ((CharArray.zeros BUF_LIZE).strcat [dot, dot]) })
  else if p.chars = [dot] then
    some (.baseBuf, { t with baseBuf := some ((CharArray.zeros BUF_LIZE).strcat [dot]) })
  else
    (judgePath p (CharArray.zeros BUF_LIZE)).bind fun buf =>
      if opens buf.str = 0 then some (.null, { t with baseBuf := some buf })
      else
        (strlen? buf.bytes).bind fun strlen =>
          match baseScan strlen buf with
          | none =>
            some (.baseBuf, { t with baseBuf := some ((CharArray.zeros BUF_LIZE).strcat p.chars) })
          | some len =>
            (strcpyWithin buf (len + 1)).map fun buf => (.baseBuf, { t with baseBuf := some buf })

/-- The string that `myBasename` returns for a pathname. -/
def basenameStr (opens : List UInt8 → ℤ) (p : CStr) (t : Specific) : Option (List UInt8) :=
  (myBasename opens p t).bind fun r => r.2.str r.1

/-! ## What it should do -/

/-- The POSIX `basename` of a pathname that is not empty. -/
def posixBasename (p : List UInt8) : List UInt8 :=
  if strip slash p = [] then [slash] else lastPart slash (strip slash p)

/-! ## What it does -/

section Scan

variable {n : ℕ}

/-- One step of the scan, in a buffer that holds more behind what has still to be looked at. -/
theorem baseScan_concat {w rest : List UInt8} {c : UInt8} (h : (w ++ c :: rest).length < n) :
    baseScan (w ++ [c]).length (CharArray.ofText n (w ++ c :: rest)) =
      if c = slash then some w.length
      else baseScan w.length (CharArray.ofText n (w ++ c :: rest)) := by
  rw [List.length_append, List.length_singleton, baseScan, CharArray.get_ofText h]

theorem baseScan_of_notMem {w : List UInt8} (rest : List UInt8) (hlen : (w ++ rest).length < n)
    (h : slash ∉ w) : baseScan w.length (CharArray.ofText n (w ++ rest)) = none := by
  induction w using List.reverseRecOn generalizing rest with
  | nil => rfl
  | append_singleton w c ih =>
    have hc : c ≠ slash := fun hc => h (by simp [hc])
    rw [List.append_assoc, List.singleton_append] at hlen ⊢
    rw [baseScan_concat hlen, if_neg hc]
    exact ih _ hlen fun hmem => h (List.mem_append_left _ hmem)

/-- The scan stops at the last slash. -/
theorem baseScan_append_cons {u v : List UInt8} (rest : List UInt8)
    (hlen : (u ++ slash :: v ++ rest).length < n) (hv : slash ∉ v) :
    baseScan (u ++ slash :: v).length (CharArray.ofText n (u ++ slash :: v ++ rest)) =
      some u.length := by
  induction v using List.reverseRecOn generalizing rest with
  | nil =>
    rw [List.append_assoc, List.singleton_append] at hlen ⊢
    rw [baseScan_concat hlen, if_pos rfl]
  | append_singleton v c ih =>
    have hc : c ≠ slash := fun hc => hv (by simp [hc])
    rw [← List.cons_append, ← List.append_assoc] at hlen ⊢
    rw [List.append_assoc _ [c], List.singleton_append] at hlen ⊢
    rw [baseScan_concat hlen, if_neg hc]
    exact ih _ hlen fun hmem => hv (List.mem_append_left _ hmem)

/-- What is copied within the buffer is what stands behind the slash, if the copy ends before it. -/
theorem str_strcpyWithin {u v : List UInt8} {c : UInt8} (hlen : (u ++ c :: v).length < n)
    (h : 0 ∉ v) :
    (strcpyWithin (CharArray.ofText n (u ++ c :: v)) (u.length + 1)).map CharArray.str =
      if v.length ≤ u.length then some v else none := by
  obtain ⟨k, hk⟩ : ∃ k, n - (u ++ c :: v).length = k + 1 := ⟨n - (u ++ c :: v).length - 1, by omega⟩
  have hdrop : (CharArray.ofText n (u ++ c :: v)).bytes.drop (u.length + 1) =
      v ++ 0 :: List.replicate k 0 := by
    rw [CharArray.bytes_ofText hlen, hk, List.replicate_succ, List.append_assoc, List.cons_append,
      List.drop_length_add_append]
    rfl
  have hfits : (v ++ [0]).length ≤ n := by
    rw [List.length_append, List.length_cons] at hlen
    rw [List.length_append, List.length_singleton]
    omega
  have hstr : ((CharArray.ofText n (u ++ c :: v)).write (v ++ [0])).str = v := by
    rw [CharArray.str, CharArray.bytes_write hfits, List.append_assoc, List.singleton_append,
      cstr_append_zero h]
  simp only [strcpyWithin, hdrop, cstr_append_zero h, Nat.lt_succ_iff]
  split
  · exact congrArg some hstr
  · rfl

end Scan

section

variable {opens : List UInt8 → ℤ} {p : CStr}

/-- The last component is longer than what the normal form has before the slash. -/
def Overlaps (p : List UInt8) : Prop :=
  (squeeze slash (initPart slash (strip slash p))).length < (lastPart slash (strip slash p)).length

instance (p : List UInt8) : Decidable (Overlaps p) := Nat.decLt _ _

/-- **What `myBasename` returns.** -/
theorem basenameStr_eq (hopens : ∀ s, opens s ≠ 0) (hne : p.chars ≠ [])
    (hlen : p.chars.length < BUF_LIZE) (t : Specific) :
    basenameStr opens p t =
      if slash ∈ strip slash p.chars then
        if Overlaps p.chars then none else some (lastPart slash (strip slash p.chars))
      else some p.chars := by
  unfold basenameStr myBasename
  by_cases hslash : p.chars = [slash]
  · rw [if_pos hslash, hslash, if_neg (by decide)]
    exact congrArg some (str_strcat_zeros (by decide) (by decide))
  rw [if_neg hslash]
  by_cases hdots : p.chars = [dot, dot]
  · rw [if_pos hdots, hdots, if_neg (by decide)]
    exact congrArg some (str_strcat_zeros (by decide) (by decide))
  rw [if_neg hdots]
  by_cases hdot : p.chars = [dot]
  · rw [if_pos hdot, hdot, if_neg (by decide)]
    exact congrArg some (str_strcat_zeros (by decide) (by decide))
  have hlt := length_normalForm_lt hlen
  have hzero := zero_notMem_normalForm p
  rw [if_neg hdot, judgePath_zeros hne hlen, Option.bind_some, if_neg (hopens _),
    CharArray.strlen?_ofText hlt hzero, Option.bind_some]
  by_cases hmem : slash ∈ strip slash p.chars
  · have hnormal := normalForm_of_mem hmem
    rw [hnormal] at hlt hzero
    have hscan := baseScan_append_cons [] (by rwa [List.append_nil])
      (notMem_lastPart (a := slash) (strip slash p.chars))
    rw [List.append_nil] at hscan
    have hcopy := str_strcpyWithin hlt fun h =>
      hzero (List.mem_append_right _ (List.mem_cons_of_mem _ h))
    rw [if_pos hmem, hnormal, hscan]
    show ((strcpyWithin _ _).map _).bind _ = _
    rw [Option.bind_map]
    refine Option.map_eq_bind.symm.trans (hcopy.trans ?_)
    by_cases hover : Overlaps p.chars
    · rw [if_pos hover, if_neg (Nat.not_le.mpr hover)]
    · rw [if_neg hover, if_pos (Nat.le_of_not_lt hover)]
  · have hnormal := normalForm_of_notMem hmem
    rw [hnormal] at hlt
    have hscan := baseScan_of_notMem [] (by rwa [List.append_nil]) hmem
    rw [List.append_nil] at hscan
    rw [if_neg hmem, hnormal, hscan]
    exact congrArg some (str_strcat_zeros hlen p.zero_notMem)

/-! ## When it does what it should -/

/-- A pathname with a slash before its trailing ones is no other one that has none there. -/
theorem ne_of_mem_strip {l l' : List UInt8} (hmem : slash ∈ strip slash l)
    (h : slash ∉ strip slash l') : l ≠ l' := by
  rintro rfl
  exact h hmem

/-- **When `myBasename` returns the POSIX `basename`.** The pathname is `/`, or has no slash, or has
one before its last component, which is not longer than what the normal form has before it. -/
theorem basenameStr_eq_posixBasename_iff (opens : List UInt8 → ℤ) (hopens : ∀ s, opens s ≠ 0)
    (p : CStr) (hne : p.chars ≠ []) (hlen : p.chars.length < BUF_LIZE) (t : Specific) :
    basenameStr opens p t = some (posixBasename p.chars) ↔
      p.chars = [slash] ∨ slash ∉ p.chars ∨
        slash ∈ strip slash p.chars ∧ ¬ Overlaps p.chars := by
  rw [basenameStr_eq hopens hne hlen, posixBasename]
  by_cases hmem : slash ∈ strip slash p.chars
  · have hroot : p.chars ≠ [slash] := ne_of_mem_strip hmem (by decide)
    have hin : slash ∈ p.chars := (List.rdropWhile_prefix _ p.chars).subset hmem
    rw [if_pos hmem, if_neg (List.ne_nil_of_mem hmem), or_iff_right hroot,
      or_iff_right (not_not_intro hin), and_iff_right hmem]
    by_cases hover : Overlaps p.chars
    · rw [if_pos hover]
      exact iff_of_false (fun h => by cases h) (not_not_intro hover)
    · rw [if_neg hover]
      exact iff_of_true rfl hover
  rw [if_neg hmem, lastPart_of_notMem hmem, Option.some_inj,
    or_iff_left (b := _ ∧ _) fun h => hmem h.1]
  by_cases hnil : strip slash p.chars = []
  · -- slashes only
    have hall := strip_eq_nil_iff.mp hnil
    have hin : slash ∈ p.chars := by
      obtain ⟨c, hc⟩ := List.exists_mem_of_ne_nil _ hne
      exact hall c hc ▸ hc
    rw [if_pos hnil, or_iff_left (not_not_intro hin)]
  · rw [if_neg hnil]
    constructor
    · exact fun h => Or.inr (h ▸ hmem)
    · rintro (h | h)
      · rw [h] at hnil
        exact absurd (by decide) hnil
      · exact (strip_of_notMem h).symm

/-- For `a/b`, where both components have one byte, it is `b`. -/
theorem basename_relative : basenameStr (fun _ => 3) ⟨[0x61, slash, 0x62], by decide⟩ ⟨none, none⟩ =
    some (posixBasename [0x61, slash, 0x62]) :=
  (basenameStr_eq_posixBasename_iff (fun _ => 3) (fun _ => by decide)
    ⟨[0x61, slash, 0x62], by decide⟩ (by decide) (by decide) ⟨none, none⟩).mpr (by decide)

/-- For `a/` it is not `a` but `a/`. -/
theorem not_basename : ¬ ∀ (opens : List UInt8 → ℤ), (∀ s, opens s ≠ 0) → ∀ p : CStr,
    p.chars ≠ [] → p.chars.length < BUF_LIZE → ∀ t : Specific,
      basenameStr opens p t = some (posixBasename p.chars) := by
  intro h
  have htrailing := h (fun _ => 3) (fun _ => by decide) ⟨[0x61, slash], by decide⟩ (by decide)
    (by decide) ⟨none, none⟩
  rw [basenameStr_eq (fun _ => by decide) (by decide) (by decide)] at htrailing
  revert htrailing
  decide

/-! ## The two functions together -/

/-- `myBasename` leaves the buffer of `myDirname`. -/
theorem dirBuf_myBasename {t t' : Specific} {q : Ptr} (h : myBasename opens p t = some (q, t')) :
    t'.dirBuf = t.dirBuf := by
  unfold myBasename at h
  split_ifs at h
  · cases h
    rfl
  · cases h
    rfl
  · cases h
    rfl
  · obtain ⟨buf, -, h⟩ := Option.bind_eq_some_iff.mp h
    split at h
    · cases h
      rfl
    · obtain ⟨strlen, -, h⟩ := Option.bind_eq_some_iff.mp h
      split at h
      · cases h
        rfl
      · obtain ⟨buf', -, h⟩ := Option.map_eq_some_iff.mp h
        cases h
        rfl

theorem ptr_myDirname {pathname : Option CStr} {len : ℤ} {t t' : Specific} {q : Ptr}
    (h : myDirname opens len pathname t = some (q, t')) : q ≠ .baseBuf := by
  unfold myDirname at h
  cases pathname with
  | none =>
    cases h
    exact Ptr.noConfusion
  | some p =>
    simp only at h
    split_ifs at h
    · cases h
      exact Ptr.noConfusion
    · cases h
      exact Ptr.noConfusion
    · obtain ⟨buf, -, h⟩ := Option.bind_eq_some_iff.mp h
      split at h
      · cases h
        exact Ptr.noConfusion
      · obtain ⟨strlen, -, h⟩ := Option.map_eq_some_iff.mp h
        split at h <;> cases h <;> exact Ptr.noConfusion

/-- **Splitting and rejoining.**  For a pathname whose normal form has a slash, the strings that the
two functions return, read after both calls, make the normal form with a slash between, and the
second has no slash, exactly if the last component is not longer than what the normal form has
before it. -/
theorem split_rejoin_iff (opens : List UInt8 → ℤ) (hopens : ∀ s, opens s ≠ 0) (p : CStr)
    (hlen : p.chars.length < BUF_LIZE) (hslash : slash ∈ normalForm slash p.chars) (len : ℤ)
    (t : Specific) :
    (∃ q q' t₁ t₂ d b, myDirname opens len (some p) t = some (q, t₁) ∧
      myBasename opens p t₁ = some (q', t₂) ∧ t₂.str q = some d ∧ t₂.str q' = some b ∧
        d ++ slash :: b = normalForm slash p.chars ∧ slash ∉ b) ↔ ¬ Overlaps p.chars := by
  have hmem : slash ∈ strip slash p.chars := by
    rw [normalForm_eq_squeeze_strip] at hslash
    exact (squeezeFrom_sublist false _).subset hslash
  have hne : p.chars ≠ [] := ne_of_mem_strip hmem (by decide)
  have hroot : p.chars ≠ [slash] := ne_of_mem_strip hmem (by decide)
  have hdots : p.chars ≠ [dot, dot] := ne_of_mem_strip hmem (by decide)
  have hbase := basenameStr_eq hopens hne hlen
  simp only [if_pos hmem] at hbase
  constructor
  · rintro ⟨q, q', t₁, t₂, d, b, -, hcall', -, hb, -, -⟩ hover
    have hnone := hbase t₁
    rw [if_pos hover, basenameStr, hcall', Option.bind_some, hb] at hnone
    cases hnone
  · intro hover
    have hdir := dirnameStr_eq hopens hne hlen hroot hdots len t
    rw [if_pos hmem] at hdir
    obtain ⟨⟨q, t₁⟩, hcall, hd⟩ := Option.bind_eq_some_iff.mp hdir
    have hbase' := hbase t₁
    rw [if_neg hover] at hbase'
    obtain ⟨⟨q', t₂⟩, hcall', hb⟩ := Option.bind_eq_some_iff.mp hbase'
    refine ⟨q, q', t₁, t₂, _, _, hcall, hcall', ?_, hb, (normalForm_of_mem hmem).symm,
      notMem_lastPart _⟩
    cases q with
    | null => cases hd
    | dirBuf =>
      show t₂.dirBuf.map _ = _
      rw [dirBuf_myBasename hcall']
      exact hd
    | baseBuf => exact absurd rfl (ptr_myDirname hcall)

/-- `a//b/` is `a` and `b`, and with a slash between `a/b`. -/
theorem split_rejoin_relative : ∃ q q' t₁ t₂ d b,
    myDirname (fun _ => 3) 0 (some ⟨[0x61, slash, slash, 0x62, slash], by decide⟩) ⟨none, none⟩ =
        some (q, t₁) ∧
      myBasename (fun _ => 3) ⟨[0x61, slash, slash, 0x62, slash], by decide⟩ t₁ = some (q', t₂) ∧
        t₂.str q = some d ∧ t₂.str q' = some b ∧
          d ++ slash :: b = normalForm slash [0x61, slash, slash, 0x62, slash] ∧ slash ∉ b :=
  (split_rejoin_iff (fun _ => 3) (fun _ => by decide)
    ⟨[0x61, slash, slash, 0x62, slash], by decide⟩ (by decide) (by decide) 0 ⟨none, none⟩).mpr
    (by decide)

/-- A slash and 32 different characters. -/
def longName : CStr := ⟨slash :: (List.range 32).map fun k => (0x41 + k).toUInt8, by decide⟩

/-- For these the copy to the beginning overlaps. -/
theorem not_split_rejoin : ¬ ∀ (opens : List UInt8 → ℤ), (∀ s, opens s ≠ 0) → ∀ p : CStr,
    p.chars.length < BUF_LIZE → slash ∈ normalForm slash p.chars → ∀ (len : ℤ) (t : Specific),
      ∃ q q' t₁ t₂ d b, myDirname opens len (some p) t = some (q, t₁) ∧
        myBasename opens p t₁ = some (q', t₂) ∧ t₂.str q = some d ∧ t₂.str q' = some b ∧
          d ++ slash :: b = normalForm slash p.chars ∧ slash ∉ b := by
  intro h
  obtain ⟨q, q', t₁, t₂, d, b, -, hcall', -, hb, -, -⟩ :=
    h (fun _ => 3) (fun _ => by decide) longName (by decide) (by decide) 0 ⟨none, none⟩
  have hnone :=
    @basenameStr_eq (fun _ => 3) longName (fun _ => by decide) (by decide) (by decide) t₁
  rw [if_pos (by decide), if_pos (by decide), basenameStr, hcall', Option.bind_some, hb] at hnone
  cases hnone

end

end Pathname
end CodeStrudy
