import CodeStrudy.Pathname.Dirname

/-!
# The bounds of the buffer

`judgePath` stores a byte for each pass of its loop that does not skip a slash, and behind the loop
it looks at the byte before the next one.  Neither is checked against the size of the buffer, and
for an empty pathname there is no byte before.

## What is proved

* `indices_inRange_iff`: when the indices are in the buffer, and that `judgePath` has a result then.
* `judgePath_safe_iff`: when the buffer also has a zero byte afterwards.
* `myDirname_ne_none_iff`: what that means for a caller.
-/

namespace CodeStrudy
namespace Pathname

open Foundation

/-- The indices that the loop stores at. -/
def loopIndices : List UInt8 → Bool → ℕ → List ℕ
  | [], _, _ => []
  | c :: tempFrom, flag, i =>
    if c = slash ∧ flag then loopIndices tempFrom flag i
    else i :: loopIndices tempFrom (c = slash) (i + 1)

/-- The indices of the buffer that `judgePath` reads or writes: those of the loop, and `i - 1`, with
`i` the number of passes that have stored a byte. -/
def indices (pathname : CStr) : List ℤ :=
  let loop := loopIndices pathname.chars false 0
  loop.map (fun i : ℕ => (i : ℤ)) ++ [(loop.length : ℤ) - 1]

/-- Every index is in the buffer of the callers, which is filled with zeros, and there is a zero
byte in the buffer afterwards. -/
def Safe (pathname : CStr) : Prop :=
  (∀ k ∈ indices pathname, 0 ≤ k ∧ k < BUF_LIZE) ∧
    ∃ buf, judgePath pathname (CharArray.zeros BUF_LIZE) = some buf ∧ 0 ∈ buf.bytes

theorem loopIndices_eq (l : List UInt8) (flag : Bool) (i : ℕ) :
    loopIndices l flag i = List.range' i (squeezeFrom slash flag l).length := by
  induction l generalizing flag i with
  | nil => rfl
  | cons c l ih =>
    rw [loopIndices, squeezeFrom]
    split
    · exact ih flag i
    · rw [ih, List.length_cons, List.range'_succ]

theorem length_squeeze_pos_iff (pathname : CStr) :
    0 < (squeeze slash pathname.chars).length ↔ pathname.chars ≠ [] := by
  constructor
  · intro hpos hnil
    rw [hnil] at hpos
    exact absurd hpos (Nat.lt_irrefl 0)
  · intro hne
    obtain ⟨w, c, hw⟩ := exists_squeeze_eq hne
    rw [hw, List.length_append, List.length_singleton]
    exact Nat.succ_pos _

/-- The indices are in the buffer exactly if there is something to store and room for it. -/
theorem indices_inRange_iff (pathname : CStr) (n : ℕ) :
    (∀ k ∈ indices pathname, 0 ≤ k ∧ k < (n : ℤ)) ↔
      pathname.chars ≠ [] ∧ (squeeze slash pathname.chars).length ≤ n := by
  have hlength : (loopIndices pathname.chars false 0).length =
      (squeeze slash pathname.chars).length := by
    rw [loopIndices_eq, List.length_range']
    rfl
  rw [← length_squeeze_pos_iff]
  constructor
  · intro h
    have hlast := h _ (List.mem_append_right _ (List.mem_singleton_self _))
    rw [hlength] at hlast
    omega
  · rintro ⟨hpos, hle⟩ k hk
    rcases List.mem_append.mp hk with hloop | hlast
    · obtain ⟨i, hi, rfl⟩ := List.mem_map.mp hloop
      rw [loopIndices_eq, List.mem_range'_1] at hi
      have hlt : i < (squeeze slash pathname.chars).length := by
        have h := hi.2
        rwa [Nat.zero_add] at h
      omega
    · rw [List.mem_singleton.mp hlast, hlength]
      omega

/-- There is a zero byte behind the normal form if there is room for it. -/
theorem zero_mem_iff {n : ℕ} {pathname : CStr} {buf : CharArray n}
    (h : buf.bytes = normalForm slash pathname.chars ++
      List.replicate (n - (normalForm slash pathname.chars).length) 0) :
    0 ∈ buf.bytes ↔ (normalForm slash pathname.chars).length < n := by
  rw [h, List.mem_append, or_iff_right (zero_notMem_normalForm pathname), List.mem_replicate,
    and_iff_left rfl]
  omega

/-- The result of `judgePath` is enough: where it has one, the indices are in the buffer. -/
theorem safe_iff_exists (pathname : CStr) : Safe pathname ↔
    ∃ buf, judgePath pathname (CharArray.zeros BUF_LIZE) = some buf ∧ 0 ∈ buf.bytes := by
  refine and_iff_right_of_imp ?_
  rintro ⟨buf, hbuf, -⟩
  rw [indices_inRange_iff]
  by_contra hnot
  rw [not_and_or, not_not, not_le] at hnot
  rw [judgePath_zeros_eq_none hnot] at hbuf
  cases hbuf

/-- **The bounds of the buffer.**  Every index is in the buffer and a zero byte is left exactly if
the pathname is not empty and, without the slashes at its end and those behind another slash, it is
shorter than the buffer. -/
theorem judgePath_safe_iff (pathname : CStr) : Safe pathname ↔
    pathname.chars ≠ [] ∧ (strip slash pathname.chars).length <
      BUF_LIZE + doubled slash (strip slash pathname.chars) := by
  have hlength := length_squeeze_add_doubled (a := slash) (strip slash pathname.chars)
  rw [← normalForm_eq_squeeze_strip] at hlength
  constructor
  · rintro ⟨hindices, buf, hbuf, hzero⟩
    obtain ⟨hne, hle⟩ := (indices_inRange_iff pathname BUF_LIZE).mp hindices
    obtain ⟨buf', hbuf', hbytes⟩ := exists_judgePath_zeros hne hle
    obtain rfl := Option.some.inj (hbuf.symm.trans hbuf')
    have hlt := (zero_mem_iff hbytes).mp hzero
    exact ⟨hne, by omega⟩
  · rintro ⟨hne, hlt⟩
    have hsqueeze : (squeeze slash pathname.chars).length ≤
        (normalForm slash pathname.chars).length + 1 := by
      unfold normalForm
      split
      · rw [List.length_dropLast]
        omega
      · exact Nat.le_succ _
    obtain ⟨buf, hbuf, hbytes⟩ := exists_judgePath_zeros (n := BUF_LIZE) hne (by omega)
    exact (safe_iff_exists pathname).mpr ⟨buf, hbuf, (zero_mem_iff hbytes).mpr (by omega)⟩

/-- The empty pathname: the byte before the buffer is read. -/
theorem not_judgePath_safe : ¬ ∀ pathname : CStr, Safe pathname := by
  intro h
  have hbefore := (h ⟨[], List.not_mem_nil⟩).1 (-1) (List.mem_singleton.mpr rfl)
  exact absurd hbefore.1 (by decide)

/-! ## A caller -/

/-- A call of `myDirname` has a result exactly if it does not come to `judgePath`, or that is safe:
what follows needs the zero byte. -/
theorem myDirname_ne_none_iff {opens : List UInt8 → ℤ} (hopens : ∀ s, opens s ≠ 0) (len : ℤ)
    (p : CStr) (t : Specific) : myDirname opens len (some p) t ≠ none ↔
      p.chars = [slash] ∨ p.chars = [dot, dot] ∨ Safe p := by
  unfold myDirname
  dsimp only
  by_cases hslash : p.chars = [slash]
  · rw [if_pos hslash]
    exact iff_of_true (Option.some_ne_none _) (.inl hslash)
  rw [if_neg hslash, or_iff_right hslash]
  by_cases hdots : p.chars = [dot, dot]
  · rw [if_pos hdots]
    exact iff_of_true (Option.some_ne_none _) (.inl hdots)
  rw [if_neg hdots, or_iff_right hdots, safe_iff_exists, Option.ne_none_iff_exists']
  constructor
  · rintro ⟨r, hr⟩
    obtain ⟨buf, hbuf, hrest⟩ := Option.bind_eq_some_iff.mp hr
    rw [if_neg (hopens _)] at hrest
    obtain ⟨strlen, hstrlen, -⟩ := Option.map_eq_some_iff.mp hrest
    rw [strlen?, Option.ite_none_right_eq_some] at hstrlen
    exact ⟨buf, hbuf, hstrlen.1⟩
  · rintro ⟨buf, hbuf, hzero⟩
    rw [hbuf, Option.bind_some, if_neg (hopens _), strlen?, if_pos hzero]
    exact ⟨_, rfl⟩

end Pathname
end CodeStrudy
