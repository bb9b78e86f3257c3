import CodeStrudy.Foundation.FileIO
import CodeStrudy.Foundation.Loop
import Mathlib.Data.Nat.Find

/-!
# File copy

`practice/4.2/main.c` reads up to 100 bytes at a time and writes what it read, until `read` returns
zero.  It compares what `write` returns with what `read` returned, so a failed `read` goes
unnoticed: `write` with the length -1 fails as well, and the two results are equal.  The destination
is opened with `O_CREAT` and without `O_TRUNC`.

`copies_iff` says for which sources, destinations and results of the calls the loop ends, and leaves
a copy if the program exits with success.
-/

namespace CodeStrudy
namespace FileCopy

open Foundation Loop

/-! ## `main.c` -/

/-- What the calls of `read` and `write` in each pass of the loop do. -/
structure Results where
  read : ℕ → Option ℕ
  write : ℕ → WriteResult

/-- The number of passes so far, what is left of the source, and the destination. -/
structure State where
  passes : ℕ
  rest : List UInt8
  dest : OpenFile

/-- How the program ends; the destination is removed on failure. -/
inductive Exit where
  | failure
  | success (dest : List UInt8)
  deriving DecidableEq

/-- `numRd = read(oldfd, buf, 100)`: the result, the bytes in the buffer, and what is left. -/
def readBuf (call : Option ℕ) (rest : List UInt8) : ℤ × List UInt8 × List UInt8 :=
  match readShort call 100 rest with
  | none => (-1, [], rest)
  | some (buf, rest) => (buf.length, buf, rest)

/-- `numWr = write(newfd, buf, numRd)`, which fails for a length that is not valid. -/
def writeValue (r : WriteResult) (numRd : ℤ) : ℤ :=
  if numRd < 0 then -1 else r.value numRd.toNat

/-- One pass of the loop, with its test. -/
def pass (r : Results) (s : State) : State ⊕ Exit :=
  let (numRd, buf, rest) := readBuf (r.read s.passes) s.rest
  if numRd = 0 then .inr (.success s.dest.content)
  else if writeValue (r.write s.passes) numRd ≠ numRd then .inr .failure
  else .inl ⟨s.passes + 1, rest, s.dest.write buf⟩

def start (source prev : List UInt8) : State := ⟨0, source, .opened prev⟩

/-- The loop ends, and if the program exits with success, the destination is a copy. -/
def Copies (r : Results) (source prev : List UInt8) : Prop :=
  ∃ e, Returns (pass r) (start source prev) e ∧ ∀ dest, e = .success dest → dest = source

/-! ## When it copies -/

/-- The number of bytes that the first calls of `read` deliver, if the source has as many. -/
def delivered (r : Results) : ℕ → ℕ
  | 0 => 0
  | k + 1 => delivered r k + readSize (r.read k) 100

/-- Call `k` of `read` finds the end of the source. -/
def AtEnd (r : Results) (source : List UInt8) (k : ℕ) : Prop :=
  r.read k ≠ none ∧ source.length ≤ delivered r k

/-- Call `k` of `read` delivers a piece of the source, and `write` does not write all of it. -/
def WriteStops (r : Results) (source : List UInt8) (k : ℕ) : Prop :=
  r.read k ≠ none ∧ delivered r k < source.length ∧
    (r.write k).value (min (readSize (r.read k) 100) (source.length - delivered r k)) ≠
      min (readSize (r.read k) 100) (source.length - delivered r k)

/-! ## One pass -/

/-- Before pass `k` the first bytes of the source are copied. -/
def Stage (r : Results) (source prev : List UInt8) (k : ℕ) (s : State) : Prop :=
  s.passes = k ∧ s.rest = source.drop (delivered r k) ∧
    ∃ bss : List (List UInt8), s.dest = bss.foldl .write (.opened prev) ∧
      bss.flatten = source.take (delivered r k)

variable {r : Results} {source prev : List UInt8} {k : ℕ} {s : State}

theorem writeValue_natCast (w : WriteResult) (n : ℕ) : writeValue w n = w.value n :=
  if_neg (Int.not_lt.mpr (Int.natCast_nonneg n))

/-- A failed `read` makes the loop go on, and nothing is written. -/
theorem pass_of_failed (h : r.read s.passes = none) :
    pass r s = .inl ⟨s.passes + 1, s.rest, s.dest⟩ := by
  have hread : readBuf (r.read s.passes) s.rest = (-1, [], s.rest) := by
    rw [readBuf, h, readShort, if_pos rfl]
  have hvalue : writeValue (r.write s.passes) (-1) = -1 := rfl
  rw [pass, hread]
  simp only [hvalue, OpenFile.write_nil]
  rfl

theorem readBuf_of_ne_none {call : Option ℕ} (h : call ≠ none) (rest : List UInt8) :
    readBuf call rest = (((rest.take (readSize call 100)).length : ℤ),
      rest.take (readSize call 100), rest.drop (readSize call 100)) := by
  rw [readBuf, readShort, if_neg h]

/-- At the end of the source the program exits with success. -/
theorem pass_of_end (h : r.read s.passes ≠ none) (hrest : s.rest = []) :
    pass r s = .inr (.success s.dest.content) := by
  rw [pass, readBuf_of_ne_none h, hrest, List.take_nil]
  rfl

/-- A piece that `write` takes is copied; one that it does not take makes the program fail. -/
theorem pass_of_piece (h : r.read s.passes ≠ none) (hrest : s.rest ≠ []) :
    pass r s =
      if (r.write s.passes).value (s.rest.take (readSize (r.read s.passes) 100)).length ≠
          (s.rest.take (readSize (r.read s.passes) 100)).length then .inr .failure
      else .inl ⟨s.passes + 1, s.rest.drop (readSize (r.read s.passes) 100),
        s.dest.write (s.rest.take (readSize (r.read s.passes) 100))⟩ := by
  have hsize : readSize (r.read s.passes) 100 ≠ 0 :=
    (readSize_eq_zero_iff h).not.mpr (by decide)
  have hne : s.rest.take (readSize (r.read s.passes) 100) ≠ [] := by
    rw [Ne, List.take_eq_nil_iff, not_or]
    exact ⟨hsize, hrest⟩
  have hlen : ((s.rest.take (readSize (r.read s.passes) 100)).length : ℤ) ≠ 0 :=
    Int.natCast_ne_zero.mpr (List.length_pos_iff.mpr hne).ne'
  rw [pass, readBuf_of_ne_none h]
  simp only [if_neg hlen, writeValue_natCast]

theorem stage_start (r : Results) (source prev : List UInt8) :
    Stage r source prev 0 (start source prev) := ⟨rfl, rfl, [], rfl, rfl⟩

/-- Before the end something is left. -/
theorem Stage.rest_ne_nil (h : Stage r source prev k s) (hlt : delivered r k < source.length) :
    s.rest ≠ [] := by
  rw [h.2.1, Ne, List.drop_eq_nil_iff]
  exact Nat.not_le.mpr hlt

/-- What the next `read` delivers. -/
theorem Stage.length_take (h : Stage r source prev k s) (n : ℕ) :
    (s.rest.take n).length = min n (source.length - delivered r k) := by
  rw [h.2.1, List.length_take, List.length_drop]

/-- A pass that does not leave the loop. -/
theorem Stage.go (h : Stage r source prev k s)
    (hend : ¬ (AtEnd r source k ∨ WriteStops r source k)) :
    ∃ t, pass r s = .inl t ∧ Stage r source prev (k + 1) t := by
  have hstage := h
  have hlen := h.length_take
  obtain ⟨rfl, hrest, bss, hdest, hbss⟩ := h
  by_cases hread : r.read s.passes = none
  · refine ⟨_, pass_of_failed hread, rfl, ?_, bss, hdest, ?_⟩
    · rw [delivered, hread]
      exact hrest
    · rw [delivered, hread]
      exact hbss
  · rw [not_or, AtEnd, not_and, Nat.not_le] at hend
    have hlt := hend.1 hread
    have hvalue := not_not.mp fun hvalue => hend.2 ⟨hread, hlt, hvalue⟩
    refine ⟨_, (pass_of_piece hread (hstage.rest_ne_nil hlt)).trans (if_neg ?_), rfl, ?_,
      bss ++ [s.rest.take (readSize (r.read s.passes) 100)], ?_, ?_⟩
    · rw [hlen]
      exact not_not.mpr hvalue
    · rw [hrest, List.drop_drop, delivered]
    · rw [hdest, List.foldl_append]
      rfl
    · rw [List.flatten_append, List.flatten_singleton, hbss, hrest, delivered, List.take_add]

/-- A pass that leaves the loop. -/
theorem Stage.stop (h : Stage r source prev k s)
    (hend : AtEnd r source k ∨ WriteStops r source k) :
    ∃ e, pass r s = .inr e ∧ ((∀ dest, e = .success dest → dest = source) ↔
      (AtEnd r source k → prev.length ≤ source.length)) := by
  have hstage := h
  have hlen := h.length_take
  obtain ⟨rfl, hrest, bss, hdest, hbss⟩ := h
  rcases hend with hend | ⟨hread, hlt, hvalue⟩
  · refine ⟨_, pass_of_end hend.1 ?_, ?_⟩
    · rw [hrest]
      exact List.drop_eq_nil_of_le hend.2
    · rw [List.take_of_length_le hend.2] at hbss
      have hcontent := OpenFile.content_foldl_write_opened_eq_iff prev bss
      rw [← hdest, hbss] at hcontent
      simp only [Exit.success.injEq, forall_eq', hcontent, hend, forall_const]
  · refine ⟨.failure, (pass_of_piece hread (hstage.rest_ne_nil hlt)).trans (if_pos ?_), ?_⟩
    · rw [hlen]
      exact hvalue
    · exact iff_of_true (fun _ h => nomatch h) fun hend => absurd hend.2 (Nat.not_le.mpr hlt)

/-! ## The loop -/

theorem delivered_mono {i j : ℕ} (h : i ≤ j) : delivered r i ≤ delivered r j := by
  induction j, h using Nat.le_induction with
  | base => exact Nat.le_refl _
  | succ j _ ih => exact Nat.le_add_right_of_le ih

/-- **When the program copies.**  For every source, every old content of the destination and all
results of the calls: the loop ends, and leaves a copy if the program exits with success, exactly if
a `write` is not complete, or `read` comes to the end of the source and the destination held no more
bytes than the source. -/
theorem copies_iff (r : Results) (source prev : List UInt8) :
    Copies r source prev ↔
      (∃ k, WriteStops r source k) ∨ prev.length ≤ source.length ∧ ∃ k, AtEnd r source k := by
  have hloop := returns_iff_of_stages (Stage r source prev)
    (fun k => AtEnd r source k ∨ WriteStops r source k)
    (fun k => AtEnd r source k → prev.length ≤ source.length)
    (fun e => ∀ dest, e = .success dest → dest = source) (fun _ _ => Stage.go)
    (fun _ _ => Stage.stop) (stage_start r source prev)
  rw [Copies, hloop]
  constructor
  · rintro ⟨j, -, -, hend | hstops, hgood⟩
    · exact Or.inr ⟨hgood hend, j, hend⟩
    · exact Or.inl ⟨j, hstops⟩
  · intro h
    classical
    have hex : ∃ k, AtEnd r source k ∨ WriteStops r source k := by
      rcases h with ⟨k, hk⟩ | ⟨-, k, hk⟩
      · exact ⟨k, Or.inr hk⟩
      · exact ⟨k, Or.inl hk⟩
    refine ⟨Nat.find hex, Nat.zero_le _, fun i _ hi => Nat.find_min hex hi, Nat.find_spec hex,
      fun hend => ?_⟩
    rcases h with ⟨k, hk⟩ | ⟨hprev, -⟩
    · -- the end of the source would come before a write that stops
      have hle := delivered_mono (r := r) (Nat.find_le (h := hex) (Or.inr hk))
      exact absurd (hend.2.trans hle) (Nat.not_le.mpr hk.2.1)
    · exact hprev

/-- A destination that is longer than the source: the copy has the end of the old content. -/
theorem not_copies : ¬ ∀ r source prev, Copies r source prev := by
  intro h
  obtain ⟨e, he, hcopy⟩ := h ⟨fun _ => some 0, fun _ => .wrote 100⟩ [] [0x61]
  have hfirst : pass ⟨fun _ => some 0, fun _ => .wrote 100⟩ (start [] [0x61]) =
      .inr (.success [0x61]) := by rfl
  exact absurd (hcopy _ ((returns_inr_iff hfirst).mp he)) (List.cons_ne_nil _ _)

end FileCopy
end CodeStrudy
