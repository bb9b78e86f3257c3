import CodeStrudy.Foundation.FileIO
import CodeStrudy.Foundation.Loop
import CodeStrudy.GetNum.GetNum

/-!
# Standard input to a file and to standard output

`practice/4.1/main.c` cuts its input with `fgets` into pieces of at most `sizeof(buf) - 1` bytes,
none of which goes over the end of a line, and writes each of them to the file and to standard
output.  `fgets` says nothing of the length of a piece, so the program takes `strlen(buf)`, and
`fputs` stops at the first zero byte as well.  A file that is not there is created, and standard
output begins with a line about that.

## What is proved

* `exists_returns_pass`: the loop is left, whatever the calls return.
* `Cut.pass`: what the loop has written is the pieces so far, each up to its first zero byte.
* `tees_iff`: so both outputs of a successful run are the input exactly if the file could be opened
  and no byte of the input is zero.
-/

namespace CodeStrudy
namespace Tee

open Foundation GetNum Loop

/-! ## `fgets` -/

/-- A piece of the input: at most `n` bytes, and nothing behind a newline. -/
def line : ℕ → List UInt8 → List UInt8
  | n + 1, c :: cs => if c = 0x0a then [c] else c :: line n cs
  | _, _ => []

/-- `fgets(buf, n, stdin)`: the buffer and the rest of the input, or `NULL` at the end. -/
def fgets {n : ℕ} (buf : CharArray n) (stdin : List UInt8) :
    Option (CharArray n × List UInt8) :=
  if stdin = [] then none
  else
    let piece := line (n - 1) stdin
    some (buf.write (piece ++ [0]), stdin.drop piece.length)

/-! ## `main.c` -/

/-- What is left of the input, the buffer, and what went to the file and to standard output; the
passes made so far number the calls. -/
structure State where
  passes : ℕ
  stdin : List UInt8
  buf : CharArray 100
  file : List UInt8
  stdout : List UInt8

inductive Exit where
  | failure
  | success (file stdout : List UInt8)
  deriving DecidableEq

/-- What `write` and `fputs` return in each pass. -/
structure Results where
  write : ℕ → WriteResult
  fputs : ℕ → Bool

/-- One pass of the loop, with its test. -/
def pass (r : Results) (s : State) : State ⊕ Exit :=
  match fgets s.buf s.stdin with
  | none => .inr (.success s.file s.stdout)
  | some (buf, stdin) =>
    if (r.write s.passes).value buf.str.length ≠ buf.str.length then .inr .failure
    else if r.fputs s.passes = false then .inr .failure
    else .inl ⟨s.passes + 1, stdin, buf, s.file ++ buf.str, s.stdout ++ buf.str⟩

/-- The name of the file, whether it can be opened, and whether it can be created if not. -/
structure Opening where
  name : CStr
  opened : Bool
  created : Bool

/-- What has gone to standard output when the file is open, if it is. -/
def Opening.printed (o : Opening) : Option (List UInt8) :=
  if o.opened then some []
  else if o.created then some (ascii "create " ++ o.name.chars ++ ascii " !\n")
  else none

/-- Before the loop nothing is written to the file; the buffer is not initialised. -/
def start (stdin : List UInt8) (buf : CharArray 100) (stdout : List UInt8) : State :=
  ⟨0, stdin, buf, [], stdout⟩

/-- How `main` ends. -/
def Ends (o : Opening) (r : Results) (stdin : List UInt8) (buf : CharArray 100) (e : Exit) : Prop :=
  match o.printed with
  | none => e = .failure
  | some stdout => Returns (pass r) (start stdin buf stdout) e

/-- Whatever the calls return, the program ends, and if it exits with success, both outputs are the
input. -/
def Tees (o : Opening) (stdin : List UInt8) : Prop :=
  ∀ r buf, ∃ e, Ends o r stdin buf e ∧
    ∀ file stdout, e = .success file stdout → file = stdin ∧ stdout = stdin

/-! ## The pieces -/

theorem length_line_le (n : ℕ) (l : List UInt8) : (line n l).length ≤ n := by
  induction n generalizing l with
  | zero => exact Nat.le_refl 0
  | succ n ih =>
    cases l with
    | nil => exact Nat.zero_le _
    | cons c cs =>
      rw [line]
      split
      · exact Nat.le_add_left 1 n
      · exact Nat.succ_le_succ (ih cs)

theorem line_append_drop (n : ℕ) (l : List UInt8) : line n l ++ l.drop (line n l).length = l := by
  induction n generalizing l with
  | zero => rfl
  | succ n ih =>
    cases l with
    | nil => rfl
    | cons c cs =>
      rw [line]
      split
      · rfl
      · exact congrArg (c :: ·) (ih cs)

theorem line_ne_nil {n : ℕ} (hn : 0 < n) {l : List UInt8} (h : l ≠ []) : line n l ≠ [] := by
  obtain ⟨c, cs, rfl⟩ := List.exists_cons_of_ne_nil h
  obtain ⟨m, rfl⟩ := Nat.exists_eq_succ_of_ne_zero (Nat.ne_of_gt hn)
  rw [line]
  split <;> exact List.cons_ne_nil _ _

/-- A call of `fgets` takes a piece off the input, and `strlen` finds what is before its first zero
byte. -/
theorem fgets_eq_some {n : ℕ} (hn : 1 < n) {buf buf' : CharArray n} {stdin rest : List UInt8}
    (h : fgets buf stdin = some (buf', rest)) :
    ∃ piece, piece ≠ [] ∧ stdin = piece ++ rest ∧ buf'.str = cstr piece := by
  unfold fgets at h
  split at h
  · cases h
  · rename_i hne
    obtain ⟨rfl, rfl⟩ := Prod.mk.inj (Option.some.inj h)
    have hlen := length_line_le (n - 1) stdin
    exact ⟨line (n - 1) stdin, line_ne_nil (by omega) hne, (line_append_drop _ stdin).symm,
      CharArray.str_write_append_zero (by omega)⟩

theorem fgets_eq_none {n : ℕ} {buf : CharArray n} {stdin : List UInt8}
    (h : fgets buf stdin = none) : stdin = [] := by
  unfold fgets at h
  split at h
  · assumption
  · cases h

/-- The strings of some pieces are all of their bytes exactly if no byte is zero. -/
theorem flatMap_cstr_eq_iff (ps : List (List UInt8)) :
    ps.flatMap cstr = ps.flatten ↔ 0 ∉ ps.flatten := by
  constructor
  · intro heq h0
    rw [← heq, List.mem_flatMap] at h0
    obtain ⟨p, -, hp⟩ := h0
    exact zero_notMem_cstr p hp
  · intro h0
    induction ps with
    | nil => rfl
    | cons p ps ih =>
      rw [List.flatten_cons, List.mem_append, not_or] at h0
      rw [List.flatMap_cons, List.flatten_cons, cstr_of_notMem h0.1, ih h0.2]

/-! ## The loop -/

/-- The input is some pieces and what is left of it, and both outputs are the strings of the pieces,
behind what was printed before. -/
def Cut (input printed : List UInt8) (s : State) : Prop :=
  ∃ ps : List (List UInt8), input = ps.flatten ++ s.stdin ∧ s.file = ps.flatMap cstr ∧
    s.stdout = printed ++ ps.flatMap cstr

theorem cut_start (stdin printed : List UInt8) (buf : CharArray 100) :
    Cut stdin printed (start stdin buf printed) :=
  ⟨[], rfl, rfl, (List.append_nil printed).symm⟩

/-- What a pass that goes on does. -/
theorem pass_eq_inl {r : Results} {s t : State} (h : pass r s = .inl t) :
    ∃ piece, piece ≠ [] ∧ s.stdin = piece ++ t.stdin ∧ t.file = s.file ++ cstr piece ∧
      t.stdout = s.stdout ++ cstr piece := by
  unfold pass at h
  cases hget : fgets s.buf s.stdin with
  | none => rw [hget] at h; cases h
  | some p =>
    obtain ⟨buf, rest⟩ := p
    obtain ⟨piece, hne, hsplit, hstr⟩ := fgets_eq_some (by decide) hget
    simp only [hget] at h
    split_ifs at h
    obtain rfl := Sum.inl.inj h
    exact ⟨piece, hne, hsplit, congrArg (s.file ++ ·) hstr, congrArg (s.stdout ++ ·) hstr⟩

/-- The loop is left with success at the end of the input only. -/
theorem pass_eq_success {r : Results} {s : State} {file stdout : List UInt8}
    (h : pass r s = .inr (.success file stdout)) :
    s.stdin = [] ∧ file = s.file ∧ stdout = s.stdout := by
  unfold pass at h
  cases hget : fgets s.buf s.stdin with
  | none =>
    rw [hget] at h
    obtain ⟨rfl, rfl⟩ := Exit.success.inj (Sum.inr.inj h)
    exact ⟨fgets_eq_none hget, rfl, rfl⟩
  | some p =>
    simp only [hget] at h
    split_ifs at h <;> cases h

theorem Cut.pass {input printed : List UInt8} {r : Results} {s t : State}
    (hs : Cut input printed s) (h : pass r s = .inl t) : Cut input printed t := by
  obtain ⟨ps, hinput, hfile, hstdout⟩ := hs
  obtain ⟨piece, -, hsplit, hfile', hstdout'⟩ := pass_eq_inl h
  refine ⟨ps ++ [piece], ?_, ?_, ?_⟩
  · rw [hinput, hsplit, List.flatten_append, List.flatten_singleton, List.append_assoc]
  · rw [hfile', hfile, List.flatMap_append, List.flatMap_singleton]
  · rw [hstdout', hstdout, List.flatMap_append, List.flatMap_singleton, List.append_assoc]

/-- Every pass that goes on makes the input shorter. -/
theorem exists_returns_pass (r : Results) (s : State) : ∃ e, Returns (pass r) s e := by
  refine exists_returns (fun _ => True) (fun s => s.stdin.length) (fun s t _ h => ⟨trivial, ?_⟩)
    trivial
  obtain ⟨piece, hne, hsplit, -, -⟩ := pass_eq_inl h
  rw [hsplit, List.length_append]
  exact Nat.lt_add_of_pos_left (List.length_pos_of_ne_nil hne)

/-- Both outputs of a successful run are the strings of pieces that together are the input. -/
theorem exists_pieces_of_success {stdin printed file stdout : List UInt8} {buf : CharArray 100}
    {r : Results} (h : Returns (pass r) (start stdin buf printed) (.success file stdout)) :
    ∃ ps : List (List UInt8), stdin = ps.flatten ∧ file = ps.flatMap cstr ∧
      stdout = printed ++ ps.flatMap cstr := by
  refine h.invariant (Cut stdin printed)
    (fun e => ∀ file stdout, e = .success file stdout → ∃ ps : List (List UInt8),
      stdin = ps.flatten ∧ file = ps.flatMap cstr ∧ stdout = printed ++ ps.flatMap cstr)
    (fun s t hs hst => hs.pass hst) ?_ (cut_start stdin printed buf) file stdout rfl
  rintro s e ⟨ps, hinput, hfile, hstdout⟩ hleave file stdout rfl
  obtain ⟨hend, rfl, rfl⟩ := pass_eq_success hleave
  exact ⟨ps, by rw [hinput, hend, List.append_nil], hfile, hstdout⟩

/-- Calls that all do what they are asked for. -/
def complete : Results := ⟨fun _ => .wrote 100, fun _ => true⟩

theorem pass_complete_ne_failure (s : State) : pass complete s ≠ .inr .failure := by
  intro h
  unfold pass at h
  cases hget : fgets s.buf s.stdin with
  | none => rw [hget] at h; cases h
  | some p =>
    have hvalue : (complete.write s.passes).value p.1.str.length = p.1.str.length :=
      WriteResult.value_eq_iff.mpr ⟨100, rfl, p.1.length_str_le⟩
    simp only [hget] at h
    rw [if_neg (not_not.mpr hvalue), if_neg (by simp [complete])] at h
    cases h

/-- With such calls the program exits with success. -/
theorem exists_success (stdin printed : List UInt8) (buf : CharArray 100) {e : Exit}
    (he : Returns (pass complete) (start stdin buf printed) e) :
    ∃ file stdout, e = .success file stdout := by
  cases e with
  | success file stdout => exact ⟨file, stdout, rfl⟩
  | failure =>
    refine absurd rfl (he.invariant (fun _ => True) (· ≠ .failure) (fun _ _ _ _ => trivial) ?_
      trivial)
    rintro s e - hleave rfl
    exact pass_complete_ne_failure s hleave

/-- What comes of a file that is open. -/
theorem tees_iff_of_printed {o : Opening} {printed : List UInt8} (h : o.printed = some printed)
    (stdin : List UInt8) : Tees o stdin ↔ printed = [] ∧ 0 ∉ stdin := by
  have hends : ∀ r buf e, Ends o r stdin buf e ↔
      Returns (pass r) (start stdin buf printed) e := fun r buf e => by rw [Ends, h]
  constructor
  · intro htees
    obtain ⟨e, he, hsuccess⟩ := htees complete default
    rw [hends] at he
    obtain ⟨file, stdout, rfl⟩ := exists_success stdin printed default he
    obtain ⟨ps, hps, hfile, hstdout⟩ := exists_pieces_of_success he
    obtain ⟨hfile', hstdout'⟩ := hsuccess file stdout rfl
    have hall : ps.flatMap cstr = ps.flatten := hfile.symm.trans (hfile'.trans hps)
    refine ⟨?_, hps ▸ (flatMap_cstr_eq_iff ps).mp hall⟩
    rw [hstdout, hall, ← hps] at hstdout'
    exact List.append_left_eq_self.mp hstdout'
  · rintro ⟨rfl, h0⟩ r buf
    obtain ⟨e, he⟩ := exists_returns_pass r (start stdin buf [])
    refine ⟨e, (hends r buf e).mpr he, fun file stdout hsuccess => ?_⟩
    obtain ⟨ps, hps, rfl, rfl⟩ := exists_pieces_of_success (hsuccess ▸ he)
    have hall := (flatMap_cstr_eq_iff ps).mpr (hps ▸ h0)
    exact ⟨hall.trans hps.symm, hall.trans hps.symm⟩

/-- **When both outputs are the input.**  The loop ends for every input and whatever the calls
return; that a successful run has written the input to the file and to standard output is certain
exactly if the file can be opened and the input has no zero byte, whatever the lengths of its lines,
or the file can neither be opened nor created, so that no run is successful. -/
theorem tees_iff (o : Opening) (stdin : List UInt8) :
    Tees o stdin ↔
      o.opened = true ∧ 0 ∉ stdin ∨ o.opened = false ∧ o.created = false := by
  cases hopened : o.opened with
  | true =>
    have hprinted : o.printed = some [] := by rw [Opening.printed, hopened, if_pos rfl]
    simp [tees_iff_of_printed hprinted]
  | false =>
    cases hcreated : o.created with
    | true =>
      have hprinted : o.printed = some (ascii "create " ++ o.name.chars ++ ascii " !\n") := by
        simp [Opening.printed, hopened, hcreated]
      simp [tees_iff_of_printed hprinted, ascii]
    | false =>
      have hprinted : o.printed = none := by simp [Opening.printed, hopened, hcreated]
      refine iff_of_true (fun r buf => ⟨.failure, ?_, fun _ _ h => by cases h⟩) (.inr ⟨rfl, rfl⟩)
      rw [Ends, hprinted]

/-- The input `a`, zero, newline: the program writes `a`. -/
theorem not_tees : ¬ ∀ o stdin, Tees o stdin := by
  intro h
  have hzero := (tees_iff_of_printed (o := ⟨⟨ascii "f", by decide⟩, true, false⟩) rfl
    [0x61, 0, 0x0a]).mp (h _ _)
  exact absurd hzero.2 (by decide)

end Tee
end CodeStrudy
