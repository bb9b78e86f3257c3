import CodeStrudy.Foundation.CString
import Mathlib.Data.BitVec

/-!
# The command sent to the remote command server

`practice/61.5`: the client joins its arguments into one line in a buffer of `BUF_SZIE` bytes and
writes the line to a TCP connection; the server's child reads once from the connection into a
buffer of the same size and gives what it read to `system`.

Three lengths stand between the arguments and the command that runs: the room in the client's
buffer, where `snprintf` cuts without a word; the number of bytes that `write` and then the one
`read` transfer; and `argc`, which `main` declares as a `char`.  `executes_iff` puts them together:
the server runs what was asked for exactly when none of the three cuts anything off.
-/

namespace CodeStrudy
namespace RemoteCommand

open Foundation

def BUF_SZIE : ℕ := 512

/-! ## The client -/

/-- The bytes of `"--help"`. -/
def helpFlag : List UInt8 := [0x2d, 0x2d, 0x68, 0x65, 0x6c, 0x70]

/-- Whether the client prints its usage and exits. -/
def usageError (argv : List CStr) : Bool :=
  charArgc argv.length < 3 || (argv[1]?.map (·.chars) == some helpFlag)

/-- The client's buffer after its loop over the arguments. -/
def fillBuf (args : List CStr) : CharArray BUF_SZIE :=
  args.foldl (fun buf arg => buf.snprintfAppend (0x20 :: arg.chars)) (CharArray.zeros BUF_SZIE)

/-- The line that the client gives to `write`; `none` if it only prints its usage. -/
def clientLine (argv : List CStr) : Option (List UInt8) :=
  if usageError argv then none
  else some (fillBuf ((argv.take (charArgc argv.length).toNat).drop 2)).str

/-! ## The server's child -/

/-- The part of `data` after the redirections: what `read` returned, and the string given to
`system` if it is called. -/
def data (numRd : Option (List UInt8)) : Option (List UInt8) :=
  match numRd with
  | none => none
  | some bytes =>
    if 0 < bytes.length then some ((CharArray.zeros BUF_SZIE).write bytes).str else none

/-! ## One call of the service -/

/-- How the connection carries the line: how many bytes of it `write` sends, and how many of those
the server's one `read` returns, `none` when it fails. -/
structure Transfer where
  sent : ℕ
  got : Option ℕ

/-- What the server's `read` returns of a line. -/
def Transfer.received (x : Transfer) (line : List UInt8) : Option (List UInt8) :=
  x.got.map fun k => (line.take x.sent).take k

/-- The command the server executes for a client called with `argv`. -/
def executed (argv : List CStr) (x : Transfer) : Option (List UInt8) :=
  (clientLine argv).bind fun line => data (x.received line)

/-- A space and the argument, for each argument. -/
def spaced (args : List CStr) : List UInt8 := args.flatMap fun arg => 0x20 :: arg.chars

/-- The command that was asked for: all arguments from the third on. -/
def command (argv : List CStr) : List UInt8 := spaced (argv.drop 2)

/-- Whatever the server executes is the command that was asked for. -/
def Executes (argv : List CStr) (x : Transfer) : Prop :=
  ∀ s, executed argv x = some s → s = command argv

/-- Nothing is executed, or nothing is cut off. -/
def NotCut (argv : List CStr) (x : Transfer) : Prop :=
  usageError argv = true ∨ x.sent = 0 ∨ x.got.getD 0 = 0 ∨
    (argv.length ≤ 127 ∧ (command argv).length < BUF_SZIE ∧ (command argv).length ≤ x.sent ∧
      (command argv).length ≤ x.got.getD 0)

/-! ## What reaches the server -/

theorem zero_notMem_spaced (args : List CStr) : 0 ∉ spaced args := by
  unfold spaced
  rw [List.mem_flatMap]
  rintro ⟨arg, -, h⟩
  rcases List.mem_cons.mp h with h | h
  · exact absurd h (by decide)
  · exact arg.zero_notMem h

theorem fillBuf_eq (args : List CStr) : fillBuf args = CharArray.ofText BUF_SZIE (spaced args) := by
  -- the loop, started on any text that is already in the buffer
  have hloop : ∀ (args : List CStr) (s : List UInt8), 0 ∉ s →
      args.foldl (fun buf arg => buf.snprintfAppend (0x20 :: arg.chars))
        (CharArray.ofText BUF_SZIE s) = CharArray.ofText BUF_SZIE (s ++ spaced args) := by
    intro args
    induction args with
    | nil =>
      intro s _
      rw [spaced, List.flatMap_nil, List.append_nil]
      rfl
    | cons arg args ih =>
      intro s hs
      have harg : 0 ∉ s ++ 0x20 :: arg.chars := by
        have h := zero_notMem_spaced [arg]
        rw [spaced, List.flatMap_singleton] at h
        rw [List.mem_append, not_or]
        exact ⟨hs, h⟩
      rw [List.foldl_cons, CharArray.snprintfAppend_ofText (by decide) hs, ih _ harg,
        List.append_assoc]
      rfl
  rw [fillBuf, CharArray.zeros_eq_ofText]
  exact hloop args [] List.not_mem_nil

/-- The arguments that the client's loop visits. -/
def visited (argv : List CStr) : List CStr := (argv.drop 2).take ((charArgc argv.length).toNat - 2)

theorem clientLine_eq {argv : List CStr} (h : usageError argv = false) :
    clientLine argv = some ((spaced (visited argv)).take (BUF_SZIE - 1)) := by
  rw [clientLine, h, fillBuf_eq, CharArray.str_ofText (by decide) (zero_notMem_spaced _),
    List.drop_take]
  rfl

/-- What the server's child read, if it fits and has no zero byte, is what it executes. -/
theorem data_some {bytes : List UInt8} (hz : 0 ∉ bytes) (hlt : bytes.length < BUF_SZIE) :
    data (some bytes) = if 0 < bytes.length then some bytes else none := by
  have hzeros : BUF_SZIE - bytes.length = BUF_SZIE - bytes.length - 1 + 1 := by omega
  rw [data, CharArray.str, CharArray.bytes_write_zeros (le_of_lt hlt), hzeros,
    List.replicate_succ, cstr_append_zero hz]

/-- The number of bytes of the line that come out of the server's read. -/
def Transfer.count (x : Transfer) : ℕ := min (x.got.getD 0) (min x.sent (BUF_SZIE - 1))

theorem executed_eq {argv : List CStr} (h : usageError argv = false) (x : Transfer) :
    executed argv x =
      if 0 < ((spaced (visited argv)).take x.count).length then
        some ((spaced (visited argv)).take x.count)
      else none := by
  rw [executed, clientLine_eq h, Option.bind_some, Transfer.received]
  cases hgot : x.got with
  | none =>
    have hcount : x.count = 0 := by rw [Transfer.count, hgot, Option.getD_none, Nat.zero_min]
    rw [hcount]
    rfl
  | some k =>
    have hcount : x.count = min k (min x.sent (BUF_SZIE - 1)) := by
      rw [Transfer.count, hgot, Option.getD_some]
    rw [Option.map_some, List.take_take, List.take_take, Nat.min_assoc, ← hcount, data_some]
    · exact fun hz => zero_notMem_spaced _ (List.mem_of_mem_take hz)
    · rw [List.length_take, Transfer.count, BUF_SZIE]
      omega

/-! ## The arguments that are left out -/

theorem three_le_charArgc {argv : List CStr} (h : usageError argv = false) :
    3 ≤ charArgc argv.length := by
  rw [usageError, Bool.or_eq_false_iff, decide_eq_false_iff_not] at h
  omega

theorem three_le_length {argv : List CStr} (h : usageError argv = false) : 3 ≤ argv.length := by
  have h3 := three_le_charArgc h
  by_contra hlt
  rw [charArgc_of_le (by omega)] at h3
  omega

theorem spaced_append (as bs : List CStr) : spaced (as ++ bs) = spaced as ++ spaced bs :=
  List.flatMap_append

theorem length_spaced_pos {args : List CStr} (h : args ≠ []) : 0 < (spaced args).length := by
  obtain ⟨arg, args, rfl⟩ := List.exists_cons_of_ne_nil h
  rw [spaced, List.flatMap_cons, List.cons_append, List.length_cons]
  exact Nat.succ_pos _

theorem command_eq (argv : List CStr) :
    command argv =
      spaced (visited argv) ++ spaced ((argv.drop 2).drop ((charArgc argv.length).toNat - 2)) := by
  rw [← spaced_append, visited, List.take_append_drop]
  rfl

theorem spaced_visited_prefix (argv : List CStr) : spaced (visited argv) <+: command argv :=
  ⟨_, (command_eq argv).symm⟩

/-- The client's loop visits all arguments exactly when `argc` is not cut by its type. -/
theorem length_spaced_visited_eq_iff {argv : List CStr} (h : usageError argv = false) :
    (spaced (visited argv)).length = (command argv).length ↔ argv.length ≤ 127 := by
  have h3 := three_le_charArgc h
  have hle := charArgc_le argv.length
  rw [command_eq, List.length_append, Nat.left_eq_add]
  constructor
  · intro hzero
    by_contra hlong
    refine absurd hzero (Nat.ne_of_gt (length_spaced_pos (List.ne_nil_of_length_pos ?_)))
    rw [List.length_drop, List.length_drop]
    omega
  · intro hshort
    have hargc := charArgc_of_le hshort
    have hdrop : (argv.drop 2).drop ((charArgc argv.length).toNat - 2) = [] := by
      rw [List.drop_eq_nil_iff, List.length_drop]
      omega
    rw [hdrop]
    rfl

/-- The client's loop visits at least one argument. -/
theorem length_spaced_visited_pos {argv : List CStr} (h : usageError argv = false) :
    0 < (spaced (visited argv)).length := by
  have h3 := three_le_charArgc h
  have h3' := three_le_length h
  refine length_spaced_pos (List.ne_nil_of_length_pos ?_)
  rw [visited, List.length_take, List.length_drop]
  omega

/-! ## The exact condition -/

/-- The first bytes of the line are the command exactly if the line is and they are all. -/
theorem take_visited_eq_iff {argv : List CStr} (h : usageError argv = false) (k : ℕ) :
    (spaced (visited argv)).take k = command argv ↔
      argv.length ≤ 127 ∧ (command argv).length ≤ k := by
  have hvisited := spaced_visited_prefix argv
  constructor
  · intro heq
    have hlen := congrArg List.length heq
    have hle := hvisited.length_le
    rw [List.length_take] at hlen
    refine ⟨(length_spaced_visited_eq_iff h).mp ?_, ?_⟩ <;> omega
  · rintro ⟨hargc, hlen⟩
    have hall := hvisited.eq_of_length ((length_spaced_visited_eq_iff h).mpr hargc)
    rw [hall, List.take_of_length_le hlen]

/-- If the client sends its line, what the server executes depends on how many bytes come out. -/
theorem executes_iff_count {argv : List CStr} (h : usageError argv = false) (x : Transfer) :
    Executes argv x ↔ x.count = 0 ∨ (spaced (visited argv)).take x.count = command argv := by
  have hlen : ((spaced (visited argv)).take x.count).length =
      min x.count (spaced (visited argv)).length := List.length_take
  have hpos := length_spaced_visited_pos h
  unfold Executes
  rw [executed_eq h]
  constructor
  · intro hexec
    by_cases hcount : x.count = 0
    · exact Or.inl hcount
    · exact Or.inr (hexec _ (if_pos (by rw [hlen]; omega)))
  · rintro (hcount | heq) s hs
    · rw [if_neg (by rw [hlen]; omega)] at hs
      cases hs
    · obtain ⟨-, hs⟩ := Option.ite_none_right_eq_some.mp hs
      exact (Option.some.inj hs).symm.trans heq

/-- **When what runs is what was asked for.**  For every argument vector and every way the
connection carries the line: the server executes nothing but the command asked for exactly when
nothing is executed at all, or `argc` fits a `char`, the command fits the client's buffer with its
zero byte, and `write` and the server's one `read` transfer all of it. -/
theorem executes_iff (argv : List CStr) (x : Transfer) : Executes argv x ↔ NotCut argv x := by
  unfold NotCut
  cases husage : usageError argv with
  | true =>
    refine iff_of_true (fun s hs => ?_) (Or.inl rfl)
    rw [executed, clientLine, husage] at hs
    exact absurd hs (by simp)
  | false =>
    have hzero : x.count = 0 ↔ x.sent = 0 ∨ x.got.getD 0 = 0 := by
      unfold Transfer.count BUF_SZIE
      omega
    have hall : (command argv).length ≤ x.count ↔ (command argv).length < BUF_SZIE ∧
        (command argv).length ≤ x.sent ∧ (command argv).length ≤ x.got.getD 0 := by
      unfold Transfer.count BUF_SZIE
      omega
    rw [executes_iff_count husage, take_visited_eq_iff husage, hzero, hall, or_assoc]
    exact (or_iff_right Bool.false_ne_true).symm

/-- The command `ls /`, of which the server's `read` returns the first three bytes: it runs
`ls`. -/
theorem not_executes : ¬ ∀ (argv : List CStr) (x : Transfer), Executes argv x := by
  intro h
  have hcut := h [⟨[0x63], by decide⟩, ⟨[0x68], by decide⟩, ⟨[0x6c, 0x73], by decide⟩,
    ⟨[0x2f], by decide⟩] ⟨5, some 3⟩ [0x20, 0x6c, 0x73] (by decide +kernel)
  exact absurd hcut (by decide)

end RemoteCommand
end CodeStrudy
