import CodeStrudy.Foundation.CInt
import CodeStrudy.GetNum.GetNum

/-!
# The message before the exit

Most programs have a function `errPrintf` of their own.  It formats a message into an array of
zeros, puts the file, the line and the text of the error behind it, and writes the array up to its
first zero byte.  The copies differ in the call for the message (`vsprintf` or `vsnprintf`) and in
what comes behind it.  The copy of `practice/27.2` gives `snprintf` the length of the message where
the others give it the room that is left.

## What is proved

* `errPrintf_eq`: what a copy writes, and when `vsprintf` leaves the array.
* `Execlp.errPrintf_eq_take`: the same for the copy of `practice/27.2`.
* `Execlp.shows_line_iff`: it shows its line exactly for messages that are longer than the line
  itself and leave room for it.
-/

namespace CodeStrudy
namespace ErrPrintf

open Foundation GetNum

/-- A copy of `errPrintf` with an array of `n` bytes, for a formatted message: what it writes, or
nothing if it stores outside of its array.  `bounded` says that it calls `vsnprintf`, and `pieces`
are the texts that it puts behind the message. -/
def errPrintf (n : ℕ) (bounded : Bool) (pieces : List (List UInt8)) (msg : List UInt8) :
    Option (List UInt8) :=
  if bounded = false ∧ n ≤ msg.length then none
  else some (pieces.foldl CharArray.snprintfAppend (CharArray.ofText n msg)).str

/-- A number as `%d` writes it. -/
def intText (line : CInt) : List UInt8 :=
  if line.toInt < 0 then 0x2d :: decimal line.toInt.natAbs else decimal line.toInt.natAbs

/-- `common/errout.c` -/
def Common.errPrintf (file : Option CStr) (line : CInt) (err : Option CStr) (msg : CStr) :
    Option (List UInt8) :=
  ErrPrintf.errPrintf 4096 false
    ((file.map fun file => ascii " file is " ++ file.chars ++ ascii " ").toList ++
      (if line = 0 then [] else [ascii " line is " ++ intText line ++ ascii " "]) ++
      (err.map fun err => ascii " " ++ err.chars).toList ++ [ascii " \n"]) msg.chars

/-- `routines/48.4.svshm_xfr/svmutex.c`, with `ERROUT_FILENAME` -/
def Svmutex.errPrintf (line : CInt) (file strerror msg : CStr) : Option (List UInt8) :=
  ErrPrintf.errPrintf 4096 true [ascii " File is " ++ file.chars,
    ascii " line is " ++ intText line ++ ascii " ", ascii " " ++ strerror.chars ++ ascii " \n"]
    msg.chars

/-- `practice/52.2` and `practice/52.2.b`, the client and the server -/
def FileServer.errPrintf (file : CStr) (line : CInt) (strerror msg : CStr) :
    Option (List UInt8) :=
  ErrPrintf.errPrintf 4096 false [ascii " file is " ++ file.chars ++ ascii " ",
    ascii " line is " ++ intText line ++ ascii " ", ascii " " ++ strerror.chars ++ ascii "\n "]
    msg.chars

/-- `practice/53.1`; this copy does not exit. -/
def ThreadCopy.errPrintf (line : CInt) (strerror msg : CStr) : Option (List UInt8) :=
  ErrPrintf.errPrintf 4096 true [ascii " line = " ++ intText line ++ ascii " ",
    ascii " " ++ strerror.chars ++ ascii " \n "] msg.chars

/-- `practice/44.1` and `practice/45.1` -/
def TwoPipes.errPrintf (line : CInt) (msg : CStr) : Option (List UInt8) :=
  ErrPrintf.errPrintf 4096 false [ascii "line = " ++ intText line ++ ascii "\n"] msg.chars

/-- `practice/49.1` and `practice/49.3` -/
def Mmap.errPrintf (line : CInt) (strerror msg : CStr) : Option (List UInt8) :=
  ErrPrintf.errPrintf 4096 false [ascii " line is " ++ intText line ++ ascii " ",
    ascii " " ++ strerror.chars ++ ascii " \n"] msg.chars

/-- `practice/50.2` -/
def Madvise.errPrintf (line : CInt) (strerror msg : CStr) : Option (List UInt8) :=
  ErrPrintf.errPrintf 4096 false [ascii "line is " ++ intText line ++ ascii " ",
    strerror.chars ++ ascii " \n"] msg.chars

/-- `practice/46.6`, the client and the server: nothing writes the array. -/
def Talk.errPrintf (line : CInt) (msg : CStr) : Option (List UInt8) :=
  (ErrPrintf.errPrintf 4096 false [ascii " line = " ++ intText line ++ ascii " \n"]
    msg.chars).map fun _ => []

/-- `practice/31.2` -/
def Pathname.errPrintf (line : CInt) (msg : CStr) : Option (List UInt8) :=
  ErrPrintf.errPrintf 1024 true
    (if line = 0 then [] else [ascii " line = " ++ intText line ++ ascii "\n"]) msg.chars

/-- The line as `practice/27.2` formats it. -/
def Execlp.lineText (line : CInt) : List UInt8 := ascii "line = " ++ intText line ++ ascii "\n"

/-- `practice/27.2`: the size given to `snprintf` is the length of the message, which may leave the
array and may cut the line. -/
def Execlp.errPrintf (line : CInt) (msg : CStr) : Option (List UInt8) :=
  let buf := CharArray.ofText 1024 msg.chars
  let size := buf.str.length
  if line = 0 ∨ size = 0 then some buf.str
  else if 1024 < size + min size ((lineText line).length + 1) then none
  else some (buf.writeAt size ((lineText line).take (size - 1) ++ [0])).str

/-! ## What is written -/

variable {n : ℕ} {msg : List UInt8} {pieces : List (List UInt8)}

/-- The pieces one after the other. -/
theorem foldl_snprintfAppend (hn : 0 < n) (hmsg : 0 ∉ msg) (hpieces : ∀ p ∈ pieces, 0 ∉ p) :
    pieces.foldl CharArray.snprintfAppend (CharArray.ofText n msg) =
      CharArray.ofText n (msg ++ pieces.flatten) := by
  induction pieces generalizing msg with
  | nil => rw [List.foldl_nil, List.flatten_nil, List.append_nil]
  | cons p pieces ih =>
    obtain ⟨hp, hrest⟩ := List.forall_mem_cons.mp hpieces
    have happend : 0 ∉ msg ++ p := fun h => (List.mem_append.mp h).elim hmsg hp
    rw [List.foldl_cons, CharArray.snprintfAppend_ofText hn hmsg, ih happend hrest,
      List.flatten_cons, List.append_assoc]

/-- **What a copy writes**: the message and the pieces behind it, cut to the size of the array; and
`vsprintf` leaves the array exactly if the message does not fit into it alone. -/
theorem errPrintf_eq (n : ℕ) (hn : 0 < n) (bounded : Bool) (pieces : List (List UInt8))
    (msg : List UInt8) (hmsg : 0 ∉ msg) (hpieces : ∀ p ∈ pieces, 0 ∉ p) :
    errPrintf n bounded pieces msg =
      if bounded = false ∧ n ≤ msg.length then none
      else some ((msg ++ pieces.flatten).take (n - 1)) := by
  have hall : 0 ∉ msg ++ pieces.flatten := by
    intro h
    rcases List.mem_append.mp h with h | h
    · exact hmsg h
    · obtain ⟨p, hp, hmem⟩ := List.mem_flatten.mp h
      exact hpieces p hp hmem
  rw [errPrintf, foldl_snprintfAppend hn hmsg hpieces, CharArray.str_ofText hn hall]

/-- The copy of `practice/50.2`, with a message of one character. -/
example :
    Madvise.errPrintf 7 ⟨ascii "No", by decide⟩ ⟨ascii "f", by decide⟩ =
      some (ascii "fline is 7 No \n") :=
  (errPrintf_eq 4096 (by decide) false _ _ (by decide) (by decide)).trans (by decide)

/-! ## The copy of `practice/27.2` -/

theorem zero_notMem_intText (line : CInt) : 0 ∉ intText line := by
  have hdecimal := notMem_decimal (c := 0) (by decide) line.toInt.natAbs
  rw [intText]
  split_ifs
  · exact List.not_mem_cons_of_ne_of_not_mem (by decide) hdecimal
  · exact hdecimal

namespace Execlp

theorem zero_notMem_lineText (line : CInt) : 0 ∉ lineText line := by
  simp [lineText, zero_notMem_intText, ascii]

theorem lineText_length_pos (line : CInt) : 0 < (lineText line).length := by
  rw [lineText, List.length_append]
  exact Nat.lt_of_lt_of_le Nat.zero_lt_one (Nat.le_add_left _ _)

/-- A text with its zero byte behind what an array holds. -/
theorem str_writeAt_ofText {text : List UInt8} (hmsg : 0 ∉ msg) (htext : 0 ∉ text)
    (hroom : (msg.take (n - 1)).length + text.length < n) :
    ((CharArray.ofText n msg).writeAt (msg.take (n - 1)).length (text ++ [0])).str =
      msg.take (n - 1) ++ text := by
  obtain ⟨k, hk⟩ : ∃ k, n - (msg.take (n - 1) ++ text).length = k + 1 := by
    rw [List.length_append]
    exact Nat.exists_eq_succ_of_ne_zero (by omega)
  have hboth : 0 ∉ msg.take (n - 1) ++ text := fun h =>
    (List.mem_append.mp h).elim (fun h => hmsg (List.mem_of_mem_take h)) htext
  rw [CharArray.str, CharArray.bytes_writeAt_length (b := CharArray.ofText n msg) rfl,
    ← List.append_assoc, List.append_assoc _ [0], List.singleton_append, List.take_append, hk,
    List.take_of_length_le (by rw [List.length_append]; omega), List.take_succ_cons]
  exact cstr_append_zero hboth _

/-- **What the copy of `practice/27.2` writes**: of the line so much as is shorter than the message;
and when it stores outside of its array. -/
theorem errPrintf_eq_take (line : CInt) (msg : CStr) :
    Execlp.errPrintf line msg =
      if line ≠ 0 ∧ 1024 < min 1023 msg.chars.length +
          min (min 1023 msg.chars.length) ((lineText line).length + 1) then none
      else some (msg.chars.take 1023 ++
        if line = 0 then [] else (lineText line).take (min 1023 msg.chars.length - 1)) := by
  have hstr : (CharArray.ofText 1024 msg.chars).str = msg.chars.take 1023 :=
    CharArray.str_ofText (by decide) msg.zero_notMem
  have hsize : (msg.chars.take 1023).length = min 1023 msg.chars.length := List.length_take
  have hlen : ((lineText line).take (min 1023 msg.chars.length - 1)).length =
      min (min 1023 msg.chars.length - 1) (lineText line).length := List.length_take
  unfold Execlp.errPrintf
  simp only [hstr, hsize]
  by_cases hline : line = 0
  · rw [if_pos (Or.inl hline), if_neg fun h => h.1 hline, if_pos hline, List.append_nil]
  by_cases hzero : min 1023 msg.chars.length = 0
  · -- a size of zero: nothing of the line is stored
    rw [if_pos (Or.inr hzero), if_neg (by omega), if_neg hline, hzero, List.take_zero,
      List.append_nil]
  rw [if_neg (not_or.mpr ⟨hline, hzero⟩), if_neg hline]
  by_cases hout : 1024 < min 1023 msg.chars.length +
      min (min 1023 msg.chars.length) ((lineText line).length + 1)
  · rw [if_pos hout, if_pos ⟨hline, hout⟩]
  · have htext : 0 ∉ (lineText line).take (min 1023 msg.chars.length - 1) := fun h =>
      zero_notMem_lineText line (List.mem_of_mem_take h)
    have hroom : (msg.chars.take 1023).length +
        ((lineText line).take (min 1023 msg.chars.length - 1)).length < 1024 := by
      rw [hsize, hlen]
      omega
    have hwrite := str_writeAt_ofText (n := 1024) msg.zero_notMem htext hroom
    rw [if_neg hout, if_neg fun h => hout h.2, ← hwrite, hsize]

/-- **The line is shown** exactly behind a message that is longer than the line and leaves room for
it. -/
theorem shows_line_iff (line : CInt) (hline : line ≠ 0) (msg : CStr) :
    Execlp.errPrintf line msg = some (msg.chars ++ lineText line) ↔
      (lineText line).length < msg.chars.length ∧
        msg.chars.length + (lineText line).length < 1024 := by
  have hpos := lineText_length_pos line
  rw [errPrintf_eq_take, if_neg hline]
  constructor
  · intro h
    split_ifs at h with hout
    have hlen := congrArg List.length (Option.some.inj h)
    rw [List.length_append, List.length_append, List.length_take, List.length_take] at hlen
    have hin := not_and.mp hout hline
    omega
  · rintro ⟨hlong, hroom⟩
    rw [if_neg (by omega), List.take_of_length_le (by omega), List.take_of_length_le (by omega)]

/-- The message `calloc` of `myExeclp` is shorter than the line. -/
theorem shows_line_iff_calloc :
    (56 : CInt) ≠ 0 ∧ Execlp.errPrintf 56 ⟨ascii "calloc", by decide⟩ ≠
      some (ascii "calloc" ++ lineText 56) :=
  ⟨by decide, fun h => absurd ((shows_line_iff 56 (by decide) _).mp h).1 (by decide)⟩

end Execlp
end ErrPrintf
end CodeStrudy
