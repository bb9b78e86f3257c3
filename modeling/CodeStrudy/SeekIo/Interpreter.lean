import CodeStrudy.Foundation.CInt
import CodeStrudy.Foundation.FileIO
import CodeStrudy.GetNum.GetNum

/-!
# The commands of `seek_io`

`seek_io.c` opens a file and executes the commands on its command line: `r` and `R` read from the
file and print what they read as text or in hexadecimal, `w` writes a string at the file offset, and
`s` moves the offset.

The loop over the commands is headed `for (int i = 2; i++; i < argc)`.  What is tested before each
pass is the old value of `i`, which is not zero, and the comparison with `argc` is the part whose
value nobody uses.  So the first command is passed over, and behind the last argument the loop goes
on with the null pointer there.

## What is proved

* `commands_never_executed`: whatever the arguments, the program does not execute its commands and
  exit.
* `main_eq`: what it does with commands that can all be executed: it executes all but the first, and
  then reads through the null pointer.
-/

namespace CodeStrudy
namespace SeekIo

open Foundation GetNum

/-! ## One command -/

/-- The open file: a regular file and the file offset, which may be behind its end. -/
structure File where
  content : List UInt8
  offset : ℕ
  deriving DecidableEq

/-- A `long` stored in an `int`. -/
def toInt (v : ℤ) : ℤ := (BitVec.ofInt 32 v).toInt

def isprint (c : UInt8) : Bool := 0x20 ≤ c && c ≤ 0x7e

/-- `printf("%02x", (unsigned int)c)` for a `char`, which is signed. -/
def hex02 (c : UInt8) : List UInt8 :=
  let digits := Nat.toDigits 16 ((c.toBitVec.signExtend 32).toNat)
  ascii (String.ofList (List.replicate (2 - digits.length) '0' ++ digits))

/-- What `r` and `R` print of the bytes that were read. -/
def dump (c : UInt8) (buf : List UInt8) : List UInt8 :=
  buf.flatMap (fun b => if c = 0x72 then [if isprint b then b else 0x3f] else hex02 b) ++ [0x0a]

/-- The body of the loop for one argument: the file after it and the text it prints, or `none` when
it ends the process.  `ok` says whether the system calls succeed; a negative length makes `malloc`
fail and a negative offset makes `lseek` fail in any case. -/
def execute (ok : Bool) (arg : CStr) (f : File) : Option (File × List UInt8) :=
  match arg.chars with
  | [] => some (f, [])
  | c :: text =>
    if c = 0x72 ∨ c = 0x52 then
      (getLong text).toOption.bind fun length =>
        if ok ∧ 0 ≤ toInt length then
          if (f.content.drop f.offset).take (toInt length).toNat = [] then
            some (f, arg.chars ++ ascii ": end-of-file\n")
          else
            some ({ f with offset := min (f.offset + (toInt length).toNat) f.content.length },
              dump c ((f.content.drop f.offset).take (toInt length).toNat))
        else none
    else if c = 0x77 then
      if ok then
        some (⟨writeAt f.content f.offset text, f.offset + text.length⟩,
          arg.chars ++ ascii s!": wrote {text.length} bytes\n")
      else none
    else if c = 0x73 then
      (getLong text).toOption.bind fun offset =>
        if ok ∧ 0 ≤ f.offset + toInt offset then
          some ({ f with offset := (f.offset + toInt offset).toNat },
            arg.chars ++ ascii ": seek successed\n")
        else none
    else some (f, [])

/-- A command as the usage text has it, with a number that an `int` holds. -/
def wellFormed (arg : CStr) : Bool :=
  match arg.chars with
  | [] => false
  | c :: text =>
    if c = 0x72 ∨ c = 0x52 then
      (getLong text).toOption.any fun length => 0 ≤ length ∧ toInt length = length
    else if c = 0x73 then (getLong text).toOption.any fun offset => toInt offset = offset
    else c = 0x77

/-! ## The program -/

/-- What has been done so far: the file, what has been printed, and which commands have been
executed. -/
structure State where
  file : File
  out : List UInt8
  executed : List CStr

/-- How a run ends.  It is undefined when it reads through the null pointer behind the
arguments. -/
inductive Outcome where
  | success
  | failure
  | undefined
  deriving DecidableEq

/-- A command has been executed. -/
def State.record (s : State) (arg : CStr) (effect : File × List UInt8) : State :=
  ⟨effect.1, s.out ++ effect.2, s.executed ++ [arg]⟩

/-- The loop of `main`, with `i` as it is when the loop's condition is evaluated.  The condition
`i++` is true unless `i` was zero, and the body sees the next `i`. -/
def forLoop (argv : List CStr) (ok : ℕ → Bool) (i : ℕ) (s : State) : Outcome × State :=
  if i = 0 then (.success, s)
  else
    match _h : argv[i + 1]? with
    | none => (.undefined, s)
    | some arg =>
      match execute (ok (i + 1)) arg s.file with
      | none => (.failure, s)
      | some effect => forLoop argv ok (i + 1) (s.record arg effect)
termination_by argv.length - i
decreasing_by
  have hlt := (List.getElem?_eq_some_iff.mp _h).1
  omega

/-- The bytes of `"--help"`. -/
def helpFlag : List UInt8 := ascii "--help"

/-- Whether the program prints its usage and exits. -/
def usageError (argv : List CStr) : Bool :=
  charArgc argv.length < 3 || argv[1]?.map CStr.chars == some helpFlag

/-- The file is open, and nothing has been done. -/
def opened (content : List UInt8) : State := ⟨⟨content, 0⟩, [], []⟩

/-- The program, called with `argv` on a file with the given content.  `opens` says whether `open`
succeeds, and `ok i` whether the system calls made for `argv[i]` do. -/
def main (argv : List CStr) (opens : Bool) (ok : ℕ → Bool) (content : List UInt8) :
    Outcome × State :=
  if usageError argv then (.failure, opened content)
  else if opens then forLoop argv ok 2 (opened content)
  else (.failure, opened content)

/-! ## What it should do -/

/-- The commands executed one after the other. -/
def executeAll (args : List CStr) (s : State) : Option State :=
  args.foldlM (fun s arg => (execute true arg s.file).map (s.record arg)) s

/-- The program executes exactly its commands, each once and in order, and exits successfully. -/
def Executes (argv : List CStr) (content : List UInt8) (run : Outcome × State) : Prop :=
  run.1 = .success ∧ executeAll (argv.drop 2) (opened content) = some run.2

/-! ## What it does -/

section Loop

variable {argv : List CStr} {ok : ℕ → Bool} {i : ℕ}

theorem forLoop_of_none (hi : i ≠ 0) (harg : argv[i + 1]? = none) (s : State) :
    forLoop argv ok i s = (.undefined, s) := by
  rw [forLoop, if_neg hi]
  split
  · rfl
  · rename_i hsome
    exact absurd (harg.symm.trans hsome) (Option.some_ne_none _).symm

theorem forLoop_of_some (hi : i ≠ 0) {arg : CStr} (harg : argv[i + 1]? = some arg) (s : State) :
    forLoop argv ok i s =
      match execute (ok (i + 1)) arg s.file with
      | none => (.failure, s)
      | some effect => forLoop argv ok (i + 1) (s.record arg effect) := by
  rw [forLoop, if_neg hi]
  split
  · rename_i hnone
    exact absurd (hnone.symm.trans harg) (Option.some_ne_none _).symm
  · rename_i arg' hsome
    obtain rfl := Option.some.inj (hsome.symm.trans harg)
    rfl

/-- The loop is never left at its condition. -/
theorem forLoop_ne_success (hi : i ≠ 0) (s : State) : (forLoop argv ok i s).1 ≠ .success := by
  induction i, s using forLoop.induct argv ok with
  | case1 s => exact absurd rfl hi
  | case2 i s _ hnone =>
    rw [forLoop_of_none hi hnone]
    exact Outcome.noConfusion
  | case3 i s _ arg harg hfail =>
    rw [forLoop_of_some hi harg, hfail]
    exact Outcome.noConfusion
  | case4 i s _ arg harg effect heffect ih =>
    rw [forLoop_of_some hi harg, heffect]
    exact ih (Nat.succ_ne_zero i)

/-- Where there is an argument it is the first of the rest. -/
theorem drop_of_some {arg : CStr} (harg : argv[i + 1]? = some arg) :
    argv.drop (i + 1) = arg :: argv.drop (i + 1 + 1) := by
  obtain ⟨hlt, hget⟩ := List.getElem?_eq_some_iff.mp harg
  rw [List.drop_eq_getElem_cons hlt, hget]

/-- Commands that can all be executed are executed from `argv[i + 1]` on, and then the loop goes on
behind the arguments. -/
theorem forLoop_eq (hok : ∀ j, ok j = true) (hi : i ≠ 0) {s t : State}
    (hall : executeAll (argv.drop (i + 1)) s = some t) :
    forLoop argv ok i s = (.undefined, t) := by
  induction i, s using forLoop.induct argv ok with
  | case1 s => exact absurd rfl hi
  | case2 i s _ hnone =>
    rw [List.drop_of_length_le (List.getElem?_eq_none_iff.mp hnone)] at hall
    rw [forLoop_of_none hi hnone, Option.some.inj hall]
  | case3 i s _ arg harg hfail =>
    rw [hok] at hfail
    rw [drop_of_some harg, executeAll, List.foldlM_cons, hfail] at hall
    cases hall
  | case4 i s _ arg harg effect heffect ih =>
    rw [forLoop_of_some hi harg, heffect]
    rw [hok] at heffect
    rw [drop_of_some harg, executeAll, List.foldlM_cons, heffect] at hall
    exact ih (Nat.succ_ne_zero i) hall

/-- What the loop executes is a beginning of the arguments from `argv[i + 1]` on. -/
theorem forLoop_executed (argv : List CStr) (ok : ℕ → Bool) {i : ℕ} (hi : i ≠ 0) (s : State) :
    ∃ args, args <+: argv.drop (i + 1) ∧
      (forLoop argv ok i s).2.executed = s.executed ++ args := by
  induction i, s using forLoop.induct argv ok with
  | case1 s => exact absurd rfl hi
  | case2 i s _ hnone =>
    rw [forLoop_of_none hi hnone]
    exact ⟨[], List.nil_prefix, (List.append_nil _).symm⟩
  | case3 i s _ arg harg hfail =>
    rw [forLoop_of_some hi harg, hfail]
    exact ⟨[], List.nil_prefix, (List.append_nil _).symm⟩
  | case4 i s _ arg harg effect heffect ih =>
    obtain ⟨args, hargs, hexec⟩ := ih (Nat.succ_ne_zero i)
    rw [forLoop_of_some hi harg, heffect]
    refine ⟨arg :: args, ?_, ?_⟩
    · rw [drop_of_some harg]
      exact (List.prefix_cons_inj arg).mpr hargs
    · rw [hexec, State.record, List.append_assoc, List.singleton_append]

end Loop

/-- `argv[2]` is passed over: what is executed is a beginning of the arguments behind it. -/
theorem executed_isPrefix (argv : List CStr) (opens : Bool) (ok : ℕ → Bool)
    (content : List UInt8) : (main argv opens ok content).2.executed <+: argv.drop 3 := by
  unfold main
  split_ifs
  · exact List.nil_prefix
  · obtain ⟨args, hargs, hexec⟩ := forLoop_executed argv ok (Nat.succ_ne_zero 1) (opened content)
    rw [hexec]
    exact hargs
  · exact List.nil_prefix

/-- No run of the program ends successfully. -/
theorem main_ne_success (argv : List CStr) (opens : Bool) (ok : ℕ → Bool)
    (content : List UInt8) : (main argv opens ok content).1 ≠ .success := by
  unfold main
  split_ifs
  · exact Outcome.noConfusion
  · exact forLoop_ne_success (Nat.succ_ne_zero 1) _
  · exact Outcome.noConfusion

/-- **What the loop header makes of a run.**  When the file can be opened and all commands but the
first can be executed, these are what is executed, and then the program reads through the null
pointer behind its arguments. -/
theorem main_eq {argv : List CStr} {content : List UInt8} {t : State} {ok : ℕ → Bool}
    (husage : usageError argv = false) (hok : ∀ j, ok j = true)
    (hall : executeAll (argv.drop 3) (opened content) = some t) :
    main argv true ok content = (.undefined, t) := by
  rw [main, husage]
  exact forLoop_eq hok (Nat.succ_ne_zero 1) hall

/-- **The commands are never executed as they should be.** -/
theorem commands_never_executed (argv : List CStr) (opens : Bool) (ok : ℕ → Bool)
    (content : List UInt8) : ¬ Executes argv content (main argv opens ok content) :=
  fun h => main_ne_success argv opens ok content h.1

/-- `seek_io file wx`: one well-formed command, and nothing fails. -/
theorem one_write_not_executed :
    ¬ ∀ (argv : List CStr) (content : List UInt8), usageError argv = false →
      (∀ arg ∈ argv.drop 2, wellFormed arg) →
      (executeAll (argv.drop 2) (opened content)).isSome →
      Executes argv content (main argv true (fun _ => true) content) := by
  intro h
  refine main_ne_success _ true _ _ (h [⟨ascii "seek_io", by decide⟩, ⟨ascii "file", by decide⟩,
    ⟨ascii "wx", by decide⟩] [] (by decide) ?_ (by decide)).1
  intro arg harg
  obtain rfl := List.mem_singleton.mp harg
  decide

end SeekIo
end CodeStrudy
