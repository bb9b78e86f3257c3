import CodeStrudy.Foundation.Getopt
import CodeStrudy.GetNum.GetNum

/-!
# The options of `t_mount`

`routines/14.4.t_mount` mounts a file system.  Its options `-t`, `-o` and `-f` all have an argument,
and the argument of `-f` is a string of letters, each of them a flag.  But the option string that
`getopt` is called with is `"o:t:f"`, without a colon behind the last letter: for `-f` there is no
argument, and its length is asked for through a null pointer.

## What is proved

* `meets_iff`: a command line does what its words say exactly if no `-f` comes up before a wrong
  letter, and `argc` is not cut or there is a wrong letter anyway.
* `meets_of_colon`: with the colon every command line of at most 127 words does.
-/

namespace CodeStrudy
namespace TMount

open Foundation GetNum Getopt

/-! ## The program -/

def MS_RDONLY : BitVec 64 := 1

def MS_NOSUID : BitVec 64 := 2

def MS_NODEV : BitVec 64 := 4

def MS_NOEXEC : BitVec 64 := 8

def MS_SYNCHRONOUS : BitVec 64 := 16

def MS_REMOUNT : BitVec 64 := 32

def MS_MANDLOCK : BitVec 64 := 64

def MS_DIRSYNC : BitVec 64 := 128

def MS_NOATIME : BitVec 64 := 1024

def MS_NODIRATIME : BitVec 64 := 2048

def MS_BIND : BitVec 64 := 4096

def MS_MOVE : BitVec 64 := 8192

def MS_REC : BitVec 64 := 16384

/-- The flag for a letter. -/
def flagOf? (c : UInt8) : Option (BitVec 64) :=
  if c = 0x62 then some MS_BIND             -- b
  else if c = 0x64 then some MS_DIRSYNC     -- d
  else if c = 0x6c then some MS_MANDLOCK    -- l
  else if c = 0x6d then some MS_MOVE        -- m
  else if c = 0x41 then some MS_NOATIME     -- A
  else if c = 0x56 then some MS_NODEV       -- V
  else if c = 0x44 then some MS_NODIRATIME  -- D
  else if c = 0x45 then some MS_NOEXEC      -- E
  else if c = 0x53 then some MS_NOSUID      -- S
  else if c = 0x72 then some MS_RDONLY      -- r
  else if c = 0x63 then some MS_REC         -- c
  else if c = 0x52 then some MS_REMOUNT     -- R
  else if c = 0x73 then some MS_SYNCHRONOUS -- s
  else none

/-- The variables that the options set. -/
structure Settings where
  data : Option Word
  fstype : Option Word
  flags : BitVec 64
  deriving DecidableEq

/-- The arguments of `mount`. -/
structure MountCall where
  source : Word
  target : Word
  fstype : Option Word
  flags : BitVec 64
  data : Option Word
  deriving DecidableEq

/-- How the program ends: in `usageErr` with its message, in `mount`, whose result only decides on
the exit status, or by the use of a null pointer. -/
inductive Outcome where
  | usage (msg : Option String)
  | mount (call : MountCall)
  | undefined
  deriving DecidableEq

/-- The body of the loop over the letters of an argument of `-f`. -/
def addFlag (flags : BitVec 64) (c : UInt8) : Except Outcome (BitVec 64) :=
  (flagOf? c).elim (.error (.usage none)) fun flag => .ok (flags ||| flag)

/-- The body of the loop over the options. -/
def option (s : Settings) (opt : Opt) : Except Outcome Settings :=
  if opt.letter = 0x6f then .ok { s with data := opt.optarg }
  else if opt.letter = 0x74 then .ok { s with fstype := opt.optarg }
  else if opt.letter = 0x66 then
    opt.optarg.elim (.error .undefined) fun optarg =>
      (optarg.foldlM addFlag s.flags).map fun flags => { s with flags := flags }
  else .error (.usage none)

/-- What the loop makes of the calls of `getopt`: the settings, and the operands that are left. -/
def result (scan : Scan) (s : Settings) : Except Outcome (Settings × List Word) :=
  (scan.opts.foldlM option s).map fun s => (s, scan.operands)

/-- The loop over the options, with the option string that it calls `getopt` with. -/
def run (permute : Bool) (optstring : Word) (words : List Word) (s : Settings) :
    Except Outcome (Settings × List Word) :=
  result (getopt permute optstring words) s

/-- The program behind the loop: the operands are `argv[optind]` and those after it. -/
def finish (argc : ℤ) : Except Outcome (Settings × List Word) → Outcome
  | .error outcome => outcome
  | .ok (s, operands) =>
    if argc ≠ optind argc operands + 2 then .usage (some "Woring number of arguments\n")
    else .mount ⟨operands.getD 0 [], operands.getD 1 [], s.fstype, s.flags, s.data⟩

def program (optstring : Word) (permute : Bool) (argv : List Word) : Outcome :=
  let argc := charArgc argv.length
  finish argc (run permute optstring ((argv.take argc.toNat).drop 1) ⟨none, none, 0⟩)

/-- The option string of the program. -/
def optstring : Word := ascii "o:t:f"

def main (permute : Bool) (argv : List Word) : Outcome := program optstring permute argv

/-! ## What the words of a command line say -/

/-- The three options. -/
inductive Letter where
  | o
  | t
  | f
  deriving DecidableEq

def Letter.char : Letter → UInt8
  | .o => 0x6f
  | .t => 0x74
  | .f => 0x66

/-- A part of a command line: an option and its argument, in the same word or, if it is not to be or
is empty, in the next one; or a word with another letter. -/
inductive Item where
  | opt (letter : Letter) (attached : Bool) (arg : Word)
  | other (c : UInt8) (rest : Word) (hc : c ≠ 0x6f ∧ c ≠ 0x74 ∧ c ≠ 0x66 ∧ c ≠ 0x2d)

namespace Item

/-- The words of a part. -/
def words : Item → List Word
  | opt letter attached arg =>
    if attached ∧ arg ≠ [] then [0x2d :: letter.char :: arg] else [[0x2d, letter.char], arg]
  | other c rest _ => [0x2d :: c :: rest]

/-- The argument of an option. -/
def arg? (letter : Letter) : Item → Option Word
  | opt letter' _ arg => if letter' = letter then some arg else none
  | other .. => none

/-- A letter that is neither an option nor a flag, where an option or a flag should be. -/
def Wrong : Item → Prop
  | opt letter _ arg => letter = .f ∧ ∃ c ∈ arg, flagOf? c = none
  | other .. => True

/-- A word whose letter is no option. -/
def IsOther : Item → Prop
  | opt .. => False
  | other .. => True

/-- A `-f`. -/
def IsF : Item → Prop
  | opt letter .. => letter = .f
  | other .. => False

end Item

/-- A word that is not taken for an option. -/
structure Operand where
  word : Word
  isOperand : IsOperand word

/-- The words of a command line. -/
def commandLine (name : Word) (items : List Item) (source target : Operand) : List Word :=
  name :: (items.flatMap Item.words ++ [source.word, target.word])

/-- The arguments of all options with a letter. -/
def args (letter : Letter) (items : List Item) : List Word := items.filterMap (Item.arg? letter)

/-- What `mount` is to be called with. -/
def mountCall (items : List Item) (source target : Operand) : MountCall where
  source := source.word
  target := target.word
  fstype := (args .t items).getLast?
  flags := ((args .f items).flatten.filterMap flagOf?).foldl (· ||| ·) 0
  data := (args .o items).getLast?

/-- The program does what the words say. -/
def Meets (outcome : Outcome) (items : List Item) (source target : Operand) : Prop :=
  ((∃ item ∈ items, item.Wrong) ∧ ∃ msg, outcome = .usage msg) ∨
    (¬ (∃ item ∈ items, item.Wrong) ∧ outcome = .mount (mountCall items source target))

/-! ## The loop over the options -/

/-- The settings after options that are read with their arguments. -/
def after (s : Settings) (items : List Item) : Settings where
  data := (args .o items).getLast?.or s.data
  fstype := (args .t items).getLast?.or s.fstype
  flags := ((args .f items).flatten.filterMap flagOf?).foldl (· ||| ·) s.flags

/-- An option that is read with its argument and has no wrong letter in it. -/
def Plain (optstring : Word) : Item → Prop
  | .opt letter _ arg =>
    takesArg? optstring letter.char = some true ∧ (letter = .f → ∀ c ∈ arg, flagOf? c ≠ none)
  | .other .. => False

variable {permute : Bool} {letters : Word} {words ws : List Word} {items : List Item}
  {item : Item} {s : Settings}

theorem after_cons (s : Settings) (item : Item) (items : List Item) :
    after s (item :: items) = after (after s [item]) items := by
  have hargs : ∀ letter, args letter (item :: items) = args letter [item] ++ args letter items := by
    intro letter
    exact List.filterMap_append (l := [item])
  simp only [after, hargs, List.getLast?_append, Option.or_assoc, List.flatten_append,
    List.filterMap_append, List.foldl_append]

theorem result_cons (opt : Opt) (opts : List Opt) (operands : List Word) (s : Settings) :
    result ⟨opt :: opts, operands⟩ s = option s opt >>= result ⟨opts, operands⟩ := by
  show ((opt :: opts).foldlM option s).map _ = _
  rw [List.foldlM_cons]
  cases option s opt <;> rfl

theorem result_of_head? {scan : Scan} {opt : Opt} {outcome : Outcome}
    (h : scan.opts.head? = some opt) (hopt : option s opt = .error outcome) :
    result scan s = .error outcome := by
  obtain ⟨_ | ⟨o, opts⟩, operands⟩ := scan
  · cases h
  · obtain rfl : o = opt := Option.some.inj h
    rw [result_cons, hopt]
    rfl

/-! ### One part of the command line -/

theorem Letter.char_ne (letter : Letter) : letter.char ≠ 0x2d := by cases letter <;> decide

theorem foldlM_addFlag {arg : Word} (h : ∀ c ∈ arg, flagOf? c ≠ none) (flags : BitVec 64) :
    arg.foldlM addFlag flags = .ok ((arg.filterMap flagOf?).foldl (· ||| ·) flags) := by
  induction arg generalizing flags with
  | nil => rfl
  | cons c arg ih =>
    rw [List.forall_mem_cons] at h
    obtain ⟨flag, hflag⟩ := Option.ne_none_iff_exists'.mp h.1
    have hstep : addFlag flags c = .ok (flags ||| flag) := by rw [addFlag, hflag, Option.elim_some]
    rw [List.foldlM_cons, hstep, List.filterMap_cons_some hflag, List.foldl_cons]
    exact ih h.2 _

/-- An argument with a wrong letter ends the program. -/
theorem foldlM_addFlag_error {arg : Word} (h : ∃ c ∈ arg, flagOf? c = none) (flags : BitVec 64) :
    arg.foldlM addFlag flags = .error (.usage none) := by
  induction arg generalizing flags with
  | nil => exact absurd h (by simp)
  | cons c arg ih =>
    rw [List.foldlM_cons, addFlag]
    cases hflag : flagOf? c with
    | none => rfl
    | some flag =>
      rw [List.exists_mem_cons_iff, hflag] at h
      exact ih (h.resolve_left (Option.some_ne_none flag)) _

/-- An option with its argument. -/
theorem option_plain {letter : Letter} {attached : Bool} {arg : Word}
    (h : Plain letters (.opt letter attached arg)) (s : Settings) :
    option s ⟨letter.char, some arg⟩ = .ok (after s [.opt letter attached arg]) := by
  cases letter with
  | o => rfl
  | t => rfl
  | f =>
    show (arg.foldlM addFlag s.flags).map _ = _
    rw [foldlM_addFlag (h.2 rfl)]
    simp [after, args, Item.arg?, Except.map]

/-- The words of an option that has an argument, whichever way it is written. -/
theorem getopt_opt {letter : Letter} (h : takesArg? letters letter.char = some true)
    (attached : Bool) (arg : Word) (ws : List Word) :
    getopt permute letters ((Item.opt letter attached arg).words ++ ws) =
      ⟨⟨letter.char, some arg⟩ :: (getopt permute letters ws).opts,
        (getopt permute letters ws).operands⟩ := by
  rw [Item.words]
  split_ifs with hattached
  · exact getopt_attached h hattached.2
  · exact getopt_separate h letter.char_ne

theorem run_plain (h : Plain letters item) (ws : List Word) (s : Settings) :
    run permute letters (item.words ++ ws) s = run permute letters ws (after s [item]) := by
  cases item with
  | other => exact h.elim
  | opt letter attached arg =>
    rw [run, getopt_opt h.1, result_cons, option_plain h]
    rfl

/-- Options that are read with their arguments leave the rest of the command line to the loop. -/
theorem run_append (h : ∀ item ∈ items, Plain letters item) (ws : List Word) (s : Settings) :
    run permute letters (items.flatMap Item.words ++ ws) s =
      run permute letters ws (after s items) := by
  induction items generalizing s with
  | nil => rfl
  | cons item items ih =>
    rw [List.forall_mem_cons] at h
    rw [List.flatMap_cons, List.append_assoc, run_plain h.1, ih h.2, ← after_cons]

theorem run_operands (source target : Operand) (s : Settings) :
    run permute letters [source.word, target.word] s =
      .ok (s, [source.word, target.word]) := by
  rw [run, getopt_operands]
  · rfl
  · simp [source.isOperand, target.isOperand]

/-- A word with another letter. -/
theorem run_other {c : UInt8} {rest : Word} (hc : c ≠ 0x6f ∧ c ≠ 0x74 ∧ c ≠ 0x66 ∧ c ≠ 0x2d)
    (hnone : takesArg? letters c = none) (ws : List Word) (s : Settings) :
    run permute letters ((0x2d :: c :: rest) :: ws) s = .error (.usage none) :=
  result_of_head? (getopt_unknown hnone hc.2.2.2) rfl

/-- `-f` without an argument. -/
theorem run_f (h : takesArg? letters 0x66 = some false) (rest : Word) (ws : List Word)
    (s : Settings) :
    run permute letters ((0x2d :: 0x66 :: rest) :: ws) s = .error .undefined :=
  result_of_head? (getopt_flag h (by decide)) rfl

/-- A command line that is cut off behind options with arguments has no operands; it may end with an
option whose argument is missing. -/
theorem run_take (h : ∀ item ∈ items, Plain letters item) (k : ℕ)
    (hk : k ≤ (items.flatMap Item.words).length) (s : Settings) :
    run permute letters ((items.flatMap Item.words).take k) s = .error (.usage none) ∨
      ∃ s', run permute letters ((items.flatMap Item.words).take k) s = .ok (s', []) := by
  induction items generalizing k s with
  | nil =>
    rw [List.flatMap_nil, List.take_nil]
    exact .inr ⟨s, rfl⟩
  | cons item items ih =>
    rw [List.forall_mem_cons] at h
    rw [List.flatMap_cons] at hk ⊢
    rw [List.length_append] at hk
    rcases le_or_gt item.words.length k with hlen | hlen
    · rw [List.take_append, List.take_of_length_le hlen, run_plain h.1]
      exact ih h.2 _ (by omega) _
    · -- the cut is within the words of this option
      rw [List.take_append_of_le_length hlen.le]
      cases item with
      | other => exact h.1.elim
      | opt letter attached arg =>
        obtain _ | k := k
        · exact .inr ⟨s, rfl⟩
        · rw [Item.words] at hlen ⊢
          split_ifs at hlen ⊢ with hattached
          · exact absurd hlen (by simp)
          · obtain rfl : k = 0 := by
              have : k + 1 < 2 := hlen
              omega
            left
            rw [List.take_succ_cons, List.take_zero, run, getopt_missing h.1.1 letter.char_ne]
            rfl

/-! ## The option string of the program -/

theorem optstring_eq : optstring = [0x6f, 0x3a, 0x74, 0x3a, 0x66] := by decide +kernel

theorem takesArg?_f : takesArg? optstring 0x66 = some false := by
  rw [optstring_eq]
  decide

theorem takesArg?_other {c : UInt8} (hc : c ≠ 0x6f ∧ c ≠ 0x74 ∧ c ≠ 0x66 ∧ c ≠ 0x2d) :
    takesArg? optstring c = none := by
  rw [optstring_eq]
  simp [takesArg?, hc.1, hc.2.1, hc.2.2.1]

theorem plain_iff : Plain optstring item ↔ ¬ item.IsOther ∧ ¬ item.IsF := by
  cases item with
  | other => exact iff_of_false not_false fun h => h.1 trivial
  | opt letter attached arg =>
    cases letter with
    | o => exact iff_of_true ⟨by rw [optstring_eq]; decide, nofun⟩ ⟨not_false, nofun⟩
    | t => exact iff_of_true ⟨by rw [optstring_eq]; decide, nofun⟩ ⟨not_false, nofun⟩
    | f =>
      refine iff_of_false (fun h => ?_) fun h => h.2 rfl
      have hf : takesArg? optstring 0x66 = some true := h.1
      rw [takesArg?_f] at hf
      cases hf

/-- Of the first `k` words one is a `-f`, and no word before it has a letter that is no option. -/
def ReachesF (k : ℕ) (items : List Item) : Prop :=
  ∃ before item behind, items = before ++ item :: behind ∧ item.IsF ∧
    (∀ i ∈ before, ¬ i.IsOther ∧ ¬ i.IsF) ∧ (before.flatMap Item.words).length < k

theorem words_f (attached : Bool) (arg : Word) :
    ∃ rest ws, (Item.opt .f attached arg).words = (0x2d :: 0x66 :: rest) :: ws := by
  rw [Item.words]
  split_ifs
  · exact ⟨_, _, rfl⟩
  · exact ⟨_, _, rfl⟩

theorem run_take_f (h : item.IsF) {k : ℕ} (hk : 0 < k) (ws : List Word) (s : Settings) :
    run permute optstring ((item.words ++ ws).take k) s = .error .undefined := by
  obtain ⟨k, rfl⟩ := Nat.exists_eq_add_of_lt hk
  cases item with
  | other => exact h.elim
  | opt letter attached arg =>
    obtain rfl : letter = .f := h
    obtain ⟨rest, ws', hwords⟩ := words_f attached arg
    rw [hwords, List.cons_append, Nat.zero_add, List.take_succ_cons]
    exact run_f takesArg?_f rest _ s

theorem run_take_other (h : item.IsOther) {k : ℕ} (hk : 0 < k) (ws : List Word) (s : Settings) :
    run permute optstring ((item.words ++ ws).take k) s = .error (.usage none) := by
  obtain ⟨k, rfl⟩ := Nat.exists_eq_add_of_lt hk
  cases item with
  | opt => exact h.elim
  | other c rest hc =>
    rw [Nat.zero_add]
    exact run_other hc (takesArg?_other hc) _ s

/-- Either all parts are options that are read with their arguments, or there is a first other one.
-/
theorem exists_first (letters : Word) (items : List Item) :
    (∀ item ∈ items, Plain letters item) ∨
      ∃ before item behind, items = before ++ item :: behind ∧
        (∀ i ∈ before, Plain letters i) ∧ ¬ Plain letters item := by
  induction items with
  | nil => exact .inl fun _ h => absurd h List.not_mem_nil
  | cons item items ih =>
    by_cases hitem : Plain letters item
    · rcases ih with hall | ⟨before, first, behind, rfl, hbefore, hfirst⟩
      · exact .inl (List.forall_mem_cons.mpr ⟨hitem, hall⟩)
      · exact .inr ⟨item :: before, first, behind, rfl, List.forall_mem_cons.mpr ⟨hitem, hbefore⟩,
          hfirst⟩
    · exact .inr ⟨[], item, items, rfl, fun _ h => absurd h List.not_mem_nil, hitem⟩

/-- The first `k` words of a command line when the first part that is not plain begins in them. -/
theorem run_take_append {before : List Item} (hbefore : ∀ i ∈ before, Plain letters i) {k : ℕ}
    (hk : (before.flatMap Item.words).length ≤ k) (ws : List Word) (s : Settings) :
    run permute letters ((before.flatMap Item.words ++ ws).take k) s =
      run permute letters (ws.take (k - (before.flatMap Item.words).length)) (after s before) := by
  rw [List.take_append, List.take_of_length_le hk, run_append hbefore]

theorem run_take_of_reachesF {k : ℕ} (h : ReachesF k items) (ws : List Word) (s : Settings) :
    run permute optstring ((items.flatMap Item.words ++ ws).take k) s = .error .undefined := by
  obtain ⟨before, item, behind, rfl, hitem, hbefore, hk⟩ := h
  rw [List.flatMap_append, List.append_assoc,
    run_take_append (fun i hi => plain_iff.mpr (hbefore i hi)) hk.le, List.flatMap_cons,
    List.append_assoc, run_take_f hitem (by omega)]

theorem reachesF_of_not_plain {before behind : List Item}
    (hbefore : ∀ i ∈ before, Plain optstring i) (hitem : ¬ Plain optstring item) {k : ℕ}
    (hk : (before.flatMap Item.words).length < k)
    (hnot : ¬ ReachesF k (before ++ item :: behind)) : item.IsOther := by
  by_contra hother
  refine hitem (plain_iff.mpr ⟨hother, fun hf => hnot ?_⟩)
  exact ⟨before, item, behind, rfl, hf, fun i hi => plain_iff.mp (hbefore i hi), hk⟩

/-- A command line that is cut off before its operands ends with the usage, or has no operands. -/
theorem run_take_of_le (permute : Bool) {k : ℕ} (h : ¬ ReachesF k items)
    (hk : k ≤ (items.flatMap Item.words).length) (s : Settings) :
    run permute optstring ((items.flatMap Item.words).take k) s = .error (.usage none) ∨
      ∃ s', run permute optstring ((items.flatMap Item.words).take k) s = .ok (s', []) := by
  rcases exists_first optstring items with hall | ⟨before, item, behind, rfl, hbefore, hitem⟩
  · exact run_take hall k hk s
  · rcases le_or_gt k (before.flatMap Item.words).length with hle | hlt
    · rw [List.flatMap_append, List.take_append_of_le_length hle]
      exact run_take hbefore k hle s
    · have hother := reachesF_of_not_plain hbefore hitem hlt h
      rw [List.flatMap_append, run_take_append hbefore hlt.le, List.flatMap_cons,
        run_take_other hother (by omega)]
      exact .inl rfl

theorem not_wrong_of_plain (h : Plain letters item) : ¬ item.Wrong := by
  cases item with
  | other => exact h.elim
  | opt letter attached arg =>
    rintro ⟨hf, c, hc, hnone⟩
    exact h.2 hf c hc hnone

theorem length_words_pos (item : Item) : 0 < item.words.length := by
  cases item with
  | other => exact Nat.one_pos
  | opt letter attached arg =>
    rw [Item.words]
    split_ifs
    · exact Nat.one_pos
    · exact Nat.two_pos

/-- A whole command line ends with the usage if there is a wrong word, and otherwise comes to its
operands. -/
theorem run_of_not_reachesF (permute : Bool) {k : ℕ} (hk : (items.flatMap Item.words).length ≤ k)
    (h : ¬ ReachesF k items) (ws : List Word) (s : Settings) :
    ((∃ item ∈ items, item.Wrong) ∧
        run permute optstring (items.flatMap Item.words ++ ws) s = .error (.usage none)) ∨
      (¬ (∃ item ∈ items, item.Wrong) ∧
        run permute optstring (items.flatMap Item.words ++ ws) s =
          run permute optstring ws (after s items)) := by
  rcases exists_first optstring items with hall | ⟨before, item, behind, rfl, hbefore, hitem⟩
  · refine .inr ⟨?_, run_append hall ws s⟩
    rintro ⟨item, hmem, hwrong⟩
    exact not_wrong_of_plain (hall item hmem) hwrong
  · rw [List.flatMap_append, List.flatMap_cons, List.length_append, List.length_append] at hk
    have hpos := length_words_pos item
    have hother := reachesF_of_not_plain hbefore hitem (by omega) h
    refine .inl ⟨⟨item, by simp, ?_⟩, ?_⟩
    · cases item with
      | opt => exact hother.elim
      | other => trivial
    · rw [List.flatMap_append, List.append_assoc, run_append hbefore, List.flatMap_cons,
        List.append_assoc,
        ← List.take_length (l := item.words ++ (behind.flatMap Item.words ++ ws))]
      refine run_take_other hother ?_ _ _
      rw [List.length_append]
      exact Nat.lt_add_right _ hpos

/-! ## The program -/

variable {name : Word} {source target : Operand}

/-- The words that the program sees behind its name. -/
def seen (rest : List Word) : List Word := rest.take ((charArgc (rest.length + 1)).toNat - 1)

theorem program_eq (letters : Word) (permute : Bool) (name : Word) (rest : List Word) :
    program letters permute (name :: rest) =
      finish (charArgc (rest.length + 1)) (run permute letters (seen rest) ⟨none, none, 0⟩) := by
  show finish _ (run _ _ (((name :: rest).take _).drop 1) _) = _
  rw [List.drop_take]
  rfl

/-- With all words in sight and two operands, `mount` is called. -/
theorem finish_two {argc : ℤ} (h : 1 ≤ argc) (source target : Word) (s : Settings) :
    finish argc (.ok (s, [source, target])) =
      .mount ⟨source, target, s.fstype, s.flags, s.data⟩ := by
  have hcount : argc = optind argc [source, target] + 2 := by
    rw [optind, if_neg (by omega)]
    show argc = argc - 2 + 2
    omega
  rw [finish, if_neg (not_not_intro hcount)]
  rfl

/-- Without operands the count is wrong. -/
theorem finish_nil (argc : ℤ) (s : Settings) :
    finish argc (.ok (s, [])) = .usage (some "Woring number of arguments\n") := by
  have hcount : argc ≠ optind argc [] + 2 := by
    unfold optind
    split_ifs with h
    · omega
    · show argc ≠ argc - 0 + 2
      omega
  rw [finish, if_pos hcount]

/-- If all words are counted, the program sees all of them. -/
theorem seen_of_le {rest : List Word} (h : rest.length + 1 ≤ 127) : seen rest = rest := by
  rw [seen, charArgc_of_le h]
  exact List.take_of_length_le (by omega)

/-- Otherwise it sees none of the operands. -/
theorem seen_of_lt (ws : List Word) {ops : List Word} (hops : ops.length ≤ 2)
    (h : 127 < (ws ++ ops).length + 1) :
    seen (ws ++ ops) = ws.take ((charArgc ((ws ++ ops).length + 1)).toNat - 1) ∧
      (charArgc ((ws ++ ops).length + 1)).toNat - 1 ≤ ws.length := by
  have hcount := charArgc_add_le h
  have hle : (charArgc ((ws ++ ops).length + 1)).toNat - 1 ≤ ws.length := by
    rw [List.length_append] at hcount h ⊢
    omega
  exact ⟨List.take_append_of_le_length hle, hle⟩

/-- The settings after all options are those that the words say. -/
theorem finish_after (items : List Item) (source target : Operand) {argc : ℤ} (h : 1 ≤ argc) :
    finish argc (.ok (after ⟨none, none, 0⟩ items, [source.word, target.word])) =
      .mount (mountCall items source target) := by
  rw [finish_two h]
  simp only [after, Option.or_none, mountCall]

/-- The usage is right exactly for a command line with a wrong word. -/
theorem meets_of_usage {msg : Option String} :
    Meets (.usage msg) items source target ↔ ∃ item ∈ items, item.Wrong := by
  constructor
  · rintro (⟨h, -⟩ | ⟨-, h⟩)
    · exact h
    · cases h
  · exact fun h => .inl ⟨h, msg, rfl⟩

/-- What the program makes of a command line. -/
theorem main_commandLine (permute : Bool) (name : Word) (items : List Item)
    (source target : Operand) {rest : List Word}
    (hrest : items.flatMap Item.words ++ [source.word, target.word] = rest) :
    main permute (commandLine name items source target) =
      finish (charArgc (rest.length + 1)) (run permute optstring (seen rest) ⟨none, none, 0⟩) := by
  subst hrest
  exact program_eq optstring permute name _

/-- A `-f` in sight uses the null pointer. -/
theorem not_meets_of_reachesF {rest : List Word}
    (hrest : items.flatMap Item.words ++ [source.word, target.word] = rest)
    (hf : ReachesF ((charArgc (rest.length + 1)).toNat - 1) items) :
    ¬ Meets (finish (charArgc (rest.length + 1))
      (run permute optstring (seen rest) ⟨none, none, 0⟩)) items source target := by
  have hrun : run permute optstring _ ⟨none, none, 0⟩ = _ :=
    run_take_of_reachesF hf [source.word, target.word] _
  rw [hrest] at hrun
  rw [seen, hrun]
  rintro (⟨-, msg, h⟩ | ⟨-, h⟩) <;> cases h

/-- With all words in sight and no `-f` among them the program does what they say. -/
theorem meets_of_seen {rest : List Word}
    (hrest : items.flatMap Item.words ++ [source.word, target.word] = rest)
    (hn : rest.length + 1 ≤ 127)
    (hf : ¬ ReachesF ((charArgc (rest.length + 1)).toNat - 1) items) :
    Meets (finish (charArgc (rest.length + 1))
      (run permute optstring (seen rest) ⟨none, none, 0⟩)) items source target := by
  rw [charArgc_of_le hn] at hf
  have hle : (items.flatMap Item.words).length ≤ ((rest.length + 1 : ℕ) : ℤ).toNat - 1 := by
    rw [← hrest, List.length_append]
    omega
  rw [seen_of_le hn, charArgc_of_le hn]
  have hwhole := run_of_not_reachesF permute hle hf [source.word, target.word] ⟨none, none, 0⟩
  rw [hrest] at hwhole
  rcases hwhole with ⟨hwrong, hrun⟩ | ⟨hwrong, hrun⟩
  · rw [hrun]
    exact meets_of_usage.mpr hwrong
  · rw [hrun, run_operands, finish_after items source target (by omega)]
    exact .inr ⟨hwrong, rfl⟩

/-- With the operands out of sight only the usage is left. -/
theorem meets_iff_of_cut {rest : List Word}
    (hrest : items.flatMap Item.words ++ [source.word, target.word] = rest)
    (hn : ¬ rest.length + 1 ≤ 127)
    (hf : ¬ ReachesF ((charArgc (rest.length + 1)).toNat - 1) items) :
    Meets (finish (charArgc (rest.length + 1))
      (run permute optstring (seen rest) ⟨none, none, 0⟩)) items source target ↔
      ∃ item ∈ items, item.Wrong := by
  obtain ⟨hseen, hle⟩ := seen_of_lt (items.flatMap Item.words)
    (Nat.le_refl [source.word, target.word].length) (by rw [hrest]; omega)
  rw [hrest] at hseen hle
  rw [hseen]
  rcases run_take_of_le permute hf hle ⟨none, none, 0⟩ with hrun | ⟨s, hrun⟩
  · rw [hrun]
    exact meets_of_usage
  · rw [hrun, finish_nil]
    exact meets_of_usage

/-- **The options of `t_mount`.**  The program does what a command line says exactly if no `-f` is
among the words that it sees before a letter that is no option, and its words can be counted in a
`char` or one of them is wrong. -/
theorem meets_iff (permute : Bool) (name : Word) (items : List Item) (source target : Operand) :
    Meets (main permute (commandLine name items source target)) items source target ↔
      ¬ ReachesF ((charArgc (commandLine name items source target).length).toNat - 1) items ∧
        ((commandLine name items source target).length ≤ 127 ∨ ∃ item ∈ items, item.Wrong) := by
  obtain ⟨rest, hrest⟩ : ∃ rest, items.flatMap Item.words ++ [source.word, target.word] = rest :=
    ⟨_, rfl⟩
  have hlength : (commandLine name items source target).length = rest.length + 1 := by
    rw [← hrest]
    rfl
  rw [main_commandLine permute name items source target hrest, hlength]
  by_cases hf : ReachesF ((charArgc (rest.length + 1)).toNat - 1) items
  · exact iff_of_false (not_meets_of_reachesF hrest hf) fun h => h.1 hf
  · rw [and_iff_right hf]
    by_cases hn : rest.length + 1 ≤ 127
    · exact iff_of_true (meets_of_seen hrest hn hf) (.inl hn)
    · rw [or_iff_right hn]
      exact meets_iff_of_cut hrest hn hf

/-- `t_mount -f r /dev/sdb /mnt`. -/
theorem not_meets : ¬ ∀ (permute : Bool) (name : Word) (items : List Item)
    (source target : Operand),
    Meets (main permute (commandLine name items source target)) items source target := by
  intro h
  have hmeets := h true (ascii "t_mount") [.opt .f false (ascii "r")]
    ⟨ascii "/dev/sdb", by decide +kernel⟩ ⟨ascii "/mnt", by decide +kernel⟩
  have hmain : main true (ascii "t_mount" :: [ascii "-f", ascii "r", ascii "/dev/sdb",
    ascii "/mnt"]) = .undefined := by decide +kernel
  rcases hmeets with ⟨-, msg, hmsg⟩ | ⟨-, hmount⟩
  · exact absurd (hmain.symm.trans hmsg) nofun
  · exact absurd (hmain.symm.trans hmount) nofun

/-! ## With a colon behind the last letter -/

def withColon : Word := [0x6f, 0x3a, 0x74, 0x3a, 0x66, 0x3a]

theorem takesArg?_withColon (letter : Letter) : takesArg? withColon letter.char = some true := by
  cases letter <;> decide

theorem run_withColon_wrong (hwrong : item.Wrong) (ws : List Word) (s : Settings) :
    run permute withColon (item.words ++ ws) s = .error (.usage none) := by
  cases item with
  | other c rest hc => exact run_other hc (by simp [withColon, takesArg?, hc]) ws s
  | opt letter attached arg =>
    obtain ⟨rfl, hletter⟩ := hwrong
    rw [run, getopt_opt (takesArg?_withColon .f), result_cons]
    have hoption : option s ⟨Letter.f.char, some arg⟩ = .error (.usage none) := by
      show (arg.foldlM addFlag s.flags).map _ = _
      rw [foldlM_addFlag_error hletter]
      rfl
    rw [hoption]
    rfl

/-- With the colon the program does what a command line says if its words can be counted. -/
theorem meets_of_colon (permute : Bool) (name : Word) (items : List Item) (source target : Operand)
    (h : (commandLine name items source target).length ≤ 127) :
    Meets (program withColon permute (commandLine name items source target)) items source
      target := by
  have hseen : seen (items.flatMap Item.words ++ [source.word, target.word]) = _ := seen_of_le h
  have hargc : charArgc ((items.flatMap Item.words ++ [source.word, target.word]).length + 1) =
      _ := charArgc_of_le h
  rw [commandLine, program_eq, hseen, hargc]
  rcases exists_first withColon items with hall | ⟨before, item, behind, rfl, hbefore, hitem⟩
  · rw [run_append hall, run_operands, finish_after items source target (by omega)]
    refine .inr ⟨?_, rfl⟩
    rintro ⟨item, hmem, hwrong⟩
    exact not_wrong_of_plain (hall item hmem) hwrong
  · have hwrong : item.Wrong := by
      cases item with
      | other => trivial
      | opt letter attached arg =>
        by_contra hright
        refine hitem ⟨takesArg?_withColon letter, fun hf c hc hnone => hright ⟨hf, c, hc, hnone⟩⟩
    rw [List.flatMap_append, List.flatMap_cons, List.append_assoc, run_append hbefore,
      List.append_assoc, run_withColon_wrong hwrong]
    exact meets_of_usage.mpr ⟨item, by simp, hwrong⟩

end TMount
end CodeStrudy
