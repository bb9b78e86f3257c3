import Mathlib.Algebra.Order.Ring.Int
import Mathlib.Data.List.Basic

/-!
# Options on a command line

`getopt` goes through the words of a command line.  A word that begins with a minus sign is a
cluster of option letters.  A letter that has an argument ends its cluster: the argument is what
follows it in its word or, if nothing does, the next word.  The word `--` ends the options.  At an
operand a `getopt` either stops, or goes on and puts the operands behind the options; both kinds are
here.

A program that leaves the loop over the options early sees the first of the calls only, so all of
them are given as a list.  Nothing in this file names a program.

## What is proved

One lemma for each way in which a command line can begin.
-/

namespace CodeStrudy
namespace Foundation

/-- The characters of a word on the command line. -/
abbrev Word := List UInt8

namespace Getopt

/-- What a call returns, and `optarg` as it leaves it.  The letter is `?` for a letter that is no
option or whose argument is missing. -/
@[ext] structure Opt where
  letter : UInt8
  optarg : Option Word
  deriving DecidableEq

/-- Whether a letter is an option according to the option string, and whether it has an argument: it
has one if a colon follows it there. -/
def takesArg? : Word → UInt8 → Option Bool
  | [], _ => none
  | d :: optstring, c =>
    if c = d ∧ c ≠ 0x3a then some (optstring.head? = some 0x3a) else takesArg? optstring c

/-- The call that reports an error. -/
def Opt.error : Opt := ⟨0x3f, none⟩

/-- The calls for the letters of one word with the word behind it, and whether that was taken as an
argument. -/
def cluster (optstring : Word) (next : Option Word) : Word → List Opt × Bool
  | [] => ([], false)
  | c :: cs =>
    match takesArg? optstring c with
    | some true =>
      if cs ≠ [] then ([⟨c, some cs⟩], false)
      else next.elim ([.error], false) fun arg => ([⟨c, some arg⟩], true)
    | some false =>
      let rest := cluster optstring next cs
      (⟨c, none⟩ :: rest.1, rest.2)
    | none =>
      let rest := cluster optstring next cs
      (.error :: rest.1, rest.2)

/-- All calls on a command line, and the words that are left as operands. -/
@[ext] structure Scan where
  opts : List Opt
  operands : List Word
  deriving DecidableEq

/-- A word is an operand unless a minus sign and something more begin it. -/
def IsOperand (w : Word) : Prop := ¬ (w.head? = some 0x2d ∧ w.tail ≠ [])

instance (w : Word) : Decidable (IsOperand w) := inferInstanceAs (Decidable (¬ _))

/-- The scan of the words; `skip` says that the first one has been taken as an argument. -/
def scan (permute : Bool) (optstring : Word) (skip : Bool) : List Word → Scan
  | [] => ⟨[], []⟩
  | w :: ws =>
    if skip then scan permute optstring false ws
    else if w = [0x2d, 0x2d] then ⟨[], ws⟩
    else if IsOperand w then
      if permute then
        let rest := scan permute optstring false ws
        ⟨rest.opts, w :: rest.operands⟩
      else ⟨[], w :: ws⟩
    else
      let letters := cluster optstring ws.head? w.tail
      let rest := scan permute optstring letters.2 ws
      ⟨letters.1 ++ rest.opts, rest.operands⟩

/-- All calls for the words behind the program's name. -/
def getopt (permute : Bool) (optstring : Word) (words : List Word) : Scan :=
  scan permute optstring false words

/-- `optind` behind the last call, for a command line of `argc` words: the operands are at its end.
-/
def optind (argc : ℤ) (operands : List Word) : ℤ :=
  if argc < 1 then 1 else argc - operands.length

variable {permute : Bool} {optstring : Word} {c : UInt8} {arg cs w : Word} {ws : List Word}

@[simp] theorem getopt_nil : getopt permute optstring [] = ⟨[], []⟩ := rfl

theorem not_isOperand_cons : ¬ IsOperand (0x2d :: c :: cs) := fun h => h ⟨rfl, List.cons_ne_nil _ _⟩

/-- A word of option letters. -/
theorem getopt_cluster (hne : (0x2d : UInt8) :: c :: cs ≠ [0x2d, 0x2d]) :
    getopt permute optstring ((0x2d :: c :: cs) :: ws) =
      ⟨(cluster optstring ws.head? (c :: cs)).1 ++
          (scan permute optstring (cluster optstring ws.head? (c :: cs)).2 ws).opts,
        (scan permute optstring (cluster optstring ws.head? (c :: cs)).2 ws).operands⟩ := by
  rw [getopt, scan, if_neg Bool.false_ne_true, if_neg hne, if_neg not_isOperand_cons]
  rfl

/-- An option whose argument is in its word. -/
theorem getopt_attached (hc : takesArg? optstring c = some true) (harg : arg ≠ []) :
    getopt permute optstring ((0x2d :: c :: arg) :: ws) =
      ⟨⟨c, some arg⟩ :: (getopt permute optstring ws).opts,
        (getopt permute optstring ws).operands⟩ := by
  have hne : (0x2d : UInt8) :: c :: arg ≠ [0x2d, 0x2d] := fun h =>
    harg (List.cons.inj (List.cons.inj h).2).2
  have hcluster : cluster optstring ws.head? (c :: arg) = ([⟨c, some arg⟩], false) := by
    simp only [cluster, hc, ne_eq, harg, not_false_iff, if_true]
  rw [getopt_cluster hne, hcluster]
  rfl

/-- An option whose argument is the next word. -/
theorem getopt_separate (hc : takesArg? optstring c = some true) (hne : c ≠ 0x2d) :
    getopt permute optstring ([0x2d, c] :: arg :: ws) =
      ⟨⟨c, some arg⟩ :: (getopt permute optstring ws).opts,
        (getopt permute optstring ws).operands⟩ := by
  have hword : [(0x2d : UInt8), c] ≠ [0x2d, 0x2d] := by simpa using hne
  have hcluster : cluster optstring (arg :: ws).head? [c] = ([⟨c, some arg⟩], true) := by
    simp only [cluster, hc, ne_eq, not_true_eq_false, if_false]
    rfl
  rw [getopt_cluster hword, hcluster]
  rfl

/-- An option whose argument is missing. -/
theorem getopt_missing (hc : takesArg? optstring c = some true) (hne : c ≠ 0x2d) :
    getopt permute optstring [[0x2d, c]] = ⟨[.error], []⟩ := by
  have hword : [(0x2d : UInt8), c] ≠ [0x2d, 0x2d] := by simpa using hne
  have hcluster : cluster optstring none [c] = ([.error], false) := by
    simp only [cluster, hc, ne_eq, not_true_eq_false, if_false]
    rfl
  rw [getopt_cluster hword, List.head?_nil, hcluster]
  rfl

/-- An option without an argument is reported without one, whatever follows. -/
theorem getopt_flag (hc : takesArg? optstring c = some false) (hne : c ≠ 0x2d) :
    (getopt permute optstring ((0x2d :: c :: cs) :: ws)).opts.head? = some ⟨c, none⟩ := by
  have hword : (0x2d : UInt8) :: c :: cs ≠ [0x2d, 0x2d] := fun h =>
    hne (List.cons.inj (List.cons.inj h).2).1
  rw [getopt_cluster hword, cluster, hc]
  rfl

/-- A letter that is no option is reported as an error. -/
theorem getopt_unknown (hc : takesArg? optstring c = none) (hne : c ≠ 0x2d) :
    (getopt permute optstring ((0x2d :: c :: cs) :: ws)).opts.head? = some .error := by
  have hword : (0x2d : UInt8) :: c :: cs ≠ [0x2d, 0x2d] := fun h =>
    hne (List.cons.inj (List.cons.inj h).2).1
  rw [getopt_cluster hword, cluster, hc]
  rfl

/-- Operands are left as they are. -/
theorem getopt_operands (h : ∀ w ∈ ws, IsOperand w) : getopt permute optstring ws = ⟨[], ws⟩ := by
  induction ws with
  | nil => rfl
  | cons w ws ih =>
    rw [List.forall_mem_cons] at h
    have hne : w ≠ [0x2d, 0x2d] := by
      rintro rfl
      exact not_isOperand_cons h.1
    rw [getopt, scan, if_neg Bool.false_ne_true, if_neg hne, if_pos h.1]
    split
    · have hrest : scan permute optstring false ws = ⟨[], ws⟩ := ih h.2
      rw [hrest]
    · rfl

end Getopt
end Foundation
end CodeStrudy
