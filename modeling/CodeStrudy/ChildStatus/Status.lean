import CodeStrudy.Foundation.CInt
import CodeStrudy.Foundation.Machine

/-!
# The status of a child

`routines/26.3.child_status`: the parent waits for every change of its child with
`waitpid(-1, &status, WUNTRACED | WCONTINUED)` and prints what the status says, until the child has
ended.  The child exits with the number it was given, or pauses until a signal ends it; meanwhile
signals may stop and continue it.  The kernel keeps one change at a time for `waitpid`, the last.

## What is proved

* `printWaitStatus_encode`: for every change, what is printed of the status that `waitpid` encodes
  for it is this change; of an exit status the low eight bits.
* `reported`: in every state reached the lines are those of some of the changes, in order; `waitpid`
  has not failed; and the parent has ended exactly if the end of the child has been reported, which
  is then the last line.
-/

namespace CodeStrudy
namespace ChildStatus

open Foundation

/-! ## The encoding -/

/-- The number of a signal. -/
abbrev Signal := { n : ℕ // 1 ≤ n ∧ n ≤ 64 }

/-- What happens to a child. -/
inductive Change where
  | exited (status : CInt)
  | killed (sig : Signal) (core : Bool)
  | stopped (sig : Signal)
  | continued
  deriving DecidableEq

/-- The status that `waitpid` stores for a change. -/
def encode : Change → CInt
  | .exited status => (status &&& 0xff) <<< 8
  | .killed sig core => BitVec.ofNat 32 sig ||| if core then 0x80 else 0
  | .stopped sig => BitVec.ofNat 32 sig <<< 8 ||| 0x7f
  | .continued => 0xffff

def WTERMSIG (status : CInt) : CInt := status &&& 0x7f

def WEXITSTATUS (status : CInt) : CInt := (status &&& 0xff00) >>> 8

def WSTOPSIG (status : CInt) : CInt := WEXITSTATUS status

def WIFEXITED (status : CInt) : Bool := WTERMSIG status == 0

/-- `((signed char) ((status & 0x7f) + 1) >> 1) > 0`. -/
def WIFSIGNALED (status : CInt) : Bool :=
  0 < (((status &&& 0x7f) + 1).setWidth 8 : BitVec 8).toInt >>> (1 : ℕ)

def WIFSTOPPED (status : CInt) : Bool := status &&& 0xff == 0x7f

def WIFCONTINUED (status : CInt) : Bool := status == 0xffff

def WCOREDUMP (status : CInt) : Bool := status &&& 0x80 != 0

/-- What `printWaitStatus` prints. -/
inductive Line where
  | exit (status : CInt)
  | killed (sig : CInt) (core : Bool)
  | stopped (sig : CInt)
  | continued
  | what (status : CInt)
  deriving DecidableEq

def printWaitStatus (status : CInt) : Line :=
  if WIFEXITED status then .exit (WEXITSTATUS status)
  else if WIFSIGNALED status then .killed (WTERMSIG status) (WCOREDUMP status)
  else if WIFSTOPPED status then .stopped (WSTOPSIG status)
  else if WIFCONTINUED status then .continued
  else .what status

/-- What is to be printed of a change. -/
def Change.line : Change → Line
  | .exited status => .exit (status &&& 0xff)
  | .killed sig core => .killed (BitVec.ofNat 32 sig) core
  | .stopped sig => .stopped (BitVec.ofNat 32 sig)
  | .continued => .continued

/-- The child has ended. -/
def Change.ends : Change → Bool
  | .exited _ | .killed _ _ => true
  | .stopped _ | .continued => false

/-! ## The round trip -/

theorem print_exited : ∀ n : Fin 256,
    printWaitStatus (BitVec.ofNat 32 n <<< 8) = .exit (BitVec.ofNat 32 n) := by
  decide +kernel

theorem print_killed : ∀ n : Fin 64, ∀ core : Bool,
    printWaitStatus (BitVec.ofNat 32 (n + 1) ||| if core then 0x80 else 0) =
      .killed (BitVec.ofNat 32 (n + 1)) core := by
  decide +kernel

theorem print_stopped : ∀ n : Fin 64,
    printWaitStatus (BitVec.ofNat 32 (n + 1) <<< 8 ||| 0x7f) =
      .stopped (BitVec.ofNat 32 (n + 1)) := by
  decide +kernel

/-- The low eight bits of a number. -/
theorem and_low_byte (status : CInt) : status &&& 0xff = BitVec.ofNat 32 (status.toNat % 256) := by
  apply BitVec.eq_of_toNat_eq
  rw [BitVec.toNat_and, BitVec.toNat_ofNat]
  show status.toNat &&& (2 ^ 8 - 1) = _
  rw [Nat.and_two_pow_sub_one_eq_mod]
  omega

/-- **The round trip.** Of the status that `waitpid` encodes for a change this change is printed. -/
theorem printWaitStatus_encode (c : Change) : printWaitStatus (encode c) = c.line := by
  cases c with
  | exited status =>
    rw [encode, Change.line, and_low_byte]
    exact print_exited ⟨status.toNat % 256, Nat.mod_lt _ (by decide)⟩
  | killed sig core =>
    obtain ⟨n, hpos, hle⟩ := sig
    obtain ⟨k, rfl⟩ := Nat.exists_eq_add_of_le' hpos
    exact print_killed ⟨k, hle⟩ core
  | stopped sig =>
    obtain ⟨n, hpos, hle⟩ := sig
    obtain ⟨k, rfl⟩ := Nat.exists_eq_add_of_le' hpos
    exact print_stopped ⟨k, hle⟩
  | continued => rfl

/-- The end is recognised by what would be printed of it. -/
def Line.ends : Line → Bool
  | .exit _ | .killed _ _ => true
  | _ => false

theorem ends_printWaitStatus (status : CInt) :
    (printWaitStatus status).ends = (WIFEXITED status || WIFSIGNALED status) := by
  unfold printWaitStatus
  cases WIFEXITED status <;> cases WIFSIGNALED status <;> cases WIFSTOPPED status <;>
    cases WIFCONTINUED status <;> rfl

/-- The parent stops for the status of a change exactly if the child has ended by it. -/
theorem ends_encode (c : Change) : (WIFEXITED (encode c) || WIFSIGNALED (encode c)) = c.ends := by
  rw [← ends_printWaitStatus, printWaitStatus_encode]
  cases c <;> rfl

/-! ## The parent and its child -/

/-- What the child is doing. -/
inductive Child where
  | running
  | stopped
  | dead
  deriving DecidableEq

/-- Where the parent is: in its loop, or past its exit, with success or not. -/
inductive Parent where
  | waiting
  | exited (success : Bool)
  deriving DecidableEq

structure State where
  child : Child
  parent : Parent
  /-- The change that `waitpid` has to report. -/
  pending : Option Change
  /-- What has happened to the child. -/
  changes : List Change
  /-- What has been printed. -/
  lines : List Line
  deriving DecidableEq

/-- A change of the child, or the return of the parent's `waitpid`. -/
inductive Label where
  | child (c : Change)
  | wait
  deriving DecidableEq

/-- The child is there. -/
def initial : State := ⟨.running, .waiting, none, [], []⟩

/-- The child after a change.  By itself it only exits, with the number of the argument, if there is
one; a child that is stopped can be continued or killed. -/
def Child.change (arg : Option ℤ) : Child → Change → Option Child
  | .running, .exited status => if arg.map (BitVec.ofInt 32) = some status then some .dead else none
  | .running, .killed _ _ | .stopped, .killed _ _ => some .dead
  | .running, .stopped _ => some .stopped
  | .stopped, .continued => some .running
  | _, _ => none

/-- The parent's `waitpid` and the rest of its loop.  A child that is dead and reported is gone. -/
def parentWait (s : State) : Option State :=
  match s.parent, s.pending with
  | .waiting, some c =>
    some { s with
      pending := none
      lines := s.lines ++ [printWaitStatus (encode c)]
      parent :=
        if WIFEXITED (encode c) || WIFSIGNALED (encode c) then .exited true else .waiting }
  | .waiting, none => if s.child = .dead then some { s with parent := .exited false } else none
  | _, _ => none

/-- One step. -/
def step (arg : Option ℤ) (s : State) : Label → Option State
  | .child c => (s.child.change arg c).map fun child =>
      { s with child := child, pending := some c, changes := s.changes ++ [c] }
  | .wait => parentWait s

/-- The program, for the value of its argument. -/
def machine (arg : Option ℤ) : Machine State Label where
  init s := s = initial
  step := step arg

/-! ## The property -/

/-- What the parent has printed, and when it ends. -/
structure Reported (s : State) : Prop where
  lines_sublist : s.lines.Sublist (s.changes.map Change.line)
  not_failed : s.parent ≠ .exited false
  exited_iff : s.parent = .exited true ↔ s.child = .dead ∧ s.pending = none
  last : s.pending = none → s.lines.getLast? = s.changes.getLast?.map Change.line
  last_ends : s.child = .dead → ∃ c ∈ s.changes.getLast?, c.ends = true

/-- The change to be reported is the last one, and the lines are those of changes before it. -/
structure Inv (s : State) : Prop extends Reported s where
  pending_last : ∀ c ∈ s.pending, ∃ before, s.changes = before ++ [c] ∧
    s.lines.Sublist (before.map Change.line)
  ends_iff : ∀ c ∈ s.changes.getLast?, c.ends = true ↔ s.child = .dead

variable {arg : Option ℤ} {s t : State}

theorem inv_initial : Inv initial where
  lines_sublist := List.Sublist.refl _
  not_failed h := nomatch h
  exited_iff := iff_of_false nofun fun h => nomatch h.1
  last _ := rfl
  last_ends h := nomatch h
  pending_last _ h := nomatch h
  ends_iff _ h := nomatch h

/-- A child that is dead does not change. -/
theorem change_eq_some {child child' : Child} {c : Change} (h : child.change arg c = some child') :
    child ≠ .dead ∧ (c.ends = true ↔ child' = .dead) := by
  cases child with
  | dead => cases c <;> cases h
  | stopped =>
    cases c with
    | exited _ | stopped _ => cases h
    | killed =>
      obtain rfl := Option.some.inj h
      exact ⟨nofun, iff_of_true rfl rfl⟩
    | continued =>
      obtain rfl := Option.some.inj h
      exact ⟨nofun, iff_of_false nofun nofun⟩
  | running =>
    cases c with
    | continued => cases h
    | exited status =>
      obtain ⟨-, h⟩ := Option.ite_none_right_eq_some.mp h
      obtain rfl := Option.some.inj h
      exact ⟨nofun, iff_of_true rfl rfl⟩
    | killed =>
      obtain rfl := Option.some.inj h
      exact ⟨nofun, iff_of_true rfl rfl⟩
    | stopped =>
      obtain rfl := Option.some.inj h
      exact ⟨nofun, iff_of_false nofun nofun⟩

theorem Inv.child {c : Change} (hI : Inv s) (h : step arg s (.child c) = some t) : Inv t := by
  obtain ⟨child', hchange, rfl⟩ := Option.map_eq_some_iff.mp h
  obtain ⟨halive, hends⟩ := change_eq_some hchange
  have hwaiting : s.parent ≠ .exited true := fun hp => halive (hI.exited_iff.mp hp).1
  have hsub : s.lines.Sublist (s.changes.map Change.line) := hI.lines_sublist
  refine ⟨⟨?_, hI.not_failed, ?_, nofun, ?_⟩, ?_, ?_⟩
  · rw [List.map_append]
    exact hsub.trans (List.sublist_append_left _ _)
  · exact iff_of_false hwaiting fun hboth => nomatch hboth.2
  · intro hdead
    exact ⟨c, by simp, hends.mpr hdead⟩
  · intro c' hc'
    obtain rfl : c = c' := Option.some.inj hc'
    exact ⟨s.changes, rfl, hsub⟩
  · intro c' hc'
    rw [List.getLast?_concat] at hc'
    obtain rfl : c = c' := Option.some.inj hc'
    exact hends

theorem Inv.wait (hI : Inv s) (h : parentWait s = some t) : Inv t := by
  unfold parentWait at h
  split at h
  case h_1 c hparent hpending =>
    obtain rfl := Option.some.inj h
    obtain ⟨before, hchanges, hsub⟩ := hI.pending_last c hpending
    have hlast : s.changes.getLast? = some c := by rw [hchanges, List.getLast?_concat]
    have hends := hI.ends_iff c hlast
    rw [ends_encode, printWaitStatus_encode]
    refine ⟨⟨?_, ?_, ?_, fun _ => ?_, hI.last_ends⟩, nofun, hI.ends_iff⟩
    · show (s.lines ++ [c.line]).Sublist (s.changes.map Change.line)
      rw [hchanges, List.map_append]
      exact hsub.append (List.Sublist.refl _)
    · show (if c.ends = true then Parent.exited true else .waiting) ≠ .exited false
      split <;> exact fun heq => nomatch heq
    · show (if c.ends = true then Parent.exited true else .waiting) = .exited true ↔ _
      rw [and_iff_left rfl, ← hends]
      cases c.ends <;> simp
    · show (s.lines ++ [c.line]).getLast? = s.changes.getLast?.map Change.line
      rw [List.getLast?_concat, hlast]
      rfl
  case h_2 hparent hpending =>
    -- A dead child that has been reported has ended the parent.
    obtain ⟨hdead, -⟩ := Option.ite_none_right_eq_some.mp h
    cases (hI.exited_iff.mpr ⟨hdead, hpending⟩).symm.trans hparent
  case h_3 => cases h

/-- **What is reported.** For any argument, any signals at any time and any delay of the parent: the
lines are those of some of the changes in their order, and when nothing is to be reported the last
line is that of the last change; `waitpid` does not fail; and the parent has ended exactly if the
child has and this has been reported. -/
theorem reported (arg : Option ℤ) (h : (machine arg).Reachable s) : Reported s := by
  have hI : Inv s := by
    refine h.invariant (fun s hinit => ?_) fun s a t hI hst => ?_
    · obtain rfl : s = initial := hinit
      exact inv_initial
    · cases a with
      | child c => exact hI.child hst
      | wait => exact hI.wait hst
  exact hI.toReported

/-- A child that is stopped, continued and then exits with 258. -/
theorem reported_258 : Reported ⟨.dead, .exited true, none,
    [.stopped ⟨19, by decide⟩, .continued, .exited 258], [.continued, .exit 2]⟩ :=
  reported (some 258) (Machine.Reachable.run (.init rfl)
    [.child (.stopped ⟨19, by decide⟩), .child .continued, .wait, .child (.exited 258), .wait]
    (by decide +kernel))

end ChildStatus
end CodeStrudy
