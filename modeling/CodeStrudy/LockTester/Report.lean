import CodeStrudy.Foundation.LockTable
import CodeStrudy.Foundation.Machine
import CodeStrudy.ProcessLister.Status
import Mathlib.Data.Fintype.Basic

/-!
# Trying two kinds of locks on one file

`practice/55.4/main.c`: for each of its two arguments the program forks a child that locks
`temp2.txt` with `fcntl` or `flock`; the child that does not get the second lock reports that the
first one and the second one exclude each other.  A child does not leave the loop: the first one
goes on to the second argument with its lock in its hands and forks a child of its own.  So there
are two processes that try the second lock, one of the main process and one of the first child.
Nobody else locks the file.

## What is proved

* `Inv.childStep`, `Inv.mainStep`: no two processes hold locks in conflict, and a report has a
  reason.
* `report_possible_iff`: for which arguments there is a run with a report.  With a second lock for
  writing this is so whatever the first one is, because the two processes that try it exclude each
  other.
* `verdict`: when the two locks are in conflict and no call fails, the report is made in all runs
  but those in which the second child of the main process has been faster than the first one.
-/

namespace CodeStrudy
namespace LockTester

open Foundation

/-- `fcntl` with `F_SETLK`, or `flock` with `LOCK_NB`. -/
inductive Api where
  | fcntl
  | flock
  deriving DecidableEq

/-- The lock of an argument. -/
structure Lock where
  api : Api
  write : Bool
  /-- `l_len`; the start is always the beginning of the file. -/
  len : ℤ
  deriving DecidableEq

/-- The type of a lock, by the second character. -/
def lockType (chr : UInt8) : Option Bool :=
  if chr = 'R'.toUInt8 then some false else if chr = 'W'.toUInt8 then some true else none

/-- A command line that gives no two locks: the usage text, or an `l_type` or a `cmd` that nothing
has set, or a word that is read behind its end. -/
inductive Stop where
  | usage
  | undefined
  deriving DecidableEq

/-- The lock of a word, with the `l_type` that is set so far.  A second character that is none of
the two is reported and leaves `l_type` as it is. -/
def parse (l_type : Option Bool) (word : List UInt8) : Except Stop Lock :=
  match word with
  | [] => .error .usage
  | api :: rest =>
    if api = 'c'.toUInt8 then
      match rest with
      | [] => .error .undefined
      | type :: num =>
        match (lockType type).or l_type with
        | some write => .ok ⟨.fcntl, write, if num = [] then 0 else ProcessLister.atol num⟩
        | none => .error .undefined
    else if api = 'l'.toUInt8 then
      match rest.head?.bind lockType with
      | some write => .ok ⟨.flock, write, 0⟩
      | none => .error .undefined
    else .error .usage

/-- The locks of `argv[1]` and `argv[2]`. -/
structure Args where
  first : Lock
  second : Lock
  deriving DecidableEq

/-- The `l_type` that the first word has set. -/
def Lock.l_type (a : Lock) : Option Bool := if a.api = .fcntl then some a.write else none

/-- What `main` makes of its `argc`, a `char`, and its words.  The word `--help` needs no case of
its own, as its first character gives the usage text too. -/
def args (argv : List CStr) : Except Stop Args :=
  if charArgc argv.length = 3 then
    match argv with
    | _ :: word₁ :: word₂ :: _ => do
      let first ← parse none word₁.chars
      let second ← parse first.l_type word₂.chars
      pure ⟨first, second⟩
    | _ => .error .usage
  else .error .usage

/-- A range that ends before the beginning of the file is an error. -/
def Lock.Valid (a : Lock) : Prop := a.api = .fcntl → 0 ≤ a.len

instance (a : Lock) : Decidable a.Valid := inferInstanceAs (Decidable (_ → _))

/-- Locks of the two kinds do not see each other; those of one kind overlap in the first byte. -/
def Conflict (a b : Lock) : Prop := a.api = b.api ∧ (a.write = true ∨ b.write = true)

instance : DecidableRel Conflict := fun _ _ => inferInstanceAs (Decidable (_ ∧ _))

theorem Conflict.symm {a b : Lock} (h : Conflict a b) : Conflict b a := ⟨h.1.symm, h.2.symm⟩

/-- The children of the main process, and the child of the first one. -/
inductive Child where
  | first
  | second
  | grandchild
  deriving DecidableEq

instance : Fintype Child where
  elems := {.first, .second, .grandchild}
  complete p := by cases p <;> decide

/-- The lock that the child tries. -/
def Args.lock (a : Args) : Child → Lock
  | .first => a.first
  | .second | .grandchild => a.second

/-- Where the main process is; `fork1` is its first pass of the loop. -/
inductive MainPc where
  | create
  | fork1
  | fork2
  | waitpid
  | exited
  deriving DecidableEq

/-- Where a child is.  `locked` is its `sleep`, with the lock; `waitpid` is behind the loop. -/
inductive ChildPc where
  | notForked
  | open
  | lock
  | locked
  | waitpid
  | exited (report : Bool)
  deriving DecidableEq

/-- The processes and the locks.  Every child has a description of its own, so a lock belongs to a
child; the description of the first one, which the grandchild has too, is closed after it. -/
structure State where
  args : Args
  main : MainPc
  child : Child → ChildPc
  held : LockTable Child Lock

/-- A step of the main process or of a child, and whether its call succeeds.  A lock that is refused
is not a failure here. -/
inductive Label where
  | main (ok : Bool)
  | child (p : Child) (ok : Bool)
  deriving DecidableEq

def State.goto (s : State) (p : Child) (pc : ChildPc) : State :=
  { s with child := Function.update s.child p pc }

/-- `exit`, which gives the lock back. -/
def State.exit (s : State) (p : Child) (report : Bool) : State :=
  { s.goto p (.exited report) with held := s.held.release p }

/-- `waitpid` does not wait for this child. -/
def ChildPc.Gone : ChildPc → Prop
  | .notForked | .exited _ => True
  | _ => False

instance : DecidablePred ChildPc.Gone
  | .notForked | .exited _ => .isTrue trivial
  | .open | .lock | .locked | .waitpid => .isFalse id

/-- A step of the main process; a `fork` that fails is not noticed. -/
def mainStep (s : State) (ok : Bool) : Option State :=
  match s.main with
  | .create => some { s with main := if ok then .fork1 else .exited }
  | .fork1 => some { if ok then s.goto .first .open else s with main := .fork2 }
  | .fork2 => some { if ok then s.goto .second .open else s with main := .waitpid }
  | .waitpid =>
    if (s.child .first).Gone ∧ (s.child .second).Gone then some { s with main := .exited } else none
  | .exited => none

/-- A step of a child. -/
def childStep (s : State) (p : Child) (ok : Bool) : Option State :=
  match s.child p with
  | .notForked => none
  | .open => some (if ok then s.goto p .lock else s.exit p false)
  | .lock =>
    if ok ∧ (s.args.lock p).Valid then
      match s.held.tryLock Conflict p (s.args.lock p) with
      | some held => some { s.goto p .locked with held := held }
      | none => some (s.exit p (p ≠ .first))
    else some (s.exit p false)
  | .locked =>
    if p = .first then some ((if ok then s.goto .grandchild .open else s).goto p .waitpid)
    else some (s.goto p .waitpid)
  | .waitpid =>
    if p = .first ∧ ¬ (s.child .grandchild).Gone then none else some (s.exit p false)
  | .exited _ => none

def step (s : State) : Label → Option State
  | .main ok => mainStep s ok
  | .child p ok => childStep s p ok

/-- The program is started. -/
def initial (a : Args) : State := ⟨a, .create, fun _ => .notForked, fun _ => none⟩

/-- The program.  With the usage text there is no report, also when the first word has already made
a child, so it has no states; with something unset it may be in any state. -/
def machine (argv : List CStr) : Machine State Label where
  init s := args argv = .error .undefined ∨ ∃ a, args argv = .ok a ∧ s = initial a
  step := step

/-- `cW20` and `lW`, the example of the usage text. -/
example : args [⟨[], by decide⟩, ⟨[0x63, 0x57, 0x32, 0x30], by decide⟩, ⟨[0x6c, 0x57], by decide⟩] =
    .ok ⟨⟨.fcntl, true, 20⟩, ⟨.flock, true, 0⟩⟩ := by
  decide

/-! ## Who has a lock -/

/-- What a report can be due to. -/
def Explained (a : Args) : Prop :=
  a.first.Valid ∧ a.second.Valid ∧ (Conflict a.first a.second ∨ a.second.write = true)

/-- A child with this program counter has its lock. -/
def ChildPc.Holds : ChildPc → Prop
  | .locked | .waitpid => True
  | _ => False

/-- What holds in every state. -/
structure Inv (s : State) : Prop where
  compatible : LockTable.Compatible Conflict s.held
  /-- A child has its lock exactly between its `locked` and its end. -/
  held : ∀ p b, s.held p = some b ↔ (s.child p).Holds ∧ b = s.args.lock p
  valid : ∀ p, (s.child p).Holds → (s.args.lock p).Valid
  /-- The grandchild is forked by the first child with its lock in its hands, which waits for it. -/
  forked : s.child .grandchild ≠ .notForked → s.args.first.Valid
  waits : ¬ (s.child .grandchild).Gone → s.child .first = .waitpid
  report : ∀ p, s.child p = .exited true → Explained s.args

variable {s s' : State} {p q : Child}

/-- **A refusal has a reason**: the lock of the argument before, or the other try of the same. -/
theorem Inv.refused (hs : Inv s) (hp : p ≠ .first) (hpc : s.child p = .lock)
    (hvalid : (s.args.lock p).Valid) (h : LockTable.Refused Conflict s.held p (s.args.lock p)) :
    Explained s.args := by
  obtain ⟨q, hqp, b, hb, hconflict⟩ := h
  obtain ⟨hholds, rfl⟩ := (hs.held q b).mp hb
  have hsecond : s.args.second.Valid := by
    cases p
    case first => exact absurd rfl hp
    all_goals exact hvalid
  cases q with
  | first =>
    refine ⟨hs.valid .first hholds, hsecond, .inl ?_⟩
    cases p
    case first => exact absurd rfl hp
    all_goals exact hconflict.symm
  | second =>
    obtain rfl : p = .grandchild := by cases p <;> trivial
    refine ⟨hs.forked ?_, hsecond, .inr (hconflict.2.elim id id)⟩
    rw [hpc]
    nofun
  | grandchild =>
    obtain rfl : p = .second := by cases p <;> trivial
    refine ⟨hs.forked ?_, hsecond, .inr (hconflict.2.elim id id)⟩
    intro hnot
    rw [hnot] at hholds
    exact hholds

/-! ## The steps -/

theorem goto_child (p q : Child) (pc : ChildPc) :
    (s.goto p pc).child q = if q = p then pc else s.child q :=
  Function.update_apply s.child p pc q

/-- A child goes on, and its lock is taken or given back on the way. -/
theorem Inv.change (hs : Inv s) {pc : ChildPc} (held : LockTable Child Lock)
    (hcompatible : LockTable.Compatible Conflict held) (hframe : ∀ q ≠ p, held q = s.held q)
    (hheld : ∀ b, held p = some b ↔ pc.Holds ∧ b = s.args.lock p)
    (hvalid : pc.Holds → (s.args.lock p).Valid)
    (hforked : p = .grandchild → s.args.first.Valid)
    (hgrandchild : p = .grandchild → ¬ pc.Gone → s.child .first = .waitpid)
    (hfirst : p = .first → ¬ (s.child .grandchild).Gone → pc = .waitpid)
    (hreport : pc = .exited true → Explained s.args) : Inv { s.goto p pc with held := held } := by
  refine ⟨hcompatible, fun q b => ?_, fun q h => ?_, fun h => ?_, fun h => ?_, fun q h => ?_⟩
  · show held q = some b ↔ ((s.goto p pc).child q).Holds ∧ b = s.args.lock q
    rw [goto_child]
    by_cases hq : q = p
    · subst hq
      rw [if_pos rfl]
      exact hheld b
    · rw [if_neg hq, hframe q hq]
      exact hs.held q b
  · have h' : ((s.goto p pc).child q).Holds := h
    rw [goto_child] at h'
    split at h'
    case isTrue heq => exact heq ▸ hvalid h'
    case isFalse => exact hs.valid q h'
  · have h' : (s.goto p pc).child .grandchild ≠ .notForked := h
    rw [goto_child] at h'
    split at h'
    case isTrue heq => exact hforked heq.symm
    case isFalse => exact hs.forked h'
  · have h' : ¬ ((s.goto p pc).child .grandchild).Gone := h
    show (s.goto p pc).child .first = .waitpid
    rw [goto_child] at h' ⊢
    by_cases hp : Child.first = p
    · subst hp
      rw [if_neg (by decide)] at h'
      rw [if_pos rfl]
      exact hfirst rfl h'
    · rw [if_neg hp]
      split at h'
      case isTrue heq => exact hgrandchild heq.symm h'
      case isFalse => exact hs.waits h'
  · have h' : (s.goto p pc).child q = .exited true := h
    rw [goto_child] at h'
    split at h'
    · exact hreport h'
    · exact hs.report q h'

theorem Inv.held_iff (hs : Inv s) {pc : ChildPc} (hold : ¬ (s.child p).Holds) (hnew : ¬ pc.Holds)
    (b : Lock) : s.held p = some b ↔ pc.Holds ∧ b = s.args.lock p :=
  (hs.held p b).trans (iff_of_false (fun h => hold h.1) fun h => hnew h.1)

/-- The first child or the second one is forked. -/
theorem Inv.fork (hs : Inv s) (hp : p ≠ .grandchild) (hpc : s.child p = .notForked) :
    Inv (s.goto p .open) := by
  have hold : ¬ (s.child p).Holds := by
    rw [hpc]
    exact id
  refine hs.change s.held hs.compatible (fun _ _ => rfl) (hs.held_iff hold id)
    (fun h => absurd h id) (absurd · hp) (absurd · hp) ?_ nofun
  rintro rfl hgone
  cases hpc.symm.trans (hs.waits hgone)

/-- The file is open. -/
theorem Inv.opened (hs : Inv s) (hpc : s.child p = .open) : Inv (s.goto p .lock) := by
  have hold : ¬ (s.child p).Holds := by
    rw [hpc]
    exact id
  refine hs.change s.held hs.compatible (fun _ _ => rfl) (hs.held_iff hold id)
    (fun h => absurd h id) ?_ ?_ ?_ nofun
  · rintro rfl
    refine hs.forked ?_
    rw [hpc]
    nofun
  · rintro rfl -
    refine hs.waits ?_
    rw [hpc]
    exact id
  · rintro rfl hgone
    cases hpc.symm.trans (hs.waits hgone)

theorem Inv.exit (hs : Inv s) {r : Bool} (hforked : s.child p ≠ .notForked)
    (hwaits : p = .first → (s.child .grandchild).Gone) (hreport : r = true → Explained s.args) :
    Inv (s.exit p r) := by
  refine hs.change _ (hs.compatible.release p) (fun q hq => Function.update_of_ne hq _ _) ?_
    (fun h => absurd h id) ?_ (fun _ h => absurd trivial h) (fun hp h => absurd (hwaits hp) h)
    fun h => hreport (ChildPc.exited.inj h)
  · intro b
    rw [LockTable.release, Function.update_self]
    exact iff_of_false (Option.some_ne_none b).symm fun h => h.1
  · rintro rfl
    exact hs.forked hforked

/-- The lock is granted. -/
theorem Inv.granted (hs : Inv s) {held : LockTable Child Lock} (hpc : s.child p = .lock)
    (hvalid : (s.args.lock p).Valid)
    (hlock : s.held.tryLock Conflict p (s.args.lock p) = some held) :
    Inv { s.goto p .locked with held := held } := by
  have hcompatible := hs.compatible.tryLock (fun a b => Conflict.symm) hlock
  obtain ⟨-, rfl⟩ := LockTable.tryLock_eq_some_iff.mp hlock
  refine hs.change _ hcompatible (fun q hq => Function.update_of_ne hq _ _) ?_ (fun _ => hvalid)
    ?_ ?_ ?_ nofun
  · intro b
    rw [Function.update_self, Option.some.injEq, eq_comm]
    exact (and_iff_right trivial).symm
  · rintro rfl
    refine hs.forked ?_
    rw [hpc]
    nofun
  · rintro rfl -
    refine hs.waits ?_
    rw [hpc]
    exact id
  · rintro rfl hgone
    cases hpc.symm.trans (hs.waits hgone)

/-- A child with its lock comes to its `waitpid`. -/
theorem Inv.passed (hs : Inv s) (hpc : s.child p = .locked) : Inv (s.goto p .waitpid) := by
  refine hs.change s.held hs.compatible (fun _ _ => rfl) ?_ ?_ ?_ ?_ (fun _ _ => rfl)
    nofun
  · intro b
    rw [hs.held p b, hpc]
    exact Iff.rfl
  · intro _
    refine hs.valid p ?_
    rw [hpc]
    trivial
  · rintro rfl
    refine hs.forked ?_
    rw [hpc]
    nofun
  · rintro rfl -
    refine hs.waits ?_
    rw [hpc]
    exact id

/-- The first child forks the grandchild, with its lock in its hands. -/
theorem Inv.forkGrandchild (hs : Inv s) (hpc : s.child .first = .locked) :
    Inv ((s.goto .grandchild .open).goto .first .waitpid) := by
  have hgone : (s.child .grandchild).Gone := by
    by_contra hgone
    cases hpc.symm.trans (hs.waits hgone)
  have hold : ¬ (s.child .grandchild).Holds := fun h => by
    cases hg : s.child .grandchild <;> rw [hg] at h hgone <;> first | exact h | exact hgone
  -- as if the first child had come to its `waitpid` before
  have hpassed := hs.passed hpc
  have hcomm : (s.goto .grandchild .open).goto .first .waitpid =
      (s.goto .first .waitpid).goto .grandchild .open := by
    simp only [State.goto]
    rw [Function.update_comm (by decide)]
  rw [hcomm]
  refine hpassed.change s.held hs.compatible (fun _ _ => rfl) ?_ (fun h => absurd h id)
    ?_ ?_ nofun nofun
  · exact hpassed.held_iff hold id
  · intro _
    refine hs.valid .first ?_
    rw [hpc]
    trivial
  · exact fun _ _ => rfl

theorem Inv.gone (hs : Inv s) (h : s.child .first ≠ .waitpid) : (s.child .grandchild).Gone := by
  by_contra hgone
  exact h (hs.waits hgone)

theorem Inv.childStep (hs : Inv s) {ok : Bool} (h : childStep s p ok = some s') : Inv s' := by
  have hgone : ∀ pc, s.child p = pc → pc ≠ .waitpid → p = .first → (s.child .grandchild).Gone := by
    rintro pc hpc hne rfl
    exact hs.gone fun hwait => hne (hpc.symm.trans hwait)
  cases hpc : s.child p <;> simp only [LockTester.childStep, hpc] at h
  case «open» =>
    cases ok <;> cases h
    · exact hs.exit (by rw [hpc]; nofun) (hgone _ hpc nofun) nofun
    · exact hs.opened hpc
  case lock =>
    have hexit : p = .first → (s.child .grandchild).Gone := hgone _ hpc nofun
    split at h
    case isTrue hvalid =>
      cases hlock : s.held.tryLock Conflict p (s.args.lock p) with
      | some held =>
        rw [hlock] at h
        cases h
        exact hs.granted hpc hvalid.2 hlock
      | none =>
        rw [hlock] at h
        cases h
        refine hs.exit (by rw [hpc]; nofun) hexit fun hp => ?_
        exact hs.refused (of_decide_eq_true hp) hpc hvalid.2
          (LockTable.tryLock_eq_none_iff.mp hlock)
    case isFalse =>
      cases h
      exact hs.exit (by rw [hpc]; nofun) hexit nofun
  case locked =>
    split at h
    case isTrue hp =>
      subst hp
      cases ok <;> cases h
      · exact hs.passed hpc
      · exact hs.forkGrandchild hpc
    case isFalse =>
      cases h
      exact hs.passed hpc
  case waitpid =>
    obtain ⟨hwait, h⟩ := Option.ite_none_left_eq_some.mp h
    cases h
    refine hs.exit (by rw [hpc]; nofun) (fun hp => ?_) nofun
    by_contra hgone
    exact hwait ⟨hp, hgone⟩
  all_goals cases h

/-- Before the main process forks a child, there is none. -/
structure Pending (s : State) : Prop where
  first : s.main = .create ∨ s.main = .fork1 → s.child .first = .notForked
  second : s.main = .create ∨ s.main = .fork1 ∨ s.main = .fork2 → s.child .second = .notForked

/-- What a child leaves alone. -/
theorem childStep_frame {ok : Bool} (h : childStep s p ok = some s') :
    s'.main = s.main ∧ s'.args = s.args ∧
      ∀ q, q ≠ .grandchild → s.child q = .notForked → s'.child q = .notForked := by
  have hne : ∀ q, s.child q = .notForked → q ≠ p := by
    rintro q hq rfl
    simp only [childStep, hq] at h
    cases h
  have hgoto : ∀ pc q, s.child q = .notForked → (s.goto p pc).child q = .notForked := by
    intro pc q hq
    rw [goto_child, if_neg (hne q hq), hq]
  cases hpc : s.child p <;> simp only [childStep, hpc] at h
  case «open» => cases ok <;> cases h <;> exact ⟨rfl, rfl, fun q _ hq => hgoto _ q hq⟩
  case lock =>
    split at h
    · split at h <;> cases h <;> exact ⟨rfl, rfl, fun q _ hq => hgoto _ q hq⟩
    · cases h
      exact ⟨rfl, rfl, fun q _ hq => hgoto _ q hq⟩
  case locked =>
    split at h
    case isTrue hp =>
      subst hp
      cases ok <;> cases h
      · exact ⟨rfl, rfl, fun q _ hq => hgoto _ q hq⟩
      · refine ⟨rfl, rfl, fun q hgrandchild hq => ?_⟩
        show ((s.goto .grandchild .open).goto .first .waitpid).child q = .notForked
        rw [goto_child, if_neg (hne q hq), goto_child, if_neg hgrandchild, hq]
    case isFalse =>
      cases h
      exact ⟨rfl, rfl, fun q _ hq => hgoto _ q hq⟩
  case waitpid =>
    obtain ⟨-, h⟩ := Option.ite_none_left_eq_some.mp h
    cases h
    exact ⟨rfl, rfl, fun q _ hq => hgoto _ q hq⟩
  all_goals cases h

theorem Inv.mainGoto (hs : Inv s) (pc : MainPc) : Inv { s with main := pc } :=
  ⟨hs.compatible, hs.held, hs.valid, hs.forked, hs.waits, hs.report⟩

theorem Inv.mainStep (hs : Inv s) (hpending : Pending s) {ok : Bool}
    (h : mainStep s ok = some s') : Inv s' ∧ Pending s' ∧ s'.args = s.args := by
  cases hpc : s.main <;> simp only [LockTester.mainStep, hpc] at h
  case create =>
    cases h
    refine ⟨hs.mainGoto _, ⟨fun _ => hpending.first (.inl hpc), fun _ => ?_⟩, rfl⟩
    exact hpending.second (.inl hpc)
  case fork1 =>
    have hfirst := hpending.first (.inr hpc)
    have hsecond := hpending.second (.inr (.inl hpc))
    cases ok <;> cases h
    · exact ⟨hs.mainGoto _, ⟨nofun, fun _ => hsecond⟩, rfl⟩
    · exact ⟨(hs.fork (by decide) hfirst).mainGoto _, ⟨nofun, fun _ => hsecond⟩, rfl⟩
  case fork2 =>
    have hsecond := hpending.second (.inr (.inr hpc))
    cases ok <;> cases h
    · exact ⟨hs.mainGoto _, ⟨nofun, nofun⟩, rfl⟩
    · exact ⟨(hs.fork (by decide) hsecond).mainGoto _, ⟨nofun, nofun⟩, rfl⟩
  case waitpid =>
    obtain ⟨-, h⟩ := Option.ite_none_right_eq_some.mp h
    cases h
    exact ⟨hs.mainGoto _, ⟨nofun, nofun⟩, rfl⟩
  case exited => cases h

/-- What holds in every state of the program. -/
structure Sound (a : Args) (s : State) : Prop where
  inv : Inv s
  pending : Pending s
  args : s.args = a

theorem Sound.step {a : Args} (hs : Sound a s) {l : Label} (h : step s l = some s') :
    Sound a s' := by
  cases l with
  | main ok =>
    obtain ⟨hinv, hpending, hargs⟩ := hs.inv.mainStep hs.pending h
    exact ⟨hinv, hpending, hargs.trans hs.args⟩
  | child p ok =>
    obtain ⟨hmain, hargs, hframe⟩ := childStep_frame h
    refine ⟨hs.inv.childStep h, ⟨fun hpc => ?_, fun hpc => ?_⟩, hargs.trans hs.args⟩
    · exact hframe .first (by decide) (hs.pending.first (hmain ▸ hpc))
    · exact hframe .second (by decide) (hs.pending.second (hmain ▸ hpc))

theorem Sound.initial (a : Args) : Sound a (initial a) where
  inv := ⟨nofun, fun _ _ => iff_of_false nofun fun h => h.1, fun _ h => absurd h id,
    fun h => absurd rfl h, fun h => absurd trivial h, nofun⟩
  pending := ⟨fun _ => rfl, fun _ => rfl⟩
  args := rfl

theorem sound_of_reachable {argv : List CStr} (hdef : args argv ≠ .error .undefined)
    (h : (machine argv).Reachable s) : ∃ a, args argv = .ok a ∧ Sound a s := by
  refine Machine.Reachable.invariant (I := fun s => ∃ a, args argv = .ok a ∧ Sound a s) ?_ ?_ h
  · rintro s (hundef | ⟨a, hargs, rfl⟩)
    · exact absurd hundef hdef
    · exact ⟨a, hargs, .initial a⟩
  · rintro s l s' ⟨a, hargs, hs⟩ hst
    exact ⟨a, hargs, hs.step hst⟩

/-! ## Runs with a report -/

theorem childStep_granted (hpc : s.child p = .lock) (hvalid : (s.args.lock p).Valid)
    (h : ¬ LockTable.Refused Conflict s.held p (s.args.lock p)) :
    childStep s p true =
      some { s.goto p .locked with held := Function.update s.held p (some (s.args.lock p)) } := by
  have hlock := LockTable.tryLock_eq_some_iff.mpr ⟨h, rfl⟩
  simp only [childStep, hpc]
  rw [if_pos ⟨trivial, hvalid⟩, hlock]

theorem childStep_refused (hpc : s.child p = .lock) (hvalid : (s.args.lock p).Valid)
    (h : LockTable.Refused Conflict s.held p (s.args.lock p)) :
    childStep s p true = some (s.exit p (p ≠ .first)) := by
  have hlock := LockTable.tryLock_eq_none_iff.mpr h
  simp only [childStep, hpc]
  rw [if_pos ⟨trivial, hvalid⟩, hlock]

/-- The first child has its lock, and its own child has opened the file. -/
def bothTry (a : Args) : State where
  args := a
  main := .fork2
  child
    | .first => .waitpid
    | .second => .notForked
    | .grandchild => .lock
  held
    | .first => some a.first
    | _ => none

theorem reachable_bothTry {argv : List CStr} {a : Args} (hargs : args argv = .ok a)
    (hvalid : a.first.Valid) : (machine argv).Reachable (bothTry a) := by
  let s₁ : State :=
    ({ (initial a).goto .first .open with main := .fork2 } : State).goto .first .lock
  let s₂ : State :=
    { s₁.goto .first .locked with held := Function.update s₁.held .first (some a.first) }
  let s₃ : State := (s₂.goto .grandchild .open).goto .first .waitpid
  have h₁ : (machine argv).run (initial a) [.main true, .main true, .child .first true] =
      some s₁ := rfl
  have h₂ : (machine argv).step s₁ (.child .first true) = some s₂ := by
    refine childStep_granted (s := s₁) (p := .first) rfl hvalid ?_
    rintro ⟨q, -, b, hb, -⟩
    cases hb
  have h₃ : (machine argv).step s₂ (.child .first true) = some s₃ := rfl
  have h₄ : (machine argv).step s₃ (.child .grandchild true) = some (s₃.goto .grandchild .lock) :=
    rfl
  have hend : s₃.goto .grandchild .lock = bothTry a := by
    show State.mk _ _ _ _ = State.mk _ _ _ _
    congr 1 <;> funext q <;> cases q <;> rfl
  have hreach := (Machine.Reachable.init (M := machine argv) (.inr ⟨a, hargs, rfl⟩)).run _ h₁
  exact hend ▸ ((hreach.step h₂).step h₃).step h₄

/-- **A reason for a report leads to one in some run.** -/
theorem exists_report {argv : List CStr} {a : Args} (hargs : args argv = .ok a)
    (h : Explained a) : ∃ s p, (machine argv).Reachable s ∧ s.child p = .exited true := by
  obtain ⟨hfirst, hsecond, hreason⟩ := h
  have hboth := reachable_bothTry hargs hfirst
  by_cases hconflict : Conflict a.second a.first
  · -- the first child has the lock that the grandchild wants
    have hrefused : LockTable.Refused Conflict (bothTry a).held .grandchild a.second :=
      ⟨.first, nofun, a.first, rfl, hconflict⟩
    have hst : (machine argv).step (bothTry a) (.child .grandchild true) =
        some ((bothTry a).exit .grandchild true) :=
      childStep_refused (s := bothTry a) (p := .grandchild) rfl hsecond hrefused
    exact ⟨_, .grandchild, hboth.step hst, rfl⟩
  · -- the second child gets it before the grandchild
    have hwrite : a.second.write = true := hreason.resolve_left fun h => hconflict h.symm
    let s₁ : State :=
      ({ (bothTry a).goto .second .open with main := .waitpid } : State).goto .second .lock
    let s₂ : State :=
      { s₁.goto .second .locked with held := Function.update s₁.held .second (some a.second) }
    have h₁ : (machine argv).run (bothTry a) [.main true, .child .second true] = some s₁ := rfl
    have h₂ : (machine argv).step s₁ (.child .second true) = some s₂ := by
      refine childStep_granted (s := s₁) (p := .second) rfl hsecond ?_
      rintro ⟨q, hq, b, hb, hbad⟩
      cases q with
      | first => exact hconflict (Option.some.inj hb ▸ hbad)
      | second => exact hq rfl
      | grandchild => cases hb
    have hrefused : LockTable.Refused Conflict s₂.held .grandchild a.second :=
      ⟨.second, nofun, a.second, rfl, rfl, .inl hwrite⟩
    have hst : (machine argv).step s₂ (.child .grandchild true) = some (s₂.exit .grandchild true) :=
      childStep_refused (s := s₂) (p := .grandchild) rfl hsecond hrefused
    exact ⟨_, .grandchild, ((hboth.run _ h₁).step h₂).step hst, rfl⟩

/-- **For which arguments there can be a report.**  For any command line that uses nothing unset and
any outcome of the calls: some run reports that the two locks exclude each other exactly if both can
be taken and they do, or the second one is for writing, whatever the first one is. -/
theorem report_possible_iff {argv : List CStr} (hdef : args argv ≠ .error .undefined) :
    (∃ s p, (machine argv).Reachable s ∧ s.child p = .exited true) ↔
      ∃ a, args argv = .ok a ∧ Explained a := by
  constructor
  · rintro ⟨s, p, h, hp⟩
    obtain ⟨a, hargs, hs⟩ := sound_of_reachable hdef h
    exact ⟨a, hargs, hs.args ▸ hs.inv.report p hp⟩
  · rintro ⟨a, hargs, h⟩
    exact exists_report hargs h

/-- `cW` and `cX`: the second word leaves `l_type` as the first one has set it. -/
theorem report_possible_keptType :
    ∃ s p, (machine [⟨[], by decide⟩, ⟨[0x63, 0x57], by decide⟩,
      ⟨[0x63, 0x58], by decide⟩]).Reachable s ∧ s.child p = .exited true :=
  (report_possible_iff (by decide)).mpr
    ⟨⟨⟨.fcntl, true, 0⟩, ⟨.fcntl, true, 0⟩⟩, by decide, by decide, by decide, .inr rfl⟩

/-! ## When no call fails -/

/-- The call of the step succeeds. -/
def Succeeds (_ : State) : Label → Prop
  | .main ok | .child _ ok => ok = true

instance : ∀ s l, Decidable (Succeeds s l)
  | _, .main ok | _, .child _ ok => inferInstanceAs (Decidable (ok = true))

/-- What holds as long as no call fails, for two locks in conflict that can be taken. -/
structure Calm (s : State) : Prop where
  /-- The grandchild does not get its lock. -/
  grandchild : ∀ r, s.child .grandchild = .exited r → r = true
  first : s.child .first = .waitpid → s.child .grandchild ≠ .notForked
  /-- A first child that has got no lock has found it in the hands of the second one. -/
  refused : ∀ r, s.child .first = .exited r → s.child .grandchild = .notForked →
    (s.child .second).Holds ∨ s.child .second = .exited false
  forked : s.main ≠ .create → s.main ≠ .fork1 → s.child .first ≠ .notForked
  gone : s.main = .exited → (s.child .first).Gone ∧ (s.child .second).Gone

theorem Calm.withHeld (hs : Calm s) (held : LockTable Child Lock) :
    Calm { s with held := held } :=
  ⟨hs.grandchild, hs.first, hs.refused, hs.forked, hs.gone⟩

/-- The first child goes on. -/
theorem Calm.changeFirst (hs : Calm s) (pc : ChildPc) (hold : ¬ (s.child .first).Gone)
    (hne : pc ≠ .notForked) (hwaits : pc = .waitpid → s.child .grandchild ≠ .notForked)
    (hrefused : ∀ r, pc = .exited r → s.child .grandchild = .notForked →
      (s.child .second).Holds ∨ s.child .second = .exited false) : Calm (s.goto .first pc) :=
  ⟨hs.grandchild, hwaits, hrefused, fun _ _ => hne, fun h => absurd (hs.gone h).1 hold⟩

/-- The second child goes on. -/
theorem Calm.changeSecond (hs : Calm s) (pc : ChildPc) (hold : ¬ (s.child .second).Gone)
    (hrefused : (s.child .second).Holds → pc.Holds ∨ pc = .exited false) :
    Calm (s.goto .second pc) := by
  refine ⟨hs.grandchild, hs.first, fun r hr hg => ?_, hs.forked,
    fun h => absurd (hs.gone h).2 hold⟩
  rcases hs.refused r hr hg with hholds | hexited
  · exact hrefused hholds
  · rw [hexited] at hold
    exact absurd trivial hold

/-- The grandchild goes on. -/
theorem Calm.changeGrandchild (hs : Calm s) (pc : ChildPc) (hne : pc ≠ .notForked)
    (hreport : ∀ r, pc = .exited r → r = true) : Calm (s.goto .grandchild pc) :=
  ⟨hreport, fun _ => hne, fun _ _ hg => absurd hg hne, hs.forked, hs.gone⟩

/-- Of two locks in conflict the grandchild does not get the second one. -/
theorem Inv.not_holds (hs : Inv s) (hconflict : Conflict s.args.first s.args.second) :
    ¬ (s.child .grandchild).Holds := by
  intro hholds
  have hwaits : s.child .first = .waitpid := by
    refine hs.waits fun hgone => ?_
    cases hpc : s.child .grandchild <;> rw [hpc] at hholds hgone <;>
      first | exact hholds | exact hgone
  have hfirst : s.held .first = some s.args.first :=
    (hs.held .first _).mpr ⟨by rw [hwaits]; trivial, rfl⟩
  exact hs.compatible .first .grandchild nofun _ hfirst _
    ((hs.held .grandchild _).mpr ⟨hholds, rfl⟩) hconflict

theorem Calm.childStep (hs : Calm s) (hinv : Inv s)
    (hconflict : Conflict s.args.first s.args.second) (hfirst : s.args.first.Valid)
    (hsecond : s.args.second.Valid) (h : childStep s p true = some s') : Calm s' := by
  have hlock : (s.args.lock p).Valid := by cases p <;> assumption
  cases hpc : s.child p <;> simp only [LockTester.childStep, hpc] at h
  case «open» =>
    cases h
    cases p with
    | first => exact hs.changeFirst .lock (by rw [hpc]; exact id) nofun nofun nofun
    | second =>
      refine hs.changeSecond .lock (by rw [hpc]; exact id) fun hholds => ?_
      rw [hpc] at hholds
      exact absurd hholds id
    | grandchild => exact hs.changeGrandchild .lock nofun nofun
  case lock =>
    rw [if_pos ⟨trivial, hlock⟩] at h
    cases htry : s.held.tryLock Conflict p (s.args.lock p) with
    | some held =>
      rw [htry] at h
      cases h
      cases p with
      | first =>
        exact (hs.changeFirst .locked (by rw [hpc]; exact id) nofun nofun nofun).withHeld held
      | second =>
        exact (hs.changeSecond .locked (by rw [hpc]; exact id) fun _ => .inl trivial).withHeld held
      | grandchild => exact absurd trivial ((hinv.granted hpc hlock htry).not_holds hconflict)
    | none =>
      rw [htry] at h
      cases h
      cases p with
      | first =>
        refine (hs.changeFirst (.exited false) (by rw [hpc]; exact id) nofun nofun
          fun r _ hg => ?_).withHeld _
        obtain ⟨q, hq, b, hb, -⟩ := LockTable.tryLock_eq_none_iff.mp htry
        have hholds := ((hinv.held q b).mp hb).1
        cases q with
        | first => exact absurd rfl hq
        | second => exact .inl hholds
        | grandchild =>
          rw [hg] at hholds
          exact absurd hholds id
      | second =>
        refine (hs.changeSecond (.exited true) (by rw [hpc]; exact id) fun hholds => ?_).withHeld _
        rw [hpc] at hholds
        exact absurd hholds id
      | grandchild =>
        refine (hs.changeGrandchild (.exited true) nofun fun r hr => ?_).withHeld _
        exact (ChildPc.exited.inj hr).symm
  case locked =>
    cases p with
    | first =>
      rw [if_pos rfl] at h
      cases h
      have hold : ¬ ((s.goto .grandchild .open).child .first).Gone := by
        show ¬ (s.child .first).Gone
        rw [hpc]
        exact id
      exact (hs.changeGrandchild .open nofun nofun).changeFirst .waitpid hold nofun (fun _ => nofun)
        nofun
    | second =>
      rw [if_neg nofun] at h
      cases h
      exact hs.changeSecond .waitpid (by rw [hpc]; exact id) fun _ => .inl trivial
    | grandchild =>
      have hnot := hinv.not_holds hconflict
      rw [hpc] at hnot
      exact absurd trivial hnot
  case waitpid =>
    obtain ⟨-, h⟩ := Option.ite_none_left_eq_some.mp h
    cases h
    cases p with
    | first =>
      exact (hs.changeFirst (.exited false) (by rw [hpc]; exact id) nofun nofun
        fun _ _ hg => absurd hg (hs.first hpc)).withHeld _
    | second =>
      exact (hs.changeSecond (.exited false) (by rw [hpc]; exact id) fun _ => .inr rfl).withHeld _
    | grandchild =>
      have hnot := hinv.not_holds hconflict
      rw [hpc] at hnot
      exact absurd trivial hnot
  all_goals cases h

theorem Calm.mainStep (hs : Calm s) (hpending : Pending s) (h : mainStep s true = some s') :
    Calm s' := by
  cases hpc : s.main <;> simp only [LockTester.mainStep, hpc] at h
  case create =>
    cases h
    exact ⟨hs.grandchild, hs.first, hs.refused, nofun, nofun⟩
  case fork1 =>
    cases h
    exact ⟨hs.grandchild, nofun, nofun, fun _ _ => nofun, nofun⟩
  case fork2 =>
    cases h
    refine ⟨hs.grandchild, hs.first, fun r hr hg => ?_, fun _ _ => ?_, nofun⟩
    · have hsecond := hpending.second (.inr (.inr hpc))
      rcases hs.refused r hr hg with hholds | hexited
      · rw [hsecond] at hholds
        exact absurd hholds id
      · cases hsecond.symm.trans hexited
    · exact hs.forked (by rw [hpc]; nofun) (by rw [hpc]; nofun)
  case waitpid =>
    obtain ⟨hgone, h⟩ := Option.ite_none_right_eq_some.mp h
    cases h
    refine ⟨hs.grandchild, hs.first, hs.refused, fun _ _ => ?_, fun _ => hgone⟩
    exact hs.forked (by rw [hpc]; nofun) (by rw [hpc]; nofun)
  case exited => cases h

/-- **The verdict.**  When the two locks exclude each other and no call fails, a run that has come
to its end has a report by the grandchild, in which the first lock is the reason, unless the second
child has locked the file before the first one; then there is no grandchild, and no report. -/
theorem verdict {argv : List CStr} {a : Args} (hargs : args argv = .ok a)
    (hconflict : Conflict a.first a.second) (hfirst : a.first.Valid) (hsecond : a.second.Valid)
    (h : (machine argv).ReachableUnder Succeeds s) (hexit : s.main = .exited) :
    s.child .grandchild = .exited true ∨
      s.child .grandchild = .notForked ∧ s.child .second = .exited false := by
  have hall : Sound a s ∧ Calm s := by
    refine Machine.ReachableUnder.invariant (I := fun s => Sound a s ∧ Calm s) ?_ ?_ h
    · rintro s (hundef | ⟨a', hargs', rfl⟩)
      · cases hargs.symm.trans hundef
      obtain rfl : a = a' := Except.ok.inj (hargs.symm.trans hargs')
      exact ⟨.initial a, nofun, nofun, nofun, fun h => absurd rfl h, nofun⟩
    · rintro s l s' ⟨hs, hcalm⟩ hok hst
      refine ⟨hs.step hst, ?_⟩
      obtain ⟨hinv, hpending, rfl⟩ := hs
      cases l with
      | main ok =>
        cases hok
        exact hcalm.mainStep hpending hst
      | child p ok =>
        cases hok
        exact hcalm.childStep hinv hconflict hfirst hsecond hst
  obtain ⟨hs, hcalm⟩ := hall
  obtain ⟨hgoneFirst, hgoneSecond⟩ := hcalm.gone hexit
  have hgone : (s.child .grandchild).Gone := by
    refine hs.inv.gone fun hwait => ?_
    rw [hwait] at hgoneFirst
    exact hgoneFirst
  have hforked : s.child .first ≠ .notForked :=
    hcalm.forked (by rw [hexit]; nofun) (by rw [hexit]; nofun)
  cases hg : s.child .grandchild <;> rw [hg] at hgone
  case exited r => exact .inl (by rw [hcalm.grandchild r hg])
  case notForked =>
    refine .inr ⟨rfl, ?_⟩
    cases hf : s.child .first <;> rw [hf] at hgoneFirst
    case exited r =>
      refine (hcalm.refused r hf hg).resolve_left fun hholds => ?_
      cases hpc : s.child .second <;> rw [hpc] at hholds hgoneSecond <;>
        first | exact hholds | exact hgoneSecond
    case notForked => exact absurd hf hforked
    all_goals exact absurd hgoneFirst id
  all_goals exact absurd hgone id

/-- The words `lW` and `lW`, and their locks. -/
def twoWords : List CStr :=
  [⟨[], by decide⟩, ⟨[0x6c, 0x57], by decide⟩, ⟨[0x6c, 0x57], by decide⟩]

def twoWrites : Args := ⟨⟨.flock, true, 0⟩, ⟨.flock, true, 0⟩⟩

/-- The first child is not overtaken. -/
def inOrder : List Label :=
  [.main true, .main true, .child .first true, .child .first true, .child .first true,
    .child .grandchild true, .child .grandchild true, .child .first true, .main true,
    .child .second true, .child .second true, .child .second true, .child .second true, .main true]

theorem verdict_inOrder :
    ∃ s, (machine twoWords).run (initial twoWrites) inOrder = some s ∧
      (s.child .grandchild = .exited true ∨
        s.child .grandchild = .notForked ∧ s.child .second = .exited false) := by
  have hargs : args twoWords = .ok twoWrites := by decide
  have hinit : (machine twoWords).ReachableUnder Succeeds (initial twoWrites) :=
    .init (.inr ⟨twoWrites, hargs, rfl⟩)
  exact ⟨_, rfl, verdict hargs (by decide) (by decide) (by decide)
    (hinit.run inOrder (by decide +kernel) rfl) rfl⟩

end LockTester
end CodeStrudy
