import CodeStrudy.Foundation.FileLocks
import CodeStrudy.Foundation.Machine

/-!
# Two processes and two locks

`practice/55.2`: the child locks `temp1.txt` and then `temp2.txt`; the parent locks them in the
other order and then waits for the child, with both locks in its hands.  The comment of the source
expects a deadlock.  A run is any interleaving of the two.

## What is proved

`decided_by_temp2`: as long as no call fails, the lock of `temp2.txt` decides.  If the child gets it
first, every run comes to the end of both processes; if the parent gets it first, every run comes to
a deadlock, which may be in `flock` or in `waitpid`; and before that nothing is decided.
-/

namespace CodeStrudy
namespace FlockDeadlock

open Foundation

/-- `TEMP1_PATH` and `TEMP2_PATH`. -/
inductive TempFile where
  | temp1
  | temp2
  deriving DecidableEq

inductive Process where
  | parent
  | child
  deriving DecidableEq

/-- Where the parent is: the creation of the two files, `fork`, its own `open` calls, its locks. -/
inductive ParentPc where
  | create1
  | create2
  | fork
  | openP1
  | openP2
  | flockP2
  | flockP1
  | waitpid
  | exited
  deriving DecidableEq

/-- Where the child is.  `exit` is behind its last `flock`. -/
inductive ChildPc where
  | notForked
  | openC1
  | openC2
  | flockC1
  | flockC2
  | exit
  | exited
  deriving DecidableEq

/-- The two processes and the locks.  Each process opens each file once, so the description that
holds a lock is named by its process. -/
structure State where
  parent : ParentPc
  child : ChildPc
  locks : FileLocks TempFile Process

/-- One step of a process, and whether its call succeeds. -/
inductive Label where
  | parent (ok : Bool)
  | child (ok : Bool)
  deriving DecidableEq

/-- The program is started. -/
def initial : State := ⟨.create1, .notForked, .free⟩

/-- The end of a process closes its descriptions. -/
def State.exitParent (s : State) : State :=
  { s with parent := .exited, locks := s.locks.close (· = .parent) }

def State.exitChild (s : State) : State :=
  { s with child := .exited, locks := s.locks.close (· = .child) }

/-- One step of the parent.  After each call that fails it exits; the result of `waitpid` is not
looked at. -/
def parentStep (s : State) (ok : Bool) : Option State :=
  match s.parent with
  | .create1 => some (if ok then { s with parent := .create2 } else s.exitParent)
  | .create2 => some (if ok then { s with parent := .fork } else s.exitParent)
  | .fork => some (if ok then { s with parent := .openP1, child := .openC1 } else s.exitParent)
  | .openP1 => some (if ok then { s with parent := .openP2 } else s.exitParent)
  | .openP2 => some (if ok then { s with parent := .flockP2 } else s.exitParent)
  | .flockP2 =>
    if ok then
      (s.locks.lockEx .temp2 .parent).map fun locks => { s with parent := .flockP1, locks := locks }
    else some s.exitParent
  | .flockP1 =>
    if ok then
      (s.locks.lockEx .temp1 .parent).map fun locks => { s with parent := .waitpid, locks := locks }
    else some s.exitParent
  | .waitpid => if s.child = .exited then some s.exitParent else none
  | .exited => none

/-- One step of the child. -/
def childStep (s : State) (ok : Bool) : Option State :=
  match s.child with
  | .notForked => none
  | .openC1 => some (if ok then { s with child := .openC2 } else s.exitChild)
  | .openC2 => some (if ok then { s with child := .flockC1 } else s.exitChild)
  | .flockC1 =>
    if ok then
      (s.locks.lockEx .temp1 .child).map fun locks => { s with child := .flockC2, locks := locks }
    else some s.exitChild
  | .flockC2 =>
    if ok then
      (s.locks.lockEx .temp2 .child).map fun locks => { s with child := .exit, locks := locks }
    else some s.exitChild
  | .exit => some s.exitChild
  | .exited => none

/-- One step. -/
def step (s : State) : Label → Option State
  | .parent ok => parentStep s ok
  | .child ok => childStep s ok

/-- The program. -/
def machine : Machine State Label where
  init s := s = initial
  step := step

/-! ## The property -/

/-- The call of the step succeeds. -/
def Succeeds (_ : State) : Label → Prop
  | .parent ok | .child ok => ok = true

instance : ∀ s a, Decidable (Succeeds s a)
  | _, .parent ok | _, .child ok => inferInstanceAs (Decidable (ok = true))

/-- The program, as long as no call fails. -/
def calm : Machine State Label := machine.restrict Succeeds

/-- Both processes have ended. -/
def Ended (s : State) : Prop := s.parent = .exited ∧ s.child = .exited

/-- Neither process has ended, and neither can go on. -/
def Deadlocked (s : State) : Prop := s.parent ≠ .exited ∧ s.child ≠ .exited ∧ calm.Stuck s

/-! ## Who holds what -/

/-- The locks that the child holds at a point of its program. -/
def ChildPc.Holds : ChildPc → TempFile → Prop
  | .flockC2, f => f = .temp1
  | .exit, _ => True
  | _, _ => False

/-- The locks that the parent holds at a point of its program. -/
def ParentPc.Holds : ParentPc → TempFile → Prop
  | .flockP1, f => f = .temp2
  | .waitpid, _ => True
  | _, _ => False

/-- The parent has not come to its `fork`. -/
def ParentPc.BeforeFork : ParentPc → Prop
  | .create1 | .create2 | .fork => True
  | _ => False

/-- The locks are where the processes have put them, and each process is there when the other needs
it. -/
structure Inv (s : State) : Prop where
  child_holds : ∀ f, s.locks f = some .child ↔ s.child.Holds f
  parent_holds : ∀ f, s.locks f = some .parent ↔ s.parent.Holds f
  forked : s.child = .notForked ↔ s.parent.BeforeFork
  joined : s.parent = .exited → s.child = .exited

/-- What is left to do. -/
def ParentPc.rest : ParentPc → ℕ
  | .create1 => 8
  | .create2 => 7
  | .fork => 6
  | .openP1 => 5
  | .openP2 => 4
  | .flockP2 => 3
  | .flockP1 => 2
  | .waitpid => 1
  | .exited => 0

def ChildPc.rest : ChildPc → ℕ
  | .notForked => 6
  | .openC1 => 5
  | .openC2 => 4
  | .flockC1 => 3
  | .flockC2 => 2
  | .exit => 1
  | .exited => 0

def State.rest (s : State) : ℕ := s.parent.rest + s.child.rest

variable {s t : State}

theorem inv_initial : Inv initial where
  child_holds _ := iff_of_false (Option.some_ne_none _).symm id
  parent_holds _ := iff_of_false (Option.some_ne_none _).symm id
  forked := iff_of_true rfl trivial
  joined h := nomatch h

/-! ## Moves -/

section Moves

variable {p : ParentPc} {c : ChildPc} {f : TempFile} {l : FileLocks TempFile Process}

theorem Inv.moveParent (hI : Inv s) (hholds : ∀ f, p.Holds f ↔ s.parent.Holds f)
    (hfork : p.BeforeFork ↔ s.parent.BeforeFork) (hp : p ≠ .exited) :
    Inv { s with parent := p } where
  child_holds := hI.child_holds
  parent_holds f := (hI.parent_holds f).trans (hholds f).symm
  forked := hI.forked.trans hfork.symm
  joined h := absurd h hp

theorem Inv.moveChild (hI : Inv s) (hholds : ∀ f, c.Holds f ↔ s.child.Holds f)
    (hfork : c = .notForked ↔ s.child = .notForked) (hc : s.child ≠ .exited) :
    Inv { s with child := c } where
  child_holds f := (hI.child_holds f).trans (hholds f).symm
  parent_holds := hI.parent_holds
  forked := hfork.trans hI.forked
  joined h := absurd (hI.joined h) hc

theorem Inv.lockParent (hI : Inv s) (hl : s.locks.lockEx f .parent = some l)
    (hholds : ∀ g, p.Holds g ↔ g = f ∨ s.parent.Holds g)
    (hfork : p.BeforeFork ↔ s.parent.BeforeFork) (hp : p ≠ .exited) :
    Inv { s with parent := p, locks := l } where
  child_holds g := by
    rw [FileLocks.eq_some_iff_of_lockEx hl]
    simpa using hI.child_holds g
  parent_holds g := by
    rw [FileLocks.eq_some_iff_of_lockEx hl, hI.parent_holds g, hholds g]
    simp
  forked := hI.forked.trans hfork.symm
  joined h := absurd h hp

theorem Inv.lockChild (hI : Inv s) (hl : s.locks.lockEx f .child = some l)
    (hholds : ∀ g, c.Holds g ↔ g = f ∨ s.child.Holds g)
    (hfork : c = .notForked ↔ s.child = .notForked) (hc : s.child ≠ .exited) :
    Inv { s with child := c, locks := l } where
  child_holds g := by
    rw [FileLocks.eq_some_iff_of_lockEx hl, hI.child_holds g, hholds g]
    simp
  parent_holds g := by
    rw [FileLocks.eq_some_iff_of_lockEx hl]
    simpa using hI.parent_holds g
  forked := hfork.trans hI.forked
  joined h := absurd (hI.joined h) hc

/-- The end of the child frees its locks. -/
theorem Inv.exitChild (hI : Inv s) (hc : s.child ≠ .notForked) : Inv s.exitChild where
  child_holds g := by
    rw [State.exitChild, FileLocks.close_eq_some_iff]
    exact iff_of_false (fun h => h.2 rfl) id
  parent_holds g := by
    rw [State.exitChild, FileLocks.close_eq_some_iff]
    simpa using hI.parent_holds g
  forked := iff_of_false ChildPc.noConfusion fun h => hc (hI.forked.mpr h)
  joined _ := rfl

/-- The parent ends when the child has. -/
theorem Inv.exitParent (hI : Inv s) (hc : s.child = .exited) : Inv s.exitParent where
  child_holds g := by
    rw [State.exitParent, FileLocks.close_eq_some_iff]
    simpa using hI.child_holds g
  parent_holds g := by
    rw [State.exitParent, FileLocks.close_eq_some_iff]
    exact iff_of_false (fun h => h.2 rfl) id
  forked := iff_of_false (fun h => nomatch hc.symm.trans h) id
  joined _ := hc

end Moves

/-! ## Steps -/

/-- A step of the parent. -/
theorem Inv.parentStep (hI : Inv s) (h : parentStep s true = some t) :
    Inv t ∧ t.rest < s.rest := by
  cases hp : s.parent <;> simp only [FlockDeadlock.parentStep, hp, if_true] at h
  case create1 | create2 | openP1 | openP2 =>
    obtain rfl := Option.some.inj h
    refine ⟨hI.moveParent (by simp [hp, ParentPc.Holds]) (by simp [hp, ParentPc.BeforeFork])
      (by simp), ?_⟩
    simp [State.rest, hp, ParentPc.rest]
  case fork =>
    have hc : s.child = .notForked := hI.forked.mpr (hp ▸ trivial)
    obtain rfl := Option.some.inj h
    refine ⟨⟨fun f => ?_, fun f => ?_, by simp [ParentPc.BeforeFork], by simp⟩, ?_⟩
    · simpa [hc, ChildPc.Holds] using hI.child_holds f
    · simpa [hp, ParentPc.Holds] using hI.parent_holds f
    · simp [State.rest, hp, hc, ParentPc.rest, ChildPc.rest]
  case flockP2 | flockP1 =>
    obtain ⟨l, hl, rfl⟩ := Option.map_eq_some_iff.mp h
    refine ⟨hI.lockParent hl (fun g => ?_) (by simp [hp, ParentPc.BeforeFork]) (by simp), ?_⟩
    · cases g <;> simp [hp, ParentPc.Holds]
    · simp [State.rest, hp, ParentPc.rest]
  case waitpid =>
    obtain ⟨hc, h⟩ := Option.ite_none_right_eq_some.mp h
    obtain rfl := Option.some.inj h
    exact ⟨hI.exitParent hc, by simp [State.rest, State.exitParent, hp, ParentPc.rest]⟩
  case exited => cases h

/-- A step of the child. -/
theorem Inv.childStep (hI : Inv s) (h : childStep s true = some t) :
    Inv t ∧ t.rest < s.rest := by
  cases hc : s.child <;> simp only [FlockDeadlock.childStep, hc, if_true] at h
  case notForked | exited => cases h
  case openC1 | openC2 =>
    obtain rfl := Option.some.inj h
    refine ⟨hI.moveChild (by simp [hc, ChildPc.Holds]) (by simp [hc]) (by simp [hc]), ?_⟩
    simp [State.rest, hc, ChildPc.rest]
  case flockC1 | flockC2 =>
    obtain ⟨l, hl, rfl⟩ := Option.map_eq_some_iff.mp h
    refine ⟨hI.lockChild hl (fun g => ?_) (by simp [hc]) (by simp [hc]), ?_⟩
    · cases g <;> simp [hc, ChildPc.Holds]
    · simp [State.rest, hc, ChildPc.rest]
  case exit =>
    obtain rfl := Option.some.inj h
    exact ⟨hI.exitChild (by simp [hc]), by simp [State.rest, State.exitChild, hc, ChildPc.rest]⟩

theorem calm_step_eq_some_iff {a : Label} :
    calm.step s a = some t ↔ Succeeds s a ∧ step s a = some t :=
  Machine.restrict_step_eq_some_iff

/-- **Every step keeps the invariant and leaves less to do.** -/
theorem Inv.step {a : Label} (hI : Inv s) (h : calm.step s a = some t) :
    Inv t ∧ t.rest < s.rest := by
  obtain ⟨ha, h⟩ := calm_step_eq_some_iff.mp h
  cases a with
  | parent ok =>
    obtain rfl : ok = true := ha
    exact hI.parentStep h
  | child ok =>
    obtain rfl : ok = true := ha
    exact hI.childStep h

/-! ## Who is first -/

/-- The child has got the lock of `temp2.txt`. -/
def ChildFirst (s : State) : Prop := s.locks .temp2 = some .child ∨ s.child = .exited

/-- The parent has got the lock of `temp2.txt`, and the child is not at its end. -/
def ParentFirst (s : State) : Prop := s.locks .temp2 = some .parent ∧ s.child ≠ .exited

theorem Inv.childFirst_iff (hI : Inv s) :
    ChildFirst s ↔ s.child = .exit ∨ s.child = .exited := by
  rw [ChildFirst, hI.child_holds]
  cases s.child <;> simp [ChildPc.Holds]

theorem Inv.parentFirst_iff (hI : Inv s) :
    ParentFirst s ↔ (s.parent = .flockP1 ∨ s.parent = .waitpid) ∧ s.child ≠ .exited := by
  rw [ParentFirst, hI.parent_holds]
  cases s.parent <;> simp [ParentPc.Holds]

/-- A lock is granted to the parent unless the child holds it. -/
theorem exists_lock_parent {f : TempFile} (h : s.locks f ≠ some .child) :
    ∃ l, s.locks.lockEx f .parent = some l := by
  refine Option.ne_none_iff_exists'.mp fun hnone => ?_
  obtain ⟨e, he, hne⟩ := FileLocks.lockEx_eq_none_iff.mp hnone
  cases e with
  | parent => exact hne rfl
  | child => exact h he

theorem exists_lock_child {f : TempFile} (h : s.locks f ≠ some .parent) :
    ∃ l, s.locks.lockEx f .child = some l := by
  refine Option.ne_none_iff_exists'.mp fun hnone => ?_
  obtain ⟨e, he, hne⟩ := FileLocks.lockEx_eq_none_iff.mp hnone
  cases e with
  | parent => exact h he
  | child => exact hne rfl

/-- The parent's steps leave the child alone, but for its start. -/
theorem child_of_parentStep (h : parentStep s true = some t) :
    t.child = s.child ∨ s.parent = .fork ∧ t.child = .openC1 := by
  cases hp : s.parent <;> simp only [parentStep, hp, if_true] at h
  case flockP2 | flockP1 =>
    obtain ⟨l, -, rfl⟩ := Option.map_eq_some_iff.mp h
    exact .inl rfl
  case waitpid =>
    obtain ⟨-, h⟩ := Option.ite_none_right_eq_some.mp h
    obtain rfl := Option.some.inj h
    exact .inl rfl
  case exited => cases h
  case fork =>
    obtain rfl := Option.some.inj h
    exact .inr ⟨rfl, rfl⟩
  all_goals
    obtain rfl := Option.some.inj h
    exact .inl rfl

/-- The child's steps leave the parent alone. -/
theorem parent_of_childStep (h : childStep s true = some t) : t.parent = s.parent := by
  cases hc : s.child <;> simp only [childStep, hc, if_true] at h
  case notForked | exited => cases h
  case flockC1 | flockC2 =>
    obtain ⟨l, -, rfl⟩ := Option.map_eq_some_iff.mp h
    rfl
  all_goals
    obtain rfl := Option.some.inj h
    rfl

/-! ## The child is first -/

theorem Inv.childFirst_of_parentStep (hI : Inv s) (hI' : Inv t)
    (h : FlockDeadlock.parentStep s true = some t) : ChildFirst t ↔ ChildFirst s := by
  rw [hI.childFirst_iff, hI'.childFirst_iff]
  rcases child_of_parentStep h with hc | ⟨hp, hc⟩
  · rw [hc]
  · have hnot : s.child = .notForked := hI.forked.mpr (hp ▸ trivial)
    simp [hc, hnot]

theorem ChildFirst.step {a : Label} (hI : Inv s) (hs : ChildFirst s)
    (h : calm.step s a = some t) : ChildFirst t := by
  obtain ⟨ha, hst⟩ := calm_step_eq_some_iff.mp h
  have hI' := (hI.step h).1
  cases a with
  | parent ok =>
    obtain rfl : ok = true := ha
    exact (hI.childFirst_of_parentStep hI' hst).mpr hs
  | child ok =>
    obtain rfl : ok = true := ha
    rcases hI.childFirst_iff.mp hs with hc | hc <;>
      simp only [FlockDeadlock.step, childStep, hc] at hst
    · obtain rfl := Option.some.inj hst
      exact .inr rfl
    · cases hst

/-- Behind the child's last lock the child goes on to its end, and then the parent. -/
theorem ChildFirst.exists_step (hI : Inv s) (hs : ChildFirst s) (hend : ¬ Ended s) :
    ∃ a t, calm.step s a = some t := by
  suffices h : ∃ a t, Succeeds s a ∧ FlockDeadlock.step s a = some t by
    obtain ⟨a, t, ha, hst⟩ := h
    exact ⟨a, t, calm_step_eq_some_iff.mpr ⟨ha, hst⟩⟩
  rcases hI.childFirst_iff.mp hs with hc | hc
  · exact ⟨.child true, s.exitChild, rfl, by simp [FlockDeadlock.step, childStep, hc]⟩
  · refine ⟨.parent true, ?_⟩
    have hlock : ∀ f, ∃ l, s.locks.lockEx f .parent = some l := fun f =>
      exists_lock_parent fun h => by
        have hholds := (hI.child_holds f).mp h
        rw [hc] at hholds
        exact hholds
    obtain ⟨l₁, hl₁⟩ := hlock .temp1
    obtain ⟨l₂, hl₂⟩ := hlock .temp2
    cases hp : s.parent
    case exited => exact absurd ⟨hp, hc⟩ hend
    all_goals simp [Succeeds, FlockDeadlock.step, FlockDeadlock.parentStep, hp, hc, hl₁, hl₂]

/-! ## The parent is first -/

theorem ParentFirst.step {a : Label} (hI : Inv s) (hs : ParentFirst s)
    (h : calm.step s a = some t) : ParentFirst t := by
  obtain ⟨ha, hst⟩ := calm_step_eq_some_iff.mp h
  have hI' := (hI.step h).1
  obtain ⟨hp, hc⟩ := hI.parentFirst_iff.mp hs
  rw [hI'.parentFirst_iff]
  cases a with
  | parent ok =>
    obtain rfl : ok = true := ha
    rcases hp with hp | hp <;> simp only [FlockDeadlock.step, FlockDeadlock.parentStep, hp] at hst
    · obtain ⟨l, -, rfl⟩ := Option.map_eq_some_iff.mp hst
      exact ⟨.inr rfl, hc⟩
    · exact absurd (Option.ite_none_right_eq_some.mp hst).1 hc
  | child ok =>
    obtain rfl : ok = true := ha
    refine ⟨parent_of_childStep hst ▸ hp, fun ht => ?_⟩
    -- The child would have held the lock that the parent holds.
    cases hc' : s.child <;> simp only [FlockDeadlock.step, childStep, hc', if_true] at hst
    case notForked | exited => cases hst
    case flockC1 | flockC2 =>
      obtain ⟨l, -, rfl⟩ := Option.map_eq_some_iff.mp hst
      cases ht
    case exit =>
      have hown : s.locks .temp2 = some .child := (hI.child_holds _).mpr (hc' ▸ trivial)
      cases hown.symm.trans hs.1
    all_goals
      obtain rfl := Option.some.inj hst
      cases ht

/-! ## Before the lock of `temp2.txt` -/

/-- Neither process has got the lock of `temp2.txt`. -/
structure Undecided (s : State) : Prop extends Inv s where
  not_childFirst : ¬ ChildFirst s
  not_parentFirst : ¬ ParentFirst s

theorem Undecided.child_ne_exited (hs : Undecided s) : s.child ≠ .exited :=
  fun h => hs.not_childFirst (.inr h)

theorem Undecided.exists_parentStep (hs : Undecided s) : ∃ t, parentStep s true = some t := by
  have hnot := mt hs.toInv.parentFirst_iff.mpr hs.not_parentFirst
  obtain ⟨l, hl⟩ := exists_lock_parent fun h => hs.not_childFirst (.inl h)
  cases hp : s.parent
  case flockP1 | waitpid => exact absurd ⟨by simp [hp], hs.child_ne_exited⟩ hnot
  case exited => exact absurd (hs.joined hp) hs.child_ne_exited
  all_goals simp [parentStep, hp, hl]

theorem Undecided.exists_childStep (hs : Undecided s) (hc : s.child ≠ .notForked) :
    ∃ t, childStep s true = some t := by
  have hnot := mt hs.toInv.parentFirst_iff.mpr hs.not_parentFirst
  have hchild := mt hs.toInv.childFirst_iff.mpr hs.not_childFirst
  have hlock : ∀ f, ∃ l, s.locks.lockEx f .child = some l := fun f =>
    exists_lock_child fun h => hnot <| by
      have hholds := (hs.parent_holds f).mp h
      refine ⟨?_, hs.child_ne_exited⟩
      cases hp : s.parent <;> simp [hp, ParentPc.Holds] at hholds ⊢
  obtain ⟨l₁, hl₁⟩ := hlock .temp1
  obtain ⟨l₂, hl₂⟩ := hlock .temp2
  cases hc' : s.child
  case notForked => exact absurd hc' hc
  case exit | exited => simp [hc'] at hchild
  all_goals simp [childStep, hc', hl₁, hl₂]

theorem calm_parent (h : parentStep s true = some t) : calm.step s (.parent true) = some t :=
  calm_step_eq_some_iff.mpr ⟨rfl, h⟩

theorem calm_child (h : childStep s true = some t) : calm.step s (.child true) = some t :=
  calm_step_eq_some_iff.mpr ⟨rfl, h⟩

/-- If the parent runs alone, it gets the lock. -/
theorem Undecided.exists_run_parentFirst (hs : Undecided s) :
    ∃ as t, calm.run s as = some t ∧ Inv t ∧ ParentFirst t := by
  refine Machine.exists_run_of_measure (I := Undecided) State.rest (fun s hs => ?_) hs
  obtain ⟨t, hst⟩ := hs.exists_parentStep
  obtain ⟨hI, hlt⟩ := hs.parentStep hst
  refine ⟨.parent true, t, calm_parent hst, ?_⟩
  have hchild : ¬ ChildFirst t :=
    mt (hs.toInv.childFirst_of_parentStep hI hst).mp hs.not_childFirst
  by_cases hfirst : ParentFirst t
  · exact .inl ⟨hI, hfirst⟩
  · exact .inr ⟨⟨hI, hchild, hfirst⟩, hlt⟩

/-- If the child runs alone once it is there, it gets the lock. -/
theorem Undecided.exists_run_childFirst (hs : Undecided s) :
    ∃ as t, calm.run s as = some t ∧ Inv t ∧ ChildFirst t := by
  refine Machine.exists_run_of_measure (I := Undecided) State.rest (fun s hs => ?_) hs
  by_cases hc : s.child = .notForked
  · obtain ⟨t, hst⟩ := hs.exists_parentStep
    obtain ⟨hI, hlt⟩ := hs.parentStep hst
    refine ⟨.parent true, t, calm_parent hst, .inr ⟨⟨hI, ?_, ?_⟩, hlt⟩⟩
    · exact mt (hs.toInv.childFirst_of_parentStep hI hst).mp hs.not_childFirst
    · have hp := hs.forked.mp hc
      rw [hI.parentFirst_iff]
      cases hp' : s.parent <;> simp only [hp', ParentPc.BeforeFork] at hp <;>
        simp only [parentStep, hp', if_true, Option.some.injEq] at hst <;> subst hst <;> simp
  · obtain ⟨t, hst⟩ := hs.exists_childStep hc
    obtain ⟨hI, hlt⟩ := hs.childStep hst
    refine ⟨.child true, t, calm_child hst, ?_⟩
    by_cases hfirst : ChildFirst t
    · exact .inl ⟨hI, hfirst⟩
    · refine .inr ⟨⟨hI, hfirst, fun h => hs.not_parentFirst ?_⟩, hlt⟩
      have hp := (hI.parentFirst_iff.mp h).1
      rw [parent_of_childStep hst] at hp
      exact hs.toInv.parentFirst_iff.mpr ⟨hp, hs.child_ne_exited⟩

/-! ## The outcome -/

theorem Ended.stuck (h : Ended s) : calm.Stuck s := by
  intro a
  refine Option.eq_none_iff_forall_ne_some.mpr fun t hst => ?_
  obtain ⟨-, hst⟩ := calm_step_eq_some_iff.mp hst
  cases a <;> simp [step, parentStep, childStep, h.1, h.2] at hst

theorem Deadlocked.stuck (h : Deadlocked s) : calm.Stuck s := h.2.2

/-- Behind the child's lock both processes come to their ends. -/
theorem ChildFirst.ends (hI : Inv s) (hs : ChildFirst s) : calm.Inevitable Ended s := by
  refine .of_measure (I := fun s => Inv s ∧ ChildFirst s) State.rest ?_ ?_ ⟨hI, hs⟩
  · intro s hs hend
    exact hs.2.exists_step hs.1 hend
  · intro s a t hs _ hst
    obtain ⟨hI, hlt⟩ := hs.1.step hst
    exact .inr ⟨⟨hI, hs.2.step hs.1 hst⟩, hlt⟩

/-- Behind the parent's lock the two come to a deadlock. -/
theorem ParentFirst.deadlocks (hI : Inv s) (hs : ParentFirst s) :
    calm.Inevitable Deadlocked s := by
  refine .of_measure (I := fun s => Inv s ∧ ParentFirst s) State.rest ?_ ?_ ⟨hI, hs⟩
  · intro s hs hdead
    have hp : s.parent ≠ .exited := by
      rcases (hs.1.parentFirst_iff.mp hs.2).1 with hp | hp <;> simp [hp]
    by_contra hno
    refine hdead ⟨hp, hs.2.2, fun a => Option.eq_none_iff_forall_ne_some.mpr fun t hst => ?_⟩
    exact hno ⟨a, t, hst⟩
  · intro s a t hs _ hst
    obtain ⟨hI, hlt⟩ := hs.1.step hst
    exact .inr ⟨⟨hI, hs.2.step hs.1 hst⟩, hlt⟩

theorem inv_of_reachable (h : calm.Reachable s) : Inv s := by
  refine h.invariant (fun s hinit => ?_) fun s a t hI hst => (hI.step hst).1
  obtain rfl : s = initial := hinit
  exact inv_initial

/-- **The lock of `temp2.txt` decides.** In every state reached by calls that succeed: all runs come
to the end of both processes exactly if the child has got the lock of `temp2.txt`, and all runs come
to a deadlock exactly if the parent has got it before the child has ended.  Until then there are
runs to both. -/
theorem decided_by_temp2 (h : calm.Reachable s) :
    (calm.Inevitable Ended s ↔ s.locks .temp2 = some .child ∨ s.child = .exited) ∧
    (calm.Inevitable Deadlocked s ↔ s.locks .temp2 = some .parent ∧ s.child ≠ .exited) ∧
    (s.locks .temp2 = none → s.child ≠ .exited →
      (∃ as t, calm.run s as = some t ∧ calm.Inevitable Ended t) ∧
      ∃ as t, calm.run s as = some t ∧ calm.Inevitable Deadlocked t) := by
  have hI := inv_of_reachable h
  have hexcl : ∀ s, Ended s → ¬ Deadlocked s := fun s hend hdead => hdead.1 hend.1
  have hnot : ∀ s, calm.Inevitable Ended s → ¬ calm.Inevitable Deadlocked s := fun s hend =>
    hend.not_both (fun _ => Ended.stuck) (fun _ => Deadlocked.stuck) hexcl
  have hboth : Undecided s →
      (∃ as t, calm.run s as = some t ∧ calm.Inevitable Ended t) ∧
      ∃ as t, calm.run s as = some t ∧ calm.Inevitable Deadlocked t := by
    intro hs
    obtain ⟨as, t, hrun, hIt, hfirst⟩ := hs.exists_run_childFirst
    obtain ⟨bs, u, hrun', hIu, hfirst'⟩ := hs.exists_run_parentFirst
    exact ⟨⟨as, t, hrun, hfirst.ends hIt⟩, bs, u, hrun', hfirst'.deadlocks hIu⟩
  refine ⟨⟨fun hend => ?_, ChildFirst.ends hI⟩, ⟨fun hdead => ?_, ParentFirst.deadlocks hI⟩,
    fun hfree hc => hboth ⟨hI, ?_, ?_⟩⟩
  · by_contra hchild
    by_cases hparent : ParentFirst s
    · exact hnot s hend (hparent.deadlocks hI)
    · obtain ⟨-, as, t, hrun, hdead⟩ := hboth ⟨hI, hchild, hparent⟩
      exact hnot t (hend.run (fun _ => Ended.stuck) as hrun) hdead
  · by_contra hparent
    by_cases hchild : ChildFirst s
    · exact hnot s (hchild.ends hI) hdead
    · obtain ⟨⟨as, t, hrun, hend⟩, -⟩ := hboth ⟨hI, hchild, hparent⟩
      exact hnot t hend (hdead.run (fun _ => Deadlocked.stuck) as hrun)
  · rintro (hown | hexited)
    · cases hown.symm.trans hfree
    · exact hc hexited
  · rintro ⟨hown, -⟩
    cases hown.symm.trans hfree

/-- At the start nothing is decided. -/
theorem decided_by_temp2_initial :
    (∃ as t, calm.run initial as = some t ∧ calm.Inevitable Ended t) ∧
      ∃ as t, calm.run initial as = some t ∧ calm.Inevitable Deadlocked t :=
  (decided_by_temp2 (.init rfl)).2.2 rfl nofun

end FlockDeadlock
end CodeStrudy
