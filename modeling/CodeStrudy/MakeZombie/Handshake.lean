import CodeStrudy.Foundation.Machine
import CodeStrudy.Foundation.Signals

/-!
# A parent that waits for its child's signal

`practice/26.4`: the parent blocks `SYNC_SIG`, installs a handler for it, forks, and waits in
`sigsuspend`.  The child has registered a function for its exit that sends `SYNC_SIG` to the
parent.  The woken parent lists the processes, sends `SIGKILL` to the child, sleeps, and lists the
processes again, to show that the child is a zombie and stays one.  Whether it is depends on what
the program inherits: if `SIGCHLD` is ignored, nothing is left of a child that has ended.  A
`SYNC_SIG` that is ignored or blocked when the program starts is not considered.

## What is proved

* `lists_of_success`: what the two lists of a parent that exits with success show of the child.
* `stuck_iff_unsent`: nobody can go on exactly if both processes are at their ends, or the parent
  waits for a signal that nobody has sent: one that has been sent is not lost.
* `succeeds_iff`: when the calls succeed and no signal comes before the mask is set, all runs come
  to the success of the parent exactly if `SIGCHLD` is not ignored.
-/

namespace CodeStrudy
namespace MakeZombie

open Foundation Signals

/-! ## The two processes -/

def SYNC_SIG : ℕ := SIGUSR1

/-- The next call of the parent; `list` and `listAgain` are its two calls of `system`. -/
inductive ParentPc where
  | block
  | install
  | fork
  | suspend
  | list
  | kill
  | sleep
  | listAgain
  | exited (success : Bool)
  | killed
  deriving DecidableEq

/-- Where the child is: before its `atexit`, in `childReturnCallbaack`, or behind it; a `zombie` is
still in the table of processes, and of one that is `gone` nothing is left. -/
inductive ChildPc where
  | notForked
  | start
  | callback
  | ending
  | zombie
  | gone
  deriving DecidableEq

/-- There is a parent to send signals to. -/
def ParentPc.runs : ParentPc → Bool
  | .exited _ | .killed => false
  | _ => true

/-- What a child that has ended is, if `SIGCHLD` is ignored or not. -/
def ended (ignored : Bool) : ChildPc := if ignored then .gone else .zombie

/-- The two processes and the signals for the parent. -/
structure State where
  parent : ParentPc
  child : ChildPc
  pending : Pending Unit
  /-- How many `SYNC_SIG` other processes have still to send. -/
  others : ℕ
  /-- The child has sent its signal. -/
  sent : Bool
  /-- What the lists of the parent show of the child. -/
  lists : List ChildPc

/-- A process goes on, and its call succeeds or not; a signal is delivered to the parent; another
process sends one. -/
inductive Label where
  | parent (ok : Bool)
  | child (ok : Bool)
  | deliver
  | other
  deriving DecidableEq

def initial (n : ℕ) : State := ⟨.block, .notForked, .empty, n, false, []⟩

/-- The next step of the parent.  `kill` finds no child if nothing is left of it. -/
def parentStep (ignored ok : Bool) (s : State) : Option State :=
  match s.parent with
  | .block => some { s with parent := if ok then .install else .exited false }
  | .install => some { s with parent := if ok then .fork else .exited false }
  | .fork =>
    if ok then some { s with parent := .suspend, child := .start }
    else some { s with parent := .exited false }
  | .list => some { s with parent := .kill, lists := s.lists ++ [s.child] }
  | .kill =>
    if s.child = .gone then some { s with parent := .exited false }
    else some { s with parent := .sleep, child := ended ignored }
  | .sleep => some { s with parent := .listAgain }
  | .listAgain => some { s with parent := .exited true, lists := s.lists ++ [s.child] }
  | .suspend | .exited _ | .killed => none

/-- `SYNC_SIG` is sent to the parent, if there is one. -/
def State.signal (s : State) : State :=
  if s.parent.runs then { s with pending := s.pending.generate SYNC_SIG () } else s

/-- The next step of the child.  An `atexit` that fails is not noticed. -/
def childStep (ignored ok : Bool) (s : State) : Option State :=
  match s.child with
  | .start => some { s with child := if ok then .callback else .ending }
  | .callback => some { s.signal with child := .ending, sent := s.parent.runs }
  | .ending => some { s with child := ended ignored }
  | .notForked | .zombie | .gone => none

/-- `SYNC_SIG` is delivered to the parent: with the default action before the mask is set, and to
the handler in `sigsuspend`. -/
def deliver (s : State) : Option State :=
  match s.parent with
  | .block => (s.pending.take SYNC_SIG).map fun (_, p) => { s with parent := .killed, pending := p }
  | .suspend => (s.pending.take SYNC_SIG).map fun (_, p) => { s with parent := .list, pending := p }
  | _ => none

def otherStep (s : State) : Option State :=
  if s.others = 0 then none else some { s.signal with others := s.others - 1 }

def step (ignored : Bool) (s : State) : Label → Option State
  | .parent ok => parentStep ignored ok s
  | .child ok => childStep ignored ok s
  | .deliver => deliver s
  | .other => otherStep s

/-- The program, while other processes send `n` signals; `ignored` says that it was started with
`SIGCHLD` ignored. -/
def machine (ignored : Bool) (n : ℕ) : Machine State Label where
  init s := s = initial n
  step := step ignored

/-! ## The invariant -/

/-- The parent has not left `sigsuspend`. -/
def ParentPc.Waits : ParentPc → Prop
  | .block | .install | .fork | .suspend => True
  | _ => False

/-- The child is behind its callback. -/
def ChildPc.Behind : ChildPc → Prop
  | .ending | .zombie | .gone => True
  | _ => False

/-- What the lists show of the child, as far as the parent has come. -/
def Listed (ignored : Bool) (n : ℕ) (s : State) : Prop :=
  match s.parent with
  | .block | .install | .fork => s.lists = [] ∧ s.child = .notForked
  | .suspend | .list => s.lists = [] ∧ s.child ≠ .notForked
  | .kill => (∃ c, s.lists = [c] ∧ c ≠ .notForked ∧ (n = 0 → c.Behind)) ∧ s.child ≠ .notForked
  | .sleep | .listAgain =>
    (∃ c, s.lists = [c] ∧ c ≠ .notForked ∧ (n = 0 → c.Behind)) ∧ s.child = ended ignored
  | .exited true =>
    (∃ c, s.lists = [c, ended ignored] ∧ c ≠ .notForked ∧ (n = 0 → c.Behind)) ∧
      s.child = ended ignored
  | .exited false => s.child = .notForked ∨ s.child = .gone
  | .killed => s.child = .notForked

/-- What holds in every state reached while others send `n` signals. -/
structure Inv (ignored : Bool) (n : ℕ) (s : State) : Prop where
  others_le : s.others ≤ n
  /-- A signal that has been sent is pending until the parent is woken. -/
  pending_iff : s.parent.Waits → (s.pending SYNC_SIG ≠ [] ↔ s.others < n ∨ s.sent = true)
  /-- What has woken the parent. -/
  woken : ¬ s.parent.Waits → s.parent.runs = true → s.others < n ∨ s.sent = true
  behind : s.sent = true → s.child.Behind
  left : s.child = .zombie ∨ s.child = .gone → s.child = ended ignored
  listed : Listed ignored n s

variable {ignored : Bool} {n : ℕ} {s t : State}

/-- How many steps are left at most. -/
def ParentPc.rest : ParentPc → ℕ
  | .block => 8
  | .install => 7
  | .fork => 6
  | .suspend => 5
  | .list => 4
  | .kill => 3
  | .sleep => 2
  | .listAgain => 1
  | .exited _ | .killed => 0

def ChildPc.rest : ChildPc → ℕ
  | .notForked => 4
  | .start => 3
  | .callback => 2
  | .ending => 1
  | .zombie | .gone => 0

def State.rest (s : State) : ℕ := s.parent.rest + s.child.rest + s.others

@[simp] theorem rest_ended (ignored : Bool) : (ended ignored).rest = 0 := by
  cases ignored <;> rfl

theorem behind_ended (ignored : Bool) : (ended ignored).Behind := by
  cases ignored <;> trivial

theorem ended_eq (ignored : Bool) : ended ignored = .zombie ∨ ended ignored = .gone := by
  cases ignored
  · exact .inl rfl
  · exact .inr rfl

@[simp] theorem signal_parent (s : State) : s.signal.parent = s.parent := by
  unfold State.signal
  split <;> rfl

@[simp] theorem signal_child (s : State) : s.signal.child = s.child := by
  unfold State.signal
  split <;> rfl

@[simp] theorem signal_others (s : State) : s.signal.others = s.others := by
  unfold State.signal
  split <;> rfl

@[simp] theorem signal_sent (s : State) : s.signal.sent = s.sent := by
  unfold State.signal
  split <;> rfl

@[simp] theorem signal_lists (s : State) : s.signal.lists = s.lists := by
  unfold State.signal
  split <;> rfl

/-- A signal for a parent that runs is pending. -/
theorem pending_signal (h : s.parent.runs = true) : s.signal.pending SYNC_SIG ≠ [] := by
  have hterm : terminates SYNC_SIG = true := by decide
  rw [State.signal, if_pos h]
  exact List.ne_nil_of_length_pos (Pending.length_generate_pos hterm () (.inl rfl))

theorem ParentPc.Waits.runs {p : ParentPc} (h : p.Waits) : p.runs = true := by
  cases p <;> first | rfl | exact h.elim

theorem inv_initial (ignored : Bool) (n : ℕ) : Inv ignored n (initial n) where
  others_le := Nat.le_refl n
  pending_iff _ := by simp [initial, Pending.empty]
  woken h := absurd trivial h
  behind h := by cases h
  left h := by simp [initial] at h
  listed := ⟨rfl, rfl⟩

/-- The parent goes on, and no signal is sent or delivered. -/
theorem Inv.moveParent {p : ParentPc} {c : ChildPc} {l : List ChildPc} (hI : Inv ignored n s)
    (hwait : p.Waits → s.parent.Waits)
    (hwoken : ¬ p.Waits → p.runs = true → ¬ s.parent.Waits ∧ s.parent.runs = true)
    (hbehind : s.child.Behind → c.Behind) (hleft : c = .zombie ∨ c = .gone → c = ended ignored)
    (hlisted : Listed ignored n { s with parent := p, child := c, lists := l }) :
    Inv ignored n { s with parent := p, child := c, lists := l } where
  others_le := hI.others_le
  pending_iff h := hI.pending_iff (hwait h)
  woken h hruns := hI.woken (hwoken h hruns).1 (hwoken h hruns).2
  behind h := hbehind (hI.behind h)
  left := hleft
  listed := hlisted

/-- The parent of a child that has not ended waits for it, or has just been woken. -/
theorem Inv.parent_of_running (hI : Inv ignored n s) (hc : s.child ≠ .notForked)
    (hrun : s.child ≠ ended ignored) :
    s.parent = .suspend ∨ s.parent = .list ∨ s.parent = .kill := by
  have hlisted := hI.listed
  unfold Listed at hlisted
  cases hp : s.parent <;> simp only [hp] at hlisted
  case suspend => exact .inl rfl
  case list => exact .inr (.inl rfl)
  case kill => exact .inr (.inr rfl)
  case block | install | fork => exact absurd hlisted.2 hc
  case sleep | listAgain => exact absurd hlisted.2 hrun
  case killed => exact absurd hlisted hc
  case exited success =>
    cases success with
    | true => exact absurd hlisted.2 hrun
    | false => exact absurd (hI.left (.inr (hlisted.resolve_left hc))) hrun

/-! ## The steps -/

theorem Inv.parentStep {ok : Bool} (hI : Inv ignored n s)
    (h : parentStep ignored ok s = some t) : Inv ignored n t ∧ t.rest < s.rest := by
  have hlisted := hI.listed
  unfold Listed at hlisted
  cases hp : s.parent <;> simp only [hp] at hlisted <;>
    simp only [MakeZombie.parentStep, hp, reduceCtorEq] at h
  case block | install =>
    obtain rfl := Option.some.inj h
    refine ⟨hI.moveParent (by simp [hp, ParentPc.Waits]) ?_ id hI.left ?_, ?_⟩ <;> cases ok <;>
      simp [hp, hlisted, ParentPc.Waits, ParentPc.runs, Listed, State.rest, ParentPc.rest]
  case fork =>
    cases ok <;> obtain rfl := Option.some.inj h
    · refine ⟨hI.moveParent (by simp [ParentPc.Waits]) ?_ id hI.left (.inl hlisted.2), ?_⟩
      · simp [ParentPc.runs]
      · simp [hp, State.rest, ParentPc.rest]
    · refine ⟨hI.moveParent (by simp [hp, ParentPc.Waits]) ?_ ?_ (by simp) ?_, ?_⟩
      · exact fun hnot => absurd trivial hnot
      · simp [hlisted, ChildPc.Behind]
      · exact ⟨hlisted.1, by simp⟩
      · simp [hp, hlisted, State.rest, ParentPc.rest, ChildPc.rest]
  case list =>
    obtain rfl := Option.some.inj h
    have hwoken := hI.woken (by simp [hp, ParentPc.Waits]) (by simp [hp, ParentPc.runs])
    refine ⟨hI.moveParent (by simp [ParentPc.Waits]) (by simp [hp, ParentPc.Waits, ParentPc.runs])
      id hI.left ⟨⟨s.child, by simp [hlisted], hlisted.2, fun hn => ?_⟩, hlisted.2⟩, ?_⟩
    · exact hI.behind (hwoken.resolve_left (by omega))
    · simp [hp, State.rest, ParentPc.rest]
  case kill =>
    split at h <;> obtain rfl := Option.some.inj h
    · rename_i hgone
      refine ⟨hI.moveParent (by simp [ParentPc.Waits]) (by simp [ParentPc.runs]) id hI.left
        (.inr hgone), ?_⟩
      simp [hp, State.rest, ParentPc.rest]
    · refine ⟨hI.moveParent (by simp [ParentPc.Waits]) (by simp [hp, ParentPc.Waits, ParentPc.runs])
        (fun _ => behind_ended ignored) (fun _ => rfl) ⟨hlisted.1, rfl⟩, ?_⟩
      simp only [State.rest, hp, ParentPc.rest, rest_ended]
      omega
  case sleep =>
    obtain rfl := Option.some.inj h
    refine ⟨hI.moveParent (by simp [ParentPc.Waits]) (by simp [hp, ParentPc.Waits, ParentPc.runs])
      id hI.left hlisted, ?_⟩
    simp [hp, State.rest, ParentPc.rest]
  case listAgain =>
    obtain rfl := Option.some.inj h
    obtain ⟨⟨c, hc, hforked⟩, hend⟩ := hlisted
    refine ⟨hI.moveParent (by simp [ParentPc.Waits]) (by simp [ParentPc.runs]) id hI.left
      ⟨⟨c, by simp [hc, hend], hforked⟩, hend⟩, ?_⟩
    simp [hp, State.rest, ParentPc.rest]

/-- The lists do not change while the child goes on to its end. -/
theorem Inv.listed_child {c : ChildPc} {p : Pending Unit} {b : Bool} (hI : Inv ignored n s)
    (hc : s.child ≠ .notForked) (hrun : s.child ≠ ended ignored) (hforked : c ≠ .notForked) :
    Listed ignored n { s with child := c, pending := p, sent := b } := by
  have hlisted := hI.listed
  unfold Listed at hlisted ⊢
  rcases hI.parent_of_running hc hrun with hp | hp | hp <;> simp only [hp] at hlisted ⊢ <;>
    exact ⟨hlisted.1, hforked⟩

/-- A step of the child that sends nothing. -/
theorem Inv.moveChild {c : ChildPc} (hI : Inv ignored n s) (hc : s.child ≠ .notForked)
    (hrun : s.child ≠ ended ignored) (hforked : c ≠ .notForked)
    (hbehind : s.child.Behind → c.Behind) (hleft : c = .zombie ∨ c = .gone → c = ended ignored) :
    Inv ignored n { s with child := c } :=
  hI.moveParent (p := s.parent) (l := s.lists) id (fun hw hr => ⟨hw, hr⟩) hbehind hleft
    (hI.listed_child hc hrun hforked)

theorem Inv.parent_runs (hI : Inv ignored n s) (hc : s.child ≠ .notForked)
    (hrun : s.child ≠ ended ignored) : s.parent.runs = true := by
  rcases hI.parent_of_running hc hrun with hp | hp | hp <;> rw [hp] <;> rfl

/-- The callback finds the parent running. -/
theorem Inv.callback (hI : Inv ignored n s) (hc : s.child = .callback) :
    Inv ignored n { s.signal with child := .ending, sent := s.parent.runs } := by
  have hforked : s.child ≠ .notForked := by simp [hc]
  have hrun : s.child ≠ ended ignored := by
    rcases ended_eq ignored with he | he <;> simp [hc, he]
  have hruns := hI.parent_runs hforked hrun
  constructor
  case others_le => simpa using hI.others_le
  case pending_iff => exact fun _ => iff_of_true (pending_signal hruns) (.inr hruns)
  case woken => exact fun _ _ => .inr hruns
  case behind => exact fun _ => trivial
  case left => exact fun h => by simp at h
  case listed =>
    unfold State.signal
    split <;> exact hI.listed_child hforked hrun (by simp)

theorem Inv.childStep {ok : Bool} (hI : Inv ignored n s)
    (h : childStep ignored ok s = some t) : Inv ignored n t ∧ t.rest < s.rest := by
  have hrun : ∀ c, c ≠ .zombie → c ≠ .gone → c ≠ ended ignored := fun c hz hg => by
    rcases ended_eq ignored with he | he <;> rw [he] <;> assumption
  cases hc : s.child <;> simp only [MakeZombie.childStep, hc, reduceCtorEq] at h
  case start =>
    obtain rfl := Option.some.inj h
    refine ⟨hI.moveChild (by simp [hc]) (hrun _ (by simp [hc]) (by simp [hc])) ?_ ?_ ?_, ?_⟩ <;>
      cases ok <;> simp [hc, ChildPc.Behind, State.rest, ChildPc.rest]
  case callback =>
    obtain rfl := Option.some.inj h
    refine ⟨hI.callback hc, ?_⟩
    simp [State.rest, hc, ChildPc.rest]
  case ending =>
    obtain rfl := Option.some.inj h
    refine ⟨hI.moveChild (by simp [hc]) (hrun _ (by simp [hc]) (by simp [hc])) ?_
      (fun _ => behind_ended ignored) (fun _ => rfl), ?_⟩
    · exact (hrun _ (by simp) (by simp)).symm
    · have hending : ChildPc.ending.rest = 1 := rfl
      simp only [State.rest, hc, rest_ended]
      omega

theorem take_eq_none_iff {p : Pending Unit} : p.take SYNC_SIG = none ↔ p SYNC_SIG = [] := by
  unfold Pending.take
  split <;> rename_i hp <;> simp [hp]

/-- A signal that can be taken is pending. -/
theorem pending_of_take {p q : Pending Unit} {v : Unit} (h : p.take SYNC_SIG = some (v, q)) :
    p SYNC_SIG ≠ [] := by
  intro hnil
  cases (take_eq_none_iff.mpr hnil).symm.trans h

theorem Inv.deliver (hI : Inv ignored n s) (h : deliver s = some t) :
    Inv ignored n t ∧ t.rest < s.rest := by
  have hlisted := hI.listed
  unfold Listed at hlisted
  cases hp : s.parent <;> simp only [hp] at hlisted <;>
    simp only [MakeZombie.deliver, hp, reduceCtorEq] at h
  case block =>
    obtain ⟨⟨-, p⟩, -, rfl⟩ := Option.map_eq_some_iff.mp h
    refine ⟨⟨hI.others_le, False.elim, fun _ hruns => ?_, hI.behind, hI.left, hlisted.2⟩, ?_⟩
    · cases hruns
    · simp [State.rest, hp, ParentPc.rest]
  case suspend =>
    obtain ⟨⟨_, p⟩, htake, rfl⟩ := Option.map_eq_some_iff.mp h
    have hcame := (hI.pending_iff (hp ▸ trivial)).mp (pending_of_take htake)
    refine ⟨⟨hI.others_le, False.elim, fun _ _ => hcame, hI.behind, hI.left, hlisted⟩, ?_⟩
    simp [State.rest, hp, ParentPc.rest]

theorem eq_of_otherStep (h : otherStep s = some t) :
    s.others ≠ 0 ∧ t = { s.signal with others := s.others - 1 } := by
  unfold otherStep at h
  split at h
  · cases h
  · rename_i hpos
    exact ⟨hpos, (Option.some.inj h).symm⟩

theorem Inv.otherStep (hI : Inv ignored n s) (h : otherStep s = some t) :
    Inv ignored n t ∧ t.rest < s.rest := by
  obtain ⟨hpos, rfl⟩ := eq_of_otherStep h
  have hle := hI.others_le
  have hlt : s.others - 1 < n := by omega
  constructor
  · constructor
    case others_le => exact Nat.le_of_lt hlt
    case pending_iff =>
      intro hw
      rw [signal_parent] at hw
      exact iff_of_true (pending_signal hw.runs) (.inl hlt)
    case woken => exact fun _ _ => .inl hlt
    case behind => simpa using hI.behind
    case left => simpa using hI.left
    case listed => simpa [Listed] using hI.listed
  · simp only [State.rest, signal_parent, signal_child]
    omega

/-- **Every step keeps the invariant and leaves less to do.** -/
theorem Inv.step {a : Label} (hI : Inv ignored n s) (h : step ignored s a = some t) :
    Inv ignored n t ∧ t.rest < s.rest := by
  cases a with
  | parent ok => exact hI.parentStep h
  | child ok => exact hI.childStep h
  | deliver => exact hI.deliver h
  | other => exact hI.otherStep h

theorem inv_of_reachable (h : (machine ignored n).Reachable s) : Inv ignored n s := by
  refine h.invariant (fun s hinit => ?_) fun s a t hI hst => (hI.step hst).1
  obtain rfl : s = initial n := hinit
  exact inv_initial ignored n

/-! ## What is listed -/

/-- **What a parent that exits with success has listed**: second the child that has ended, a zombie
if `SIGCHLD` is not ignored; and first, if no other process sends the signal, a child that is behind
its callback. -/
theorem lists_of_success (h : (machine ignored n).Reachable s) (hexit : s.parent = .exited true) :
    ∃ c, s.lists = [c, ended ignored] ∧ c ≠ .notForked ∧ (n = 0 → c.Behind) := by
  have hlisted := (inv_of_reachable h).listed
  unfold Listed at hlisted
  simp only [hexit] at hlisted
  exact hlisted.1

/-- The first list may come before the end of the child. -/
example : ∃ t,
    (machine false 0).run (initial 0) [.parent true, .parent true, .parent true, .child true,
      .child true, .deliver, .parent true, .parent true, .parent true, .parent true] = some t ∧
    t.lists = [.ending, .zombie] :=
  ⟨_, rfl, rfl⟩

/-! ## The end -/

/-- The process has ended, or there is none yet. -/
def ChildPc.AtEnd (c : ChildPc) : Prop := c = .notForked ∨ c = .zombie ∨ c = .gone

/-- **Where nobody can go on**: both processes are at their ends, or the parent waits in
`sigsuspend` for a signal that neither the child nor another process has sent. -/
theorem stuck_iff_unsent (h : (machine ignored n).Reachable s) :
    (machine ignored n).Stuck s ↔ s.others = 0 ∧ s.child.AtEnd ∧
      (s.parent.runs = false ∨ s.parent = .suspend ∧ n = 0 ∧ s.sent = false) := by
  have hI := inv_of_reachable h
  constructor
  · intro hstuck
    have hothers : s.others = 0 := by
      by_contra hpos
      have hnone : otherStep s = none := hstuck .other
      rw [otherStep, if_neg hpos] at hnone
      cases hnone
    have hchild : s.child.AtEnd := by
      have hnone : childStep ignored true s = none := hstuck (.child true)
      cases hc : s.child <;> simp [childStep, hc] at hnone <;> simp [ChildPc.AtEnd]
    refine ⟨hothers, hchild, ?_⟩
    have hnone : parentStep ignored true s = none := hstuck (.parent true)
    cases hp : s.parent <;> simp [parentStep, hp] at hnone
    case exited | killed => exact .inl rfl
    case kill => split at hnone <;> cases hnone
    case suspend =>
      have hdeliver : deliver s = none := hstuck .deliver
      simp only [deliver, hp] at hdeliver
      have hpending := take_eq_none_iff.mp (Option.map_eq_none_iff.mp hdeliver)
      have hnot := mt (hI.pending_iff (hp ▸ trivial)).mpr (not_not_intro hpending)
      rw [hothers, not_or, Bool.not_eq_true] at hnot
      exact .inr ⟨rfl, by omega, hnot.2⟩
  · rintro ⟨hothers, hchild, hparent⟩ a
    cases a with
    | parent ok =>
      show parentStep ignored ok s = none
      cases hp : s.parent <;> simp [hp, ParentPc.runs] at hparent <;> simp [parentStep, hp]
    | child ok =>
      show childStep ignored ok s = none
      rcases hchild with hc | hc | hc <;> simp [childStep, hc]
    | deliver =>
      show deliver s = none
      rcases hparent with hruns | ⟨hp, hn, hsent⟩
      · cases hp : s.parent <;> simp [hp, ParentPc.runs] at hruns <;> simp [deliver, hp]
      · have hpending : s.pending SYNC_SIG = [] := by
          by_contra hne
          have hcame := (hI.pending_iff (hp ▸ trivial)).mp hne
          simp [hn, hsent] at hcame
        simp [deliver, hp, take_eq_none_iff.mpr hpending]
    | other => exact if_pos hothers

/-- `atexit` has failed, and the parent waits for ever. -/
theorem stuck_iff_unsent_noAtexit :
    (machine false 0).Reachable ⟨.suspend, .zombie, .empty, 0, false, []⟩ ∧
      (machine false 0).Stuck ⟨.suspend, .zombie, .empty, 0, false, []⟩ := by
  have h : (machine false 0).Reachable ⟨.suspend, .zombie, .empty, 0, false, []⟩ :=
    Machine.Reachable.run (.init rfl)
      [.parent true, .parent true, .parent true, .child false, .child true] rfl
  exact ⟨h, (stuck_iff_unsent h).mpr ⟨rfl, .inr (.inl rfl), .inr ⟨rfl, rfl, rfl⟩⟩⟩

/-- All runs come to such a state. -/
theorem all_end (ignored : Bool) (n : ℕ) :
    (machine ignored n).Inevitable (machine ignored n).Stuck (initial n) := by
  refine .of_measure (I := Inv ignored n) State.rest (fun s _ hgo => ?_) (fun s a t hI _ hst => ?_)
    (inv_initial ignored n)
  · by_contra hno
    exact hgo fun a => Option.eq_none_iff_forall_ne_some.mpr fun t hst => hno ⟨a, t, hst⟩
  · exact .inr (hI.step hst)

/-! ## Success -/

/-- The call of the step succeeds, and no signal is delivered before the mask is set. -/
def Calm (s : State) : Label → Prop
  | .parent ok | .child ok => ok = true
  | .deliver => s.parent ≠ .block
  | .other => True

instance : ∀ s a, Decidable (Calm s a)
  | _, .parent ok | _, .child ok => decEq ok true
  | _, .deliver => instDecidableNot
  | _, .other => .isTrue trivial

def calm (ignored : Bool) (n : ℕ) : Machine State Label := (machine ignored n).restrict Calm

theorem calm_step_eq_some_iff {a : Label} :
    (calm ignored n).step s a = some t ↔ Calm s a ∧ step ignored s a = some t :=
  Machine.restrict_step_eq_some_iff

/-- What holds besides while the calls succeed. -/
structure Succeeding (n : ℕ) (s : State) : Prop extends Inv false n s where
  not_killed : s.parent ≠ .killed
  not_failed : s.parent ≠ .exited false
  /-- A child that is behind its callback while the parent waits has sent its signal. -/
  sent_of_behind : s.parent = .suspend → s.child.Behind → s.sent = true

theorem Succeeding.not_gone (hs : Succeeding n s) : s.child ≠ .gone := fun h => by
  cases h.symm.trans (hs.left (.inr h))

theorem Succeeding.step {a : Label} (hs : Succeeding n s) (h : (calm false n).step s a = some t) :
    Succeeding n t := by
  obtain ⟨ha, h⟩ := calm_step_eq_some_iff.mp h
  have hI := (hs.toInv.step h).1
  cases a with
  | parent ok =>
    obtain rfl : ok = true := ha
    have hgone := hs.not_gone
    cases hp : s.parent <;> simp [MakeZombie.step, parentStep, hp, hgone] at h <;>
      refine ⟨hI, ?_, ?_, ?_⟩ <;> rw [← h] <;> simp [ChildPc.Behind]
  | child ok =>
    obtain rfl : ok = true := ha
    cases hc : s.child <;> simp [MakeZombie.step, childStep, hc] at h <;> subst h
    case start => exact ⟨hI, hs.not_killed, hs.not_failed, fun _ hb => hb.elim⟩
    case callback =>
      refine ⟨hI, hs.not_killed, hs.not_failed, fun hp _ => ?_⟩
      have hp : s.parent = .suspend := hp
      show s.parent.runs = true
      rw [hp]
      rfl
    case ending =>
      exact ⟨hI, hs.not_killed, hs.not_failed, fun hp _ => hs.sent_of_behind hp (hc ▸ trivial)⟩
  | deliver =>
    have hblock : s.parent ≠ .block := ha
    cases hp : s.parent <;> simp only [MakeZombie.step, deliver, hp, reduceCtorEq] at h
    case block => exact absurd hp hblock
    case suspend =>
      obtain ⟨_, -, rfl⟩ := Option.map_eq_some_iff.mp h
      exact ⟨hI, by simp, by simp, by simp⟩
  | other =>
    obtain ⟨-, rfl⟩ := eq_of_otherStep h
    exact ⟨hI, by simpa using hs.not_killed, by simpa using hs.not_failed,
      by simpa using hs.sent_of_behind⟩

/-- As long as the parent has not ended, somebody can go on. -/
theorem Succeeding.exists_step (hs : Succeeding n s) (hend : s.parent ≠ .exited true) :
    ∃ a t, (calm false n).step s a = some t := by
  suffices h : ∃ a t, Calm s a ∧ MakeZombie.step false s a = some t by
    obtain ⟨a, t, ha, hst⟩ := h
    exact ⟨a, t, calm_step_eq_some_iff.mpr ⟨ha, hst⟩⟩
  have hgone := hs.not_gone
  cases hp : s.parent
  case killed => exact absurd hp hs.not_killed
  case exited success =>
    cases success with
    | true => exact absurd hp hend
    | false => exact absurd hp hs.not_failed
  case suspend =>
    by_cases hpending : s.pending SYNC_SIG = []
    · -- nobody has sent a signal, so the child is still to send its own
      have hsent : ¬ s.sent = true := fun hsent =>
        (hs.pending_iff (hp ▸ trivial)).mpr (.inr hsent) hpending
      have hbehind := mt (hs.sent_of_behind hp) hsent
      have hlisted := hs.listed
      unfold Listed at hlisted
      simp only [hp] at hlisted
      refine ⟨.child true, ?_⟩
      cases hc : s.child <;> simp [hc, ChildPc.Behind] at hbehind hlisted <;>
        simp [Calm, MakeZombie.step, childStep, hc]
    · obtain ⟨⟨v, p⟩, htake⟩ := Option.ne_none_iff_exists'.mp (mt take_eq_none_iff.mp hpending)
      exact ⟨.deliver, _, by simp [Calm, hp], by simp [MakeZombie.step, deliver, hp, htake]; rfl⟩
  all_goals exact ⟨.parent true, by simp [Calm, MakeZombie.step, parentStep, hp, hgone]⟩

theorem succeeding_initial (n : ℕ) : Succeeding n (initial n) where
  toInv := inv_initial false n
  not_killed := by simp [initial]
  not_failed := by simp [initial]
  sent_of_behind := by simp [initial]

/-- An end is lasting. -/
theorem parent_of_ended {a : Label} (hruns : s.parent.runs = false)
    (h : step ignored s a = some t) : t.parent = s.parent := by
  cases a with
  | parent ok =>
    cases hp : s.parent <;> simp [hp, ParentPc.runs] at hruns <;> simp [step, parentStep, hp] at h
  | child ok =>
    cases hc : s.child <;> simp [step, childStep, hc] at h <;> simp [← h]
  | deliver =>
    cases hp : s.parent <;> simp [hp, ParentPc.runs] at hruns <;> simp [step, deliver, hp] at h
  | other =>
    obtain ⟨-, rfl⟩ := eq_of_otherStep h
    exact signal_parent s

/-- The child has ended and left nothing before the parent sends `SIGKILL`. -/
theorem exists_failure (n : ℕ) : ∃ as t,
    (calm true n).run (initial n) as = some t ∧ t.parent = .exited false :=
  ⟨[.parent true, .parent true, .parent true, .child true, .child true, .child true, .deliver,
    .parent true, .parent true], _, rfl, rfl⟩

/-- **When the demonstration succeeds.**  When the calls succeed and no signal is delivered before
the mask is set, all runs come to the success of the parent, whatever other processes send, exactly
if `SIGCHLD` is not ignored. -/
theorem succeeds_iff (ignored : Bool) (n : ℕ) :
    (calm ignored n).Inevitable (fun s => s.parent = .exited true) (initial n) ↔
      ignored = false := by
  constructor
  · intro h
    by_contra hignored
    rw [Bool.not_eq_false] at hignored
    subst hignored
    obtain ⟨as, t, hrun, hfailed⟩ := exists_failure n
    have hstable : ∀ p : ParentPc, p.runs = false → ∀ s a t, s.parent = p →
        (calm true n).step s a = some t → t.parent = p := fun p hp s a t hs hst =>
      (parent_of_ended (hs ▸ hp) (calm_step_eq_some_iff.mp hst).2).trans hs
    have hend := h.run_of_stable (hstable (.exited true) rfl) as hrun
    refine Machine.Inevitable.not_of_invariant (hstable (.exited false) rfl) (fun s hs hs' => ?_)
      hfailed hend
    cases hs.symm.trans hs'
  · rintro rfl
    refine .of_measure (I := Succeeding n) State.rest (fun s hs hend => hs.exists_step hend)
      (fun s a t hs _ hst => ?_) (succeeding_initial n)
    exact .inr ⟨hs.step hst, (hs.toInv.step (calm_step_eq_some_iff.mp hst).2).2⟩

end MakeZombie
end CodeStrudy
