import CodeStrudy.Foundation.CInt
import CodeStrudy.Foundation.Machine
import CodeStrudy.Foundation.Signals

/-!
# Counting signals

`practice/20.1`: `sig_sender` sends one signal many times, and then another one if it is given one;
`sig_receive` counts what it catches, by number, until it is sent `SIGINT`.  With an argument it
blocks all signals for a while first.  Any number of senders run at once.

A `kill` with a realtime signal succeeds also when the kernel has no room to queue the signal.  The
number is then only marked as pending, so the signal is lost if it was marked before.  The receiver
is started with no signal ignored.  Its handler is taken as one step: while it runs its own number
is blocked, and the counter of another one is another cell.

## What is proved

`counted`: in every state the counters are right for what was caught; as long as the receiver is not
killed no realtime signal is lost but those that the kernel has dropped, and of the standard signals
no more is caught than was sent, and something of each that would have killed it.  Those that were
sent while they were blocked, however many, are caught at most once.
-/

namespace CodeStrudy
namespace SigReceive

open Foundation Signals

/-! ## The sender -/

/-- The numbers on the command line of `sig_sender`, each as what is left of it in an `int`. -/
structure Args where
  sigNum : ℤ
  sig : ℤ
  sig2 : Option ℤ

/-- The signals of its `kill` calls. -/
def Args.kills (a : Args) : List ℤ := List.replicate a.sigNum.toNat a.sig ++ a.sig2.toList

/-! ## The receiver -/

/-- Where `sig_receive` is: in its loop of `sigaction` calls; before, in and behind its sleep; in
the loop that waits for `gotSignal`; or past its end. -/
inductive RecvPc where
  | install (n : ℕ)
  | block
  | sleep
  | unblock
  | loop
  | exited
  | killed
  deriving DecidableEq

/-- There is a process to send signals to. -/
def RecvPc.runs : RecvPc → Bool
  | .exited | .killed => false
  | _ => true

/-- `sigaction` has been called for the signal and has not failed.  The loop ends before the last
signal. -/
def RecvPc.catches (pc : RecvPc) (n : ℕ) : Bool :=
  (match pc with
    | .install k => decide (n < k)
    | _ => decide (n < NSIG - 1)) &&
  !(n == 0 || n == SIGKILL || n == SIGSTOP || n == 32 || n == 33)

/-- The mask is set. -/
def RecvPc.masked : RecvPc → Bool
  | .sleep | .unblock => true
  | _ => false

/-- The signal is blocked. -/
def RecvPc.blocks (pc : RecvPc) (n : ℕ) : Bool := pc.masked && !(n == SIGKILL || n == SIGSTOP)

/-- The senders, the signals, and the receiver. -/
structure State (σ : Type*) where
  /-- The signals that a sender has still to send. -/
  left : σ → List ℤ
  pending : Pending Unit
  recv : RecvPc
  sigCnt : ℕ → CInt
  gotSignal : Bool
  /-- The signals that have been sent, and of these the ones that the kernel has kept and those that
  it has dropped; and the signals that the handler has been called for. -/
  sent : List (ℕ × Unit)
  kept : List (ℕ × Unit)
  dropped : List (ℕ × Unit)
  caught : List (ℕ × Unit)
  /-- What had been caught when the mask was set, and sent when it was taken away. -/
  caughtAtBlock : List (ℕ × Unit)
  sentAtUnblock : List (ℕ × Unit)

/-- A sender calls `kill`, which succeeds or not, when the queue for realtime signals is full or
not; the receiver goes on; a signal is delivered. -/
inductive Label (σ : Type*) where
  | sender (i : σ) (ok full : Bool)
  | recv
  | deliver (n : ℕ)

section Program

variable {σ : Type*}

/-- All programs are started. -/
def initial (args : σ → Args) : State σ :=
  ⟨fun i => (args i).kills, .empty, .install 1, fun _ => 0, false, [], [], [], [], [], []⟩

/-- The next step of the receiver; `argc > 1` is `blocking`. -/
def recvStep (blocking : Bool) (s : State σ) : Option (State σ) :=
  match s.recv with
  | .install n =>
    some { s with
      recv := if n < NSIG - 1 then .install (n + 1) else if blocking then .block else .loop }
  | .block => some { s with recv := .sleep, caughtAtBlock := s.caught }
  | .sleep => some { s with recv := .unblock }
  | .unblock => some { s with recv := .loop, sentAtUnblock := s.sent }
  | .loop => some { s with recv := if s.gotSignal then .exited else .loop }
  | .exited | .killed => none

def sigHandler (n : ℕ) (s : State σ) : State σ :=
  let s : State σ := { s with caught := s.caught ++ [(n, ())] }
  if n = SIGINT then { s with gotSignal := true }
  else { s with sigCnt := Function.update s.sigCnt n (s.sigCnt n + 1) }

/-- A signal is delivered: to the handler, if it is installed, and else with the default action. -/
def deliver (n : ℕ) (s : State σ) : Option (State σ) :=
  if s.recv.runs && !s.recv.blocks n then
    (s.pending.take n).map fun (_, p) =>
      if s.recv.catches n then sigHandler n { s with pending := p }
      else if terminates n then { s with recv := .killed }
      else { s with pending := p }
  else none

variable [DecidableEq σ]

/-- The kernel drops a realtime signal that it cannot queue if one of its number is pending. -/
def drops (full : Bool) (n : ℕ) (s : State σ) : Bool :=
  full && SIGRTMIN ≤ n && !(s.pending n).isEmpty

/-- A signal is sent to the receiver. -/
def send (full : Bool) (n : ℕ) (s : State σ) : State σ :=
  if drops full n s then { s with sent := s.sent ++ [(n, ())], dropped := s.dropped ++ [(n, ())] }
  else
    { s with
      pending := s.pending.generate n ()
      sent := s.sent ++ [(n, ())]
      kept := s.kept ++ [(n, ())] }

/-- A sender's next `kill`.  It exits when the call fails.  Signal 0 is only a test, and a receiver
that has ended and has not been waited for gets nothing. -/
def killStep (i : σ) (ok full : Bool) (s : State σ) : Option (State σ) :=
  match s.left i with
  | [] => none
  | sig :: sigs =>
    if ok && 0 ≤ sig && sig < NSIG then
      if sig = 0 ∨ s.recv.runs = false then
        some { s with left := Function.update s.left i sigs }
      else some (send full sig.toNat { s with left := Function.update s.left i sigs })
    else some { s with left := Function.update s.left i [] }

/-- One step. -/
def step (blocking : Bool) (s : State σ) : Label σ → Option (State σ)
  | .sender i ok full => killStep i ok full s
  | .recv => recvStep blocking s
  | .deliver n => deliver n s

/-- The programs. -/
def machine (args : σ → Args) (blocking : Bool) : Machine (State σ) (Label σ) where
  init s := s = initial args
  step := step blocking

end Program

/-! ## The property -/

variable {σ : Type*}

/-- How often a log has a signal. -/
def times (n : ℕ) (l : List (ℕ × Unit)) : ℕ := (valuesOf n l).length

/-- What is true of the counters, the caught and the sent signals. -/
structure Counted (blocking : Bool) (s : State σ) : Prop where
  sigCnt_eq : ∀ n, n ≠ SIGINT → s.sigCnt n = BitVec.ofNat 32 (times n s.caught)
  gotSignal_iff : s.gotSignal = true ↔ 0 < times SIGINT s.caught
  got_of_exited : s.recv = .exited → s.gotSignal = true
  total_le : s.recv ≠ .killed → ∀ n, times n s.caught + (s.pending n).length ≤ times n s.sent
  realtime : s.recv ≠ .killed → ∀ n, SIGRTMIN ≤ n →
    times n s.caught + (s.pending n).length + times n s.dropped = times n s.sent
  arrives : s.recv ≠ .killed → ∀ n, terminates n = true → 0 < times n s.sent →
    0 < times n s.caught + (s.pending n).length
  masked : s.recv.masked = true → s.caught = s.caughtAtBlock
  once : blocking = true → s.recv = .loop ∨ s.recv = .exited → ∀ n < SIGRTMIN,
    times n s.caught + (s.pending n).length + times n s.sentAtUnblock ≤
      times n s.caughtAtBlock + 1 + times n s.sent

/-! ## What the steps keep -/

theorem times_concat (n m : ℕ) (l : List (ℕ × Unit)) :
    times m (l ++ [(n, ())]) = times m l + if m = n then 1 else 0 := by
  rw [times, valuesOf_concat, List.length_append]
  split <;> rfl

/-- What the handler has noted. -/
structure Noted (s : State σ) : Prop where
  sigCnt_eq : ∀ n, n ≠ SIGINT → s.sigCnt n = BitVec.ofNat 32 (times n s.caught)
  gotSignal_iff : s.gotSignal = true ↔ 0 < times SIGINT s.caught
  got_of_exited : s.recv = .exited → s.gotSignal = true

/-- What the mask has held back. -/
structure Masked (blocking : Bool) (s : State σ) : Prop where
  masked : s.recv.masked = true → s.caught = s.caughtAtBlock
  once : blocking = true → s.recv = .loop ∨ s.recv = .exited → ∀ n < SIGRTMIN,
    times n s.caught + (s.pending n).length + times n s.sentAtUnblock ≤
      times n s.caughtAtBlock + 1 + times n s.sent

structure Inv (blocking : Bool) (s : State σ) : Prop extends Noted s, Masked blocking s where
  sent_eq : ∀ n, times n s.kept + times n s.dropped = times n s.sent
  accounted : s.recv ≠ .killed → Accounted s.kept s.pending s.caught
  arrives : s.recv ≠ .killed → ∀ n, terminates n = true → 0 < times n s.sent →
    0 < times n s.caught + (s.pending n).length

variable {s t : State σ} {args : σ → Args} {blocking : Bool}

theorem inv_initial (args : σ → Args) : Inv blocking (initial args) where
  sigCnt_eq _ _ := rfl
  gotSignal_iff := iff_of_false Bool.false_ne_true (Nat.lt_irrefl 0)
  got_of_exited h := nomatch h
  masked h := nomatch h
  once _ h := by rcases h with h | h <;> cases h
  sent_eq _ := rfl
  accounted _ := .empty
  arrives _ _ _ h := absurd h (Nat.lt_irrefl 0)

/-! ### The receiver -/

theorem ne_killed_of_runs (h : s.recv.runs = true) : s.recv ≠ .killed := fun hk => by
  rw [hk] at h
  cases h

/-- The receiver goes on and nothing is caught, sent or forgotten. -/
theorem Inv.goto (hI : Inv blocking s) {pc : RecvPc} (hruns : s.recv.runs = true)
    (hmask : pc.masked = true → s.recv.masked = true) (hgot : pc = .exited → s.gotSignal = true)
    (hloop : blocking = true → pc = .loop ∨ pc = .exited → s.recv = .loop) :
    Inv blocking { s with recv := pc } := by
  have halive := ne_killed_of_runs hruns
  exact { hI with
    got_of_exited := hgot
    masked := fun hm => hI.masked (hmask hm)
    once := fun hb hp => hI.once hb (.inl (hloop hb hp))
    accounted := fun _ => hI.accounted halive
    arrives := fun _ => hI.arrives halive }

/-- The mask is taken away: of each standard signal at most one is pending. -/
theorem Inv.unblock (hI : Inv blocking s) (hr : s.recv = .unblock) :
    Inv blocking { s with recv := .loop, sentAtUnblock := s.sent } := by
  have halive : s.recv ≠ .killed := fun hk => nomatch hr.symm.trans hk
  have hacc := hI.accounted halive
  refine { hI with
    got_of_exited := nofun
    masked := nofun
    once := fun _ _ n hn => ?_
    accounted := fun _ => hacc
    arrives := fun _ => hI.arrives halive }
  have hle := hacc.length_le n hn
  show times n s.caught + (s.pending n).length + times n s.sent ≤
    times n s.caughtAtBlock + 1 + times n s.sent
  rw [hI.masked (by rw [hr]; rfl)]
  omega

theorem Inv.recvStep (hI : Inv blocking s) (h : recvStep blocking s = some t) :
    Inv blocking t := by
  have hruns : s.recv.runs = true := by
    cases hr : s.recv <;> simp only [SigReceive.recvStep, hr, reduceCtorEq] at h <;> rfl
  cases hr : s.recv <;> simp only [SigReceive.recvStep, hr, reduceCtorEq] at h <;>
    obtain rfl := Option.some.inj h
  case install n =>
    refine hI.goto hruns (fun hm => ?_) (fun he => ?_) fun hb hp => ?_
    · split_ifs at hm <;> cases hm
    · split_ifs at he
    · rw [if_pos hb] at hp
      split_ifs at hp <;> rcases hp with hp | hp <;> cases hp
  case block =>
    have halive : s.recv ≠ .killed := fun hk => nomatch hr.symm.trans hk
    exact { hI with
      got_of_exited := nofun
      masked := fun _ => rfl
      once := fun _ hp => by rcases hp with hp | hp <;> cases hp
      accounted := fun _ => hI.accounted halive
      arrives := fun _ => hI.arrives halive }
  case sleep =>
    refine hI.goto hruns (fun _ => by rw [hr]; rfl) nofun fun _ hp => ?_
    rcases hp with hp | hp <;> cases hp
  case unblock => exact hI.unblock hr
  case loop =>
    refine hI.goto hruns (fun hm => ?_) (fun he => ?_) fun _ _ => hr
    · split_ifs at hm <;> cases hm
    · split_ifs at he with hgot
      exact hgot

theorem Noted.sigHandler (hs : Noted s) (hruns : s.recv.runs = true) (n : ℕ) (p : Pending Unit) :
    Noted (sigHandler n { s with pending := p }) := by
  have hlive : s.recv = .exited → s.gotSignal = true := fun he => by rw [he] at hruns; cases hruns
  by_cases hn : n = SIGINT
  · rw [SigReceive.sigHandler, if_pos hn]
    refine ⟨fun m hm => ?_, iff_of_true rfl ?_, fun _ => rfl⟩
    · show s.sigCnt m = BitVec.ofNat 32 (times m (s.caught ++ [(n, ())]))
      rw [times_concat, if_neg fun h => hm (h.trans hn), hs.sigCnt_eq m hm]
      rfl
    · show 0 < times SIGINT (s.caught ++ [(n, ())])
      rw [times_concat, if_pos hn.symm]
      exact Nat.succ_pos _
  · rw [SigReceive.sigHandler, if_neg hn]
    refine ⟨fun m hm => ?_, ?_, hlive⟩
    · show Function.update s.sigCnt n (s.sigCnt n + 1) m =
        BitVec.ofNat 32 (times m (s.caught ++ [(n, ())]))
      rw [times_concat]
      by_cases hmn : m = n
      · subst hmn
        rw [Function.update_self, if_pos rfl, hs.sigCnt_eq m hm, BitVec.ofNat_add]
        rfl
      · rw [Function.update_of_ne hmn, if_neg hmn, hs.sigCnt_eq m hm]
        rfl
    · show s.gotSignal = true ↔ 0 < times SIGINT (s.caught ++ [(n, ())])
      rw [times_concat, if_neg (Ne.symm hn), hs.gotSignal_iff]
      rfl

/-- A signal that is blocked does not come to the handler. -/
theorem blocks_of_catches {pc : RecvPc} {n : ℕ} (hmask : pc.masked = true)
    (hcatch : pc.catches n = true) : pc.blocks n = true := by
  unfold RecvPc.catches at hcatch
  unfold RecvPc.blocks
  cases hk : n == SIGKILL <;> cases hs : n == SIGSTOP <;> simp_all

theorem Inv.sigHandler (hI : Inv blocking s) {n : ℕ} {p : Pending Unit}
    (hruns : s.recv.runs = true) (hblock : s.recv.blocks n = false)
    (hcatch : s.recv.catches n = true) (htake : s.pending.take n = some ((), p)) :
    Inv blocking (sigHandler n { s with pending := p }) := by
  have halive := ne_killed_of_runs hruns
  have hnoted := hI.toNoted.sigHandler hruns n p
  have hsum : ∀ m, times m (s.caught ++ [(n, ())]) + (p m).length =
      times m s.caught + (s.pending m).length := by
    intro m
    have hlen := Pending.length_take htake m
    rw [times_concat]
    omega
  have hmasked : Masked blocking { s with pending := p, caught := s.caught ++ [(n, ())] } := by
    refine ⟨fun hm => ?_, fun hb hp m hm => ?_⟩
    · rw [blocks_of_catches hm hcatch] at hblock
      cases hblock
    · show times m (s.caught ++ [(n, ())]) + (p m).length + times m s.sentAtUnblock ≤ _
      rw [hsum]
      exact hI.once hb hp m hm
  have hacc : Accounted s.kept p (s.caught ++ [(n, ())]) := (hI.accounted halive).deliver htake
  have harrives : ∀ m, terminates m = true → 0 < times m s.sent →
      0 < times m (s.caught ++ [(n, ())]) + (p m).length := by
    intro m hm hsent
    rw [hsum]
    exact hI.arrives halive m hm hsent
  unfold SigReceive.sigHandler at hnoted ⊢
  by_cases hn : n = SIGINT
  · rw [if_pos hn] at hnoted ⊢
    exact { hnoted, hmasked with
      sent_eq := hI.sent_eq, accounted := fun _ => hacc, arrives := fun _ => harrives }
  · rw [if_neg hn] at hnoted ⊢
    exact { hnoted, hmasked with
      sent_eq := hI.sent_eq, accounted := fun _ => hacc, arrives := fun _ => harrives }

theorem Inv.deliver (hI : Inv blocking s) {n : ℕ} (h : deliver n s = some t) : Inv blocking t := by
  obtain ⟨hcan, h⟩ := Option.ite_none_right_eq_some.mp h
  obtain ⟨⟨⟨⟩, p⟩, htake, rfl⟩ := Option.map_eq_some_iff.mp h
  obtain ⟨hruns, hblock⟩ := Bool.and_eq_true_iff.mp hcan
  have halive := ne_killed_of_runs hruns
  dsimp only
  split_ifs with hcatch hterm
  · exact hI.sigHandler hruns (by simpa using hblock) hcatch htake
  · exact { hI with
      got_of_exited := nofun
      masked := nofun
      once := fun _ hp => by rcases hp with hp | hp <;> cases hp
      accounted := fun hk => absurd rfl hk
      arrives := fun hk => absurd rfl hk }
  · have hlen := Pending.length_take htake
    refine { hI with
      once := fun hb hp m hm => ?_
      accounted := fun _ => (hI.accounted halive).discard (lt_of_not_terminates hterm) htake
      arrives := fun _ m hm hsent => ?_ }
    · have honce := hI.once hb hp m hm
      have hm' := hlen m
      show times m s.caught + (p m).length + times m s.sentAtUnblock ≤
        times m s.caughtAtBlock + 1 + times m s.sent
      omega
    · have hne : m ≠ n := fun heq => hterm (heq ▸ hm)
      have hm' := hlen m
      rw [if_neg hne] at hm'
      show 0 < times m s.caught + (p m).length
      rw [show (p m).length = (s.pending m).length by omega]
      exact hI.arrives halive m hm hsent

/-! ### The senders -/

/-- A signal that is sent and dropped. -/
theorem Inv.drop (hI : Inv blocking s) (hruns : s.recv.runs = true) {n : ℕ}
    (hpending : 0 < (s.pending n).length) :
    Inv blocking { s with sent := s.sent ++ [(n, ())], dropped := s.dropped ++ [(n, ())] } := by
  have halive := ne_killed_of_runs hruns
  refine { hI with
    once := fun hb hp m hm => ?_
    sent_eq := fun m => ?_
    arrives := fun _ m hm hsent => ?_ }
  · have honce := hI.once hb hp m hm
    show times m s.caught + (s.pending m).length + times m s.sentAtUnblock ≤
      times m s.caughtAtBlock + 1 + times m (s.sent ++ [(n, ())])
    rw [times_concat]
    omega
  · show times m s.kept + times m (s.dropped ++ [(n, ())]) = times m (s.sent ++ [(n, ())])
    rw [times_concat, times_concat, ← Nat.add_assoc, hI.sent_eq m]
  · by_cases hmn : m = n
    · exact Nat.add_pos_right _ (hmn ▸ hpending)
    · have hsent' : 0 < times m (s.sent ++ [(n, ())]) := hsent
      rw [times_concat, if_neg hmn] at hsent'
      exact hI.arrives halive m hm hsent'

/-- A signal that is sent and kept. -/
theorem Inv.keep (hI : Inv blocking s) (hruns : s.recv.runs = true) (n : ℕ) :
    Inv blocking { s with
      pending := s.pending.generate n (), sent := s.sent ++ [(n, ())],
      kept := s.kept ++ [(n, ())] } := by
  have halive := ne_killed_of_runs hruns
  refine { hI with
    once := fun hb hp m hm => ?_
    sent_eq := fun m => ?_
    accounted := fun _ => (hI.accounted halive).generate n ()
    arrives := fun _ m hm hsent => ?_ }
  · have honce := hI.once hb hp m hm
    have hlen := s.pending.length_generate_le_add n m ()
    show times m s.caught + (s.pending.generate n () m).length + times m s.sentAtUnblock ≤
      times m s.caughtAtBlock + 1 + times m (s.sent ++ [(n, ())])
    rw [times_concat]
    omega
  · show times m (s.kept ++ [(n, ())]) + times m s.dropped = times m (s.sent ++ [(n, ())])
    rw [times_concat, times_concat, Nat.add_right_comm, hI.sent_eq m]
  · have hsent' : 0 < times m (s.sent ++ [(n, ())]) := hsent
    rw [times_concat] at hsent'
    show 0 < times m s.caught + (s.pending.generate n () m).length
    by_cases hcaught : 0 < times m s.caught
    · omega
    · refine Nat.add_pos_right _ (Pending.length_generate_pos hm () ?_)
      by_cases hmn : m = n
      · exact .inl hmn
      · rw [if_neg hmn] at hsent'
        have harr := hI.arrives halive m hm hsent'
        exact .inr (by omega)

theorem Inv.send (hI : Inv blocking s) (hruns : s.recv.runs = true) (full : Bool) (n : ℕ) :
    Inv blocking (send full n s) := by
  unfold SigReceive.send
  split
  case isTrue hdrops =>
    obtain ⟨-, hne⟩ := Bool.and_eq_true_iff.mp hdrops
    exact hI.drop hruns (List.length_pos_iff.mpr (by simpa using hne))
  case isFalse => exact hI.keep hruns n

variable [DecidableEq σ]

theorem Inv.killStep (hI : Inv blocking s) {i : σ} {ok full : Bool}
    (h : killStep i ok full s = some t) : Inv blocking t := by
  unfold SigReceive.killStep at h
  split at h
  · cases h
  split_ifs at h with hcall hnothing
  · obtain rfl := Option.some.inj h
    exact { hI with }
  · obtain rfl := Option.some.inj h
    have hruns : s.recv.runs = true := by simpa using (not_or.mp hnothing).2
    have hleft : ∀ left : σ → List ℤ, Inv blocking { s with left := left } := fun _ => { hI with }
    exact (hleft (Function.update s.left i _)).send hruns full _
  · obtain rfl := Option.some.inj h
    exact { hI with }

/-- **Every step keeps the invariant.** -/
theorem Inv.step (hI : Inv blocking s) {a : Label σ} (h : step blocking s a = some t) :
    Inv blocking t := by
  cases a with
  | sender i ok full => exact hI.killStep h
  | recv => exact hI.recvStep h
  | deliver n => exact hI.deliver h

/-- **The counts.**  For any senders, any interleaving and any order in which the kernel
delivers. -/
theorem counted (args : σ → Args) (blocking : Bool) (h : (machine args blocking).Reachable s) :
    Counted blocking s := by
  have hI : Inv blocking s := by
    refine h.invariant (fun s hinit => ?_) fun s a t hI hst => hI.step hst
    obtain rfl : s = initial args := hinit
    exact inv_initial args
  have hle : s.recv ≠ .killed → ∀ n, times n s.caught + (s.pending n).length ≤ times n s.kept := by
    intro hk n
    rcases Nat.lt_or_ge n SIGRTMIN with hn | hn
    · have hle := ((hI.accounted hk).standard n hn).length_le
      rwa [List.length_append] at hle
    · have heq := congrArg List.length ((hI.accounted hk).realtime n hn)
      rw [List.length_append] at heq
      exact le_of_eq heq
  refine { hI with total_le := fun hk n => ?_, realtime := fun hk n hn => ?_ }
  · have hsent := hI.sent_eq n
    have := hle hk n
    omega
  · have heq := congrArg List.length ((hI.accounted hk).realtime n hn)
    rw [List.length_append] at heq
    rw [← hI.sent_eq n]
    exact congrArg (· + times n s.dropped) heq

/-- Two senders, one of 3 signals 10 and a 2, the other of 3 signals 40. -/
def twoSenders (b : Bool) : Args := if b then ⟨3, 10, some 2⟩ else ⟨3, 40, none⟩

/-- The signals are sent while the receiver sleeps, the second and the third 40 when the kernel has
no more room for one; then they are caught, and the receiver stops. -/
def sentAndCaught : List (Label Bool) :=
  List.replicate 65 .recv ++
    [.sender true true false, .sender false true false, .sender true true false,
      .sender false true true, .sender true true false, .sender false true true,
      .sender true true false] ++
    List.replicate 2 .recv ++ [.deliver 40, .deliver 10, .deliver 2, .recv]

theorem counted_twoSenders : ∃ t,
    (machine twoSenders true).run (initial twoSenders) sentAndCaught = some t ∧
      (t.recv = .exited ∧ t.sigCnt 10 = 1 ∧ t.sigCnt 40 = 1 ∧ times 40 t.dropped = 2) ∧
      Counted true t := by
  obtain ⟨t, hrun, hreach, ht⟩ := Machine.Reachable.exists_of_run (M := machine twoSenders true) rfl
    sentAndCaught
    (p := fun t => t.recv = .exited ∧ t.sigCnt 10 = 1 ∧ t.sigCnt 40 = 1 ∧ times 40 t.dropped = 2)
    (by decide +kernel)
  exact ⟨t, hrun, of_decide_eq_true ht, counted twoSenders true hreach⟩

end SigReceive
end CodeStrudy
