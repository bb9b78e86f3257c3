import CodeStrudy.Foundation.CInt
import CodeStrudy.Foundation.Machine
import CodeStrudy.Foundation.Signals

/-!
# Values sent with signals

`routines/22.3.send_recv_rtsigs`: `send_rtsigs` sends a row of values with a signal of its choice,
and `recv_rtsigs` catches all signals that can be caught and prints what comes with them, after a
time in which it has blocked them.  Any number of senders run at once, each against the same
receiver, and signals are delivered at any time and in any order of their numbers.

While a call of the handler runs only its own signal is blocked, so other calls interrupt it at any
point.  An increment of `sigCount` may get lost that way; and when a call that prints has
interrupted another one inside `printf`, the program is in a state of which nothing is known.  The
process is started with no signal blocked or ignored, and its `exit` is one step.  The kernel has
room for the value of a standard signal; with a realtime signal `sigqueue` fails when there is
none.

## What is proved

* `Flow.step`: of each signal at most one call of the handler runs, and what has come of it has been
  printed or is with that call.
* `received`: whatever a sender has sent with a realtime signal is printed, with one call of the
  handler, or pending, once and in the order of the sending, in every state in which the receiver
  has not been killed and no `printf` has been interrupted by another one; with another signal
  values may be lost, but those that come are in order.
-/

namespace CodeStrudy
namespace RtSignals

open Foundation Signals

/-! ## The sender -/

/-- The numbers on the command line of `send_rtsigs`; the signal and the number of passes are what
is left of them in an `int`. -/
structure Args where
  sigNum : ℤ
  data : ℤ
  numSigs : ℤ

/-- The values of `sigval.sival_int`, one for each pass of the loop. -/
def Args.values (a : Args) : List CInt :=
  (List.range a.numSigs.toNat).map fun i => BitVec.ofInt 32 (a.data + i)

/-! ## The receiver -/

/-- Where `recv_rtsigs` is: in its loop of `sigaction` calls; before, in and behind its sleep, with
`blockMask` set from the first to the last of these; at the test of `allDone`, in `pause`; or past
its end.  After an interrupted `printf` it is `undefined`. -/
inductive RecvPc where
  | install (sig : ℕ)
  | block
  | sleep
  | restore
  | test
  | pause
  | exited
  | killed
  | undefined
  deriving DecidableEq

/-- There is a process to send signals to. -/
def RecvPc.runs : RecvPc → Bool
  | .exited | .killed | .undefined => false
  | _ => true

/-- `sigaction` has been called for the signal.  It fails for what is no signal, for the two that
cannot be caught and for the two that the C library keeps for itself. -/
def RecvPc.catches (pc : RecvPc) (n : ℕ) : Bool :=
  (match pc with
    | .install sig => decide (n < sig)
    | _ => decide (n < NSIG)) &&
  !(n == 0 || n == SIGKILL || n == SIGSTOP || n == 32 || n == 33)

/-- The signal is blocked. -/
def RecvPc.blocks (pc : RecvPc) (n : ℕ) : Bool :=
  (pc == .sleep || pc == .restore) && !(n == SIGKILL || n == SIGSTOP)

/-- Where a call of `siginfoHandler` is: before its test of `sig`, before and in the increment of
`sigCount`, or in one of its `printf` calls. -/
inductive HandlerPc where
  | enter
  | load
  | store (count : CInt)
  | print
  deriving DecidableEq

/-- A call of the handler, with the signal and what has come with it. -/
structure Frame (σ : Type*) where
  sig : ℕ
  value : σ × CInt
  pc : HandlerPc

/-- The senders, the signals, and the receiver. -/
structure State (σ : Type*) where
  /-- The values that a sender has still to send. -/
  left : σ → List CInt
  /-- A pending signal with its `si_pid` and `si_value`. -/
  pending : Pending (σ × CInt)
  recv : RecvPc
  /-- The calls of the handler that have not returned, the last one first. -/
  handlers : List (Frame σ)
  sigCount : CInt
  allDone : Bool
  /-- The signals that have been sent, those that the handler has been called for, and those that
  it has printed. -/
  sent : List (ℕ × σ × CInt)
  caught : List (ℕ × σ × CInt)
  printed : List (ℕ × σ × CInt)

/-- A sender calls `sigqueue`, which succeeds or not; the receiver goes on, in `main` or in the
handler; a signal is delivered. -/
inductive Label (σ : Type*) where
  | sender (i : σ) (ok : Bool)
  | recv
  | handler
  | deliver (n : ℕ)

section Program

variable {σ : Type*}

/-- All programs are started. -/
def initial (args : σ → Args) : State σ :=
  ⟨fun i => (args i).values, .empty, .install 0, [], 0, false, [], [], []⟩

/-- The next step of `main` of the receiver; `argc > 1` is `blocking`. -/
def recvStep (blocking : Bool) (s : State σ) : Option (State σ) :=
  match s.recv with
  | .install sig =>
    some { s with
      recv := if sig < NSIG then .install (sig + 1) else if blocking then .block else .test }
  | .block => some { s with recv := .sleep }
  | .sleep => some { s with recv := .restore }
  | .restore => some { s with recv := .test }
  | .test => some { s with recv := if s.allDone then .exited else .pause }
  | .pause | .exited | .killed | .undefined => none

/-- A call of the handler returns; a `pause` returns when none is left. -/
def handlerReturns (rest : List (Frame σ)) (s : State σ) : State σ :=
  { s with
    handlers := rest
    recv := if rest.isEmpty && s.recv == .pause then .test else s.recv }

/-- The next step of `siginfoHandler`, in the call that has interrupted the others. -/
def handlerStep (s : State σ) : Option (State σ) :=
  match s.handlers with
  | [] => none
  | f :: rest =>
    match f.pc with
    | .enter =>
      if f.sig == SIGINT || f.sig == SIGTERM then
        some (handlerReturns rest { s with allDone := true })
      else some { s with handlers := { f with pc := .load } :: rest }
    | .load => some { s with handlers := { f with pc := .store s.sigCount } :: rest }
    | .store count =>
      some { s with
        handlers := { f with pc := .print } :: rest
        sigCount := count + 1
        recv := if rest.any (·.pc == .print) then .undefined else s.recv }
    | .print => some (handlerReturns rest { s with printed := s.printed ++ [(f.sig, f.value)] })

/-- A signal is blocked while the handler runs for it. -/
def State.handles (s : State σ) (n : ℕ) : Bool := s.handlers.any (·.sig == n)

/-- The handler is called. -/
def siginfoHandler (n : ℕ) (v : σ × CInt) (s : State σ) : State σ :=
  { s with caught := s.caught ++ [(n, v)], handlers := ⟨n, v, .enter⟩ :: s.handlers }

/-- A signal is delivered: to the handler, if it is installed, and else with the default action. -/
def deliver (n : ℕ) (s : State σ) : Option (State σ) :=
  if s.recv.runs && !s.recv.blocks n && !s.handles n then
    (s.pending.take n).map fun (v, p) =>
      if s.recv.catches n then siginfoHandler n v { s with pending := p }
      else if terminates n then { s with recv := .killed }
      else { s with pending := p }
  else none

variable [DecidableEq σ]

/-- One pass of a sender's loop.  It exits when the call fails.  Signal 0 is only a test, and a
receiver that has ended and has not been waited for gets nothing. -/
def sendStep (args : σ → Args) (i : σ) (ok : Bool) (s : State σ) : Option (State σ) :=
  match s.left i with
  | [] => none
  | v :: vs =>
    if ok && 0 ≤ (args i).sigNum && (args i).sigNum < NSIG then
      if (args i).sigNum = 0 ∨ s.recv.runs = false then
        some { s with left := Function.update s.left i vs }
      else
        some { s with
          left := Function.update s.left i vs
          pending := s.pending.generate (args i).sigNum.toNat (i, v)
          sent := s.sent ++ [((args i).sigNum.toNat, i, v)] }
    else some { s with left := Function.update s.left i [] }

/-- One step. -/
def step (args : σ → Args) (blocking : Bool) (s : State σ) : Label σ → Option (State σ)
  | .sender i ok => sendStep args i ok s
  | .recv => if s.handlers.isEmpty then recvStep blocking s else none
  | .handler => if s.recv.runs then handlerStep s else none
  | .deliver n => deliver n s

/-- The programs. -/
def machine (args : σ → Args) (blocking : Bool) : Machine (State σ) (Label σ) where
  init s := s = initial args
  step := step args blocking

end Program

/-! ## The property -/

variable {σ : Type*} [DecidableEq σ]

/-- The calls of the handler, with their signals. -/
def State.frames (s : State σ) : List (ℕ × σ × CInt) := s.handlers.map fun f => (f.sig, f.value)

/-- What a sender has sent, and what the receiver has printed as coming from it. -/
def State.sentBy (s : State σ) (i : σ) : List CInt := valuesOf i (s.sent.map Prod.snd)

def State.printedFrom (s : State σ) (i : σ) : List CInt := valuesOf i (s.printed.map Prod.snd)

/-- What calls of the handler have to print of a sender. -/
def State.handledFrom (s : State σ) (i : σ) : List CInt := valuesOf i (s.frames.map Prod.snd)

/-- What is pending of a sender. -/
def State.pendingFrom (args : σ → Args) (s : State σ) (i : σ) : List CInt :=
  valuesOf i (s.pending (args i).sigNum.toNat)

/-- What a sender's values have come to: printed, with the handler, or pending. -/
def State.arrived (args : σ → Args) (s : State σ) (i : σ) : List CInt :=
  s.printedFrom i ++ s.handledFrom i ++ s.pendingFrom args i

/-- Nothing has happened after which nothing is known of the receiver. -/
def State.Sane (s : State σ) : Prop := s.recv ≠ .killed ∧ s.recv ≠ .undefined

/-- What is true of the senders and the receiver in every state. -/
structure Received (args : σ → Args) (s : State σ) : Prop where
  sentBy_prefix : ∀ i, s.sentBy i <+: (args i).values
  realtime : s.Sane → ∀ i, ∀ n : ℕ, (args i).sigNum = n → SIGRTMIN ≤ n →
    s.arrived args i = s.sentBy i
  standard : s.Sane → ∀ i, ∀ n : ℕ, (args i).sigNum = n → n < SIGRTMIN →
    (s.arrived args i).Sublist (s.sentBy i)
  length_handledFrom_le : ∀ i, (s.handledFrom i).length ≤ 1
  done_of_exited : s.recv = .exited → ∃ e ∈ s.caught, e.1 = SIGINT ∨ e.1 = SIGTERM

/-! ## What the steps keep -/

/-- Every signal is under the number of its sender. -/
structure Labelled (args : σ → Args) (s : State σ) : Prop where
  sent : ∀ e ∈ s.sent, (args e.2.1).sigNum = e.1
  pending : ∀ n, ∀ e ∈ s.pending n, (args e.1).sigNum = n
  caught : ∀ e ∈ s.caught, (args e.2.1).sigNum = e.1

/-- What a sender has sent and has still to send are its values, until it gives up or there is no
receiver. -/
def Ordered (args : σ → Args) (s : State σ) (i : σ) : Prop :=
  s.sentBy i <+: (args i).values ∧
    ((args i).sigNum ≠ 0 → s.recv.runs = true → s.left i = [] ∨
      s.sentBy i ++ s.left i = (args i).values)

/-- What has become of the calls of the handler: `frames` are those that run, the last one first. -/
structure Flow (frames printed caught : List (ℕ × σ × CInt)) : Prop where
  /-- Of each signal at most one call runs. -/
  nodup : (frames.map Prod.fst).Nodup
  mem_caught : ∀ e ∈ frames, e ∈ caught
  /-- The ones that end the receiver are not printed. -/
  sublist : ∀ n, (valuesOf n printed ++ valuesOf n frames).Sublist (valuesOf n caught)
  eq : ∀ n, n ≠ SIGINT → n ≠ SIGTERM →
    valuesOf n printed ++ valuesOf n frames = valuesOf n caught

/-- What the handler has noted. -/
structure Noted (s : State σ) : Prop where
  caught_of_allDone : s.allDone = true → ∃ e ∈ s.caught, e.1 = SIGINT ∨ e.1 = SIGTERM
  done_of_exited : s.recv = .exited → s.allDone = true

structure Inv (args : σ → Args) (s : State σ) : Prop extends Labelled args s, Noted s where
  flow : Flow s.frames s.printed s.caught
  accounted : s.recv ≠ .killed → Accounted s.sent s.pending s.caught
  ordered : ∀ i, Ordered args s i

variable {args : σ → Args} {s t : State σ} {blocking : Bool}

theorem inv_initial (args : σ → Args) : Inv args (initial args) where
  sent _ h := nomatch h
  pending _ _ h := nomatch h
  caught _ h := nomatch h
  caught_of_allDone h := nomatch h
  done_of_exited h := nomatch h
  flow :=
    { nodup := List.nodup_nil
      mem_caught := fun _ h => absurd h List.not_mem_nil
      sublist := fun _ => List.Sublist.refl _
      eq := fun _ _ _ => rfl }
  accounted _ := .empty
  ordered _ := ⟨List.nil_prefix, fun _ _ => .inr (List.nil_append _)⟩

/-! ### The receiver -/

omit [DecidableEq σ] in
theorem ne_killed_of_runs (h : s.recv.runs = true) : s.recv ≠ .killed := fun hk => by
  rw [hk] at h
  cases h

omit [DecidableEq σ] in
theorem ne_exited_of_runs (h : s.recv.runs = true) : s.recv ≠ .exited := fun he => by
  rw [he] at h
  cases h

/-- The receiver goes on and nothing is sent, caught or printed. -/
theorem Inv.goto (hI : Inv args s) (hruns : s.recv.runs = true) {pc : RecvPc}
    (hdone : pc = .exited → s.allDone = true) : Inv args { s with recv := pc } :=
  { hI with
    done_of_exited := hdone
    accounted := fun _ => hI.accounted (ne_killed_of_runs hruns)
    ordered := fun i => ⟨(hI.ordered i).1, fun hsig _ => (hI.ordered i).2 hsig hruns⟩ }

theorem Inv.recvStep (hI : Inv args s) (h : recvStep blocking s = some t) : Inv args t := by
  cases hr : s.recv <;> simp only [RtSignals.recvStep, hr, reduceCtorEq] at h
  case install sig =>
    obtain rfl := Option.some.inj h
    refine hI.goto (by rw [hr]; rfl) fun heq => ?_
    split_ifs at heq
  case test =>
    obtain rfl := Option.some.inj h
    refine hI.goto (by rw [hr]; rfl) fun heq => ?_
    split_ifs at heq with hdone
    exact hdone
  all_goals
    obtain rfl := Option.some.inj h
    exact hI.goto (by rw [hr]; rfl) nofun

/-! ### The handler -/

section Flow

omit [DecidableEq σ]

variable {frames printed caught : List (ℕ × σ × CInt)} {e : ℕ × σ × CInt}

/-- No other call runs for the signal of a call. -/
theorem Flow.valuesOf_tail (h : Flow (e :: frames) printed caught) : valuesOf e.1 frames = [] := by
  have hnew := (List.nodup_cons.mp h.nodup).1
  refine List.map_eq_nil_iff.mpr (List.filter_eq_nil_iff.mpr fun e' he' heq => hnew ?_)
  exact of_decide_eq_true heq ▸ List.mem_map_of_mem he'

/-- The handler is called for a signal that it does not run for. -/
theorem Flow.call (h : Flow frames printed caught) {n : ℕ} (hn : n ∉ frames.map Prod.fst)
    (v : σ × CInt) : Flow ((n, v) :: frames) printed (caught ++ [(n, v)]) := by
  have hnil : valuesOf n frames = [] :=
    List.map_eq_nil_iff.mpr (List.filter_eq_nil_iff.mpr fun e he heq =>
      hn (of_decide_eq_true heq ▸ List.mem_map_of_mem he))
  have hadd : ∀ m, valuesOf m printed ++ valuesOf m ((n, v) :: frames) =
      valuesOf m printed ++ valuesOf m frames ++ if m = n then [v] else [] := by
    intro m
    rw [valuesOf_cons]
    by_cases hm : m = n
    · rw [hm, if_pos rfl, if_pos rfl, hnil, List.append_nil]
    · rw [if_neg (Ne.symm hm), if_neg hm, List.append_nil]
  refine ⟨List.nodup_cons.mpr ⟨hn, h.nodup⟩, fun e he => ?_, fun m => ?_, fun m hint hterm => ?_⟩
  · rcases List.mem_cons.mp he with rfl | he
    · exact List.mem_append_right _ (List.mem_singleton_self _)
    · exact List.mem_append_left _ (h.mem_caught e he)
  · rw [hadd, valuesOf_concat]
    exact (h.sublist m).append_right _
  · rw [hadd, valuesOf_concat, h.eq m hint hterm]

/-- A call has printed what has come with its signal. -/
theorem Flow.print (h : Flow (e :: frames) printed caught) :
    Flow frames (printed ++ [e]) caught := by
  have hmove : ∀ m, valuesOf m (printed ++ [e]) ++ valuesOf m frames =
      valuesOf m printed ++ valuesOf m (e :: frames) := by
    intro m
    rw [valuesOf_append, valuesOf_cons, valuesOf_cons]
    by_cases hm : e.1 = m
    · have hnil : valuesOf m frames = [] := hm ▸ h.valuesOf_tail
      rw [if_pos hm, if_pos hm, hnil, List.append_nil]
      rfl
    · rw [if_neg hm, if_neg hm]
      exact congrArg (· ++ valuesOf m frames) (List.append_nil _)
  exact ⟨(List.nodup_cons.mp h.nodup).2, fun e he => h.mem_caught e (List.mem_cons_of_mem _ he),
    fun m => hmove m ▸ h.sublist m, fun m hint hterm => hmove m ▸ h.eq m hint hterm⟩

theorem Flow.length_valuesOf_le (h : Flow frames printed caught) (n : ℕ) :
    (valuesOf n frames).length ≤ 1 := by
  have hcount := List.nodup_iff_count_le_one.mp h.nodup n
  rw [List.count, List.countP_map, List.countP_eq_length_filter] at hcount
  rw [valuesOf, List.length_map]
  exact hcount

/-- A call ends without printing. -/
theorem Flow.ends (h : Flow (e :: frames) printed caught) (hsig : e.1 = SIGINT ∨ e.1 = SIGTERM) :
    Flow frames printed caught := by
  refine ⟨(List.nodup_cons.mp h.nodup).2, fun e he => h.mem_caught e (List.mem_cons_of_mem _ he),
    fun m => ?_, fun m hint hterm => ?_⟩
  · refine List.Sublist.trans (List.Sublist.append_left ?_ _) (h.sublist m)
    exact valuesOf_sublist (List.sublist_cons_self e frames)
  · have hne : e.1 ≠ m := by
      rintro rfl
      exact hsig.elim hint hterm
    have heq := h.eq m hint hterm
    rwa [valuesOf_cons, if_neg hne] at heq

end Flow

/-- A call of the handler returns. -/
theorem Inv.handlerReturns (hI : Inv args s) (hruns : s.recv.runs = true)
    {rest : List (Frame σ)} {printed : List (ℕ × σ × CInt)} {done : Bool}
    (hflow : Flow (rest.map fun f => (f.sig, f.value)) printed s.caught)
    (hcaught : done = true → ∃ e ∈ s.caught, e.1 = SIGINT ∨ e.1 = SIGTERM) :
    Inv args (handlerReturns rest { s with printed := printed, allDone := done }) := by
  refine { hI with
    caught_of_allDone := hcaught
    done_of_exited := fun hexited => ?_
    flow := hflow
    accounted := fun _ => hI.accounted (ne_killed_of_runs hruns)
    ordered := fun i => ⟨(hI.ordered i).1, fun hsig _ => (hI.ordered i).2 hsig hruns⟩ }
  have hexited : (if rest.isEmpty && s.recv == .pause then RecvPc.test else s.recv) = .exited :=
    hexited
  split_ifs at hexited
  exact absurd hexited (ne_exited_of_runs hruns)

/-- A call of the handler goes on. -/
theorem Inv.handlerGoes (hI : Inv args s) (hruns : s.recv.runs = true) {f : Frame σ}
    {rest : List (Frame σ)} (hs : s.handlers = f :: rest) {pc : RecvPc} (hpc : pc ≠ .exited)
    (place : HandlerPc) (count : CInt) :
    Inv args
      { s with handlers := { f with pc := place } :: rest, sigCount := count, recv := pc } := by
  have hflow := hI.flow
  rw [State.frames, hs] at hflow
  exact { hI with
    done_of_exited := fun hexited => absurd hexited hpc
    flow := hflow
    accounted := fun _ => hI.accounted (ne_killed_of_runs hruns)
    ordered := fun i => ⟨(hI.ordered i).1, fun hsig _ => (hI.ordered i).2 hsig hruns⟩ }

theorem Inv.handlerStep (hI : Inv args s) (hruns : s.recv.runs = true)
    (h : handlerStep s = some t) : Inv args t := by
  have hne := ne_exited_of_runs hruns
  unfold RtSignals.handlerStep at h
  split at h
  · cases h
  rename_i f rest hs
  have hflow := hI.flow
  rw [State.frames, hs, List.map_cons] at hflow
  cases hpc : f.pc <;> simp only [hpc] at h
  case enter =>
    split_ifs at h with hend <;> obtain rfl := Option.some.inj h
    · have hsig : f.sig = SIGINT ∨ f.sig = SIGTERM := by simpa using hend
      exact hI.handlerReturns hruns (hflow.ends hsig)
        fun _ => ⟨_, hflow.mem_caught _ List.mem_cons_self, hsig⟩
    · exact hI.handlerGoes hruns hs hne .load s.sigCount
  case load =>
    obtain rfl := Option.some.inj h
    exact hI.handlerGoes hruns hs hne (.store s.sigCount) s.sigCount
  case store count =>
    obtain rfl := Option.some.inj h
    refine hI.handlerGoes hruns hs ?_ .print (count + 1)
    split_ifs
    · nofun
    · exact hne
  case print =>
    obtain rfl := Option.some.inj h
    exact hI.handlerReturns hruns hflow.print hI.caught_of_allDone

/-! ### Deliveries -/

omit [DecidableEq σ] in
/-- What is pending after a signal has been taken. -/
theorem Labelled.take (hs : Labelled args s) {n : ℕ} {v : σ × CInt} {p : Pending (σ × CInt)}
    (htake : s.pending.take n = some (v, p)) :
    (args v.1).sigNum = n ∧ ∀ m, ∀ e ∈ p m, (args e.1).sigNum = m := by
  obtain ⟨vs, hp, rfl⟩ := Pending.take_eq_some htake
  refine ⟨hs.pending n v (hp ▸ List.mem_cons_self), fun m e he => hs.pending m e ?_⟩
  by_cases hm : m = n
  · subst hm
    rw [Function.update_self] at he
    exact hp ▸ List.mem_cons_of_mem v he
  · rwa [Function.update_of_ne hm] at he

omit [DecidableEq σ] in
theorem notMem_frames {n : ℕ} (h : s.handles n = false) : n ∉ s.frames.map Prod.fst := by
  intro hmem
  obtain ⟨e, he, rfl⟩ := List.mem_map.mp hmem
  obtain ⟨f, hf, rfl⟩ := List.mem_map.mp he
  exact List.any_eq_false.mp h f hf (beq_self_eq_true f.sig)

theorem Inv.deliver (hI : Inv args s) {n : ℕ} (h : deliver n s = some t) : Inv args t := by
  obtain ⟨hcan, h⟩ := Option.ite_none_right_eq_some.mp h
  obtain ⟨⟨v, p⟩, htake, rfl⟩ := Option.map_eq_some_iff.mp h
  obtain ⟨hcan, hfree⟩ := Bool.and_eq_true_iff.mp hcan
  obtain ⟨hruns, -⟩ := Bool.and_eq_true_iff.mp hcan
  have hacc := hI.accounted (ne_killed_of_runs hruns)
  obtain ⟨hsig, hpending⟩ := hI.toLabelled.take htake
  dsimp only
  split_ifs with hcatch hterm
  · refine { hI with
      pending := hpending
      caught := fun e he => ?_
      caught_of_allDone := fun hdone => ?_
      flow := hI.flow.call (notMem_frames (by simpa using hfree)) v
      accounted := fun _ => hacc.deliver htake }
    · rcases List.mem_append.mp he with he | he
      · exact hI.caught e he
      · obtain rfl := List.mem_singleton.mp he
        exact hsig
    · obtain ⟨e, he, hsig⟩ := hI.caught_of_allDone hdone
      exact ⟨e, List.mem_append_left _ he, hsig⟩
  · exact { hI with
      done_of_exited := nofun
      accounted := fun hk => absurd rfl hk
      ordered := fun i => ⟨(hI.ordered i).1, fun _ hr => nomatch hr⟩ }
  · exact { hI with
      pending := hpending
      accounted := fun _ => hacc.discard (lt_of_not_terminates hterm) htake }

/-! ### The senders -/

theorem sentBy_concat (s : State σ) (n : ℕ) (i j : σ) (v : CInt) :
    valuesOf j ((s.sent ++ [(n, i, v)]).map Prod.snd) =
      s.sentBy j ++ if j = i then [v] else [] := by
  rw [List.map_append, List.map_singleton, valuesOf_concat]
  rfl

/-- A sender's list gets shorter without a signal: by a call that has done nothing, or because the
sender gives up. -/
theorem Inv.shorten (hI : Inv args s) {i : σ} {vs : List CInt}
    (h : vs = [] ∨ (args i).sigNum = 0 ∨ s.recv.runs = false) :
    Inv args { s with left := Function.update s.left i vs } := by
  refine { hI with ordered := fun j => ⟨(hI.ordered j).1, fun hne hruns => ?_⟩ }
  by_cases hj : j = i
  · subst hj
    rcases h with rfl | hzero | hgone
    · exact .inl (Function.update_self _ _ _)
    · exact absurd hzero hne
    · cases hgone.symm.trans hruns
  · show Function.update s.left i vs j = [] ∨ _ ++ Function.update s.left i vs j = _
    rw [Function.update_of_ne hj]
    exact (hI.ordered j).2 hne hruns

theorem Inv.sendStep (hI : Inv args s) {i : σ} {ok : Bool} (h : sendStep args i ok s = some t) :
    Inv args t := by
  unfold RtSignals.sendStep at h
  split at h
  · cases h
  rename_i v vs hleft
  split_ifs at h with hcall hnothing
  · obtain rfl := Option.some.inj h
    exact hI.shorten (.inr hnothing)
  · obtain rfl := Option.some.inj h
    obtain ⟨hne, hruns⟩ := not_or.mp hnothing
    have hruns : s.recv.runs = true := by simpa using hruns
    obtain ⟨hcall, -⟩ := Bool.and_eq_true_iff.mp hcall
    obtain ⟨-, hpos⟩ := Bool.and_eq_true_iff.mp hcall
    have hnum : ((args i).sigNum.toNat : ℤ) = (args i).sigNum :=
      Int.toNat_of_nonneg (of_decide_eq_true hpos)
    obtain ⟨hpre, horder⟩ := hI.ordered i
    have hvalues : s.sentBy i ++ v :: vs = (args i).values := by
      rcases horder hne hruns with hnil | heq
      · cases hleft.symm.trans hnil
      · rw [← heq, hleft]
    refine { hI with
      sent := ?_
      pending := ?_
      accounted := fun hk => (hI.accounted hk).generate _ _
      ordered := ?_ }
    · intro e he
      rcases List.mem_append.mp he with he | he
      · exact hI.sent e he
      · obtain rfl := List.mem_singleton.mp he
        exact hnum.symm
    · intro n e he
      have he' := (Pending.generate_sublist s.pending (args i).sigNum.toNat n (i, v)).subset he
      rcases List.mem_append.mp he' with he' | he'
      · exact hI.pending n e he'
      · split_ifs at he' with hn
        · obtain rfl := List.mem_singleton.mp he'
          rw [hn, hnum]
        · cases he'
    · intro j
      unfold Ordered State.sentBy
      rw [sentBy_concat]
      dsimp only
      by_cases hj : j = i
      · subst hj
        rw [if_pos rfl, Function.update_self, ← hvalues, List.append_assoc, List.singleton_append]
        exact ⟨⟨vs, by rw [List.append_assoc, List.singleton_append]⟩, fun _ _ => .inr rfl⟩
      · rw [if_neg hj, List.append_nil, Function.update_of_ne hj]
        exact hI.ordered j
  · obtain rfl := Option.some.inj h
    exact hI.shorten (.inl rfl)

/-- **Every step keeps the invariant.** -/
theorem Inv.step (hI : Inv args s) {a : Label σ} (h : step args blocking s a = some t) :
    Inv args t := by
  cases a with
  | sender i ok => exact hI.sendStep h
  | recv => exact hI.recvStep (Option.ite_none_right_eq_some.mp h).2
  | handler =>
    obtain ⟨hruns, h⟩ := Option.ite_none_right_eq_some.mp h
    exact hI.handlerStep hruns h
  | deliver n => exact hI.deliver h

theorem Inv.of_reachable (h : (machine args blocking).Reachable s) : Inv args s := by
  refine h.invariant (fun s hinit => ?_) fun s a t hI hst => hI.step hst
  obtain rfl : s = initial args := hinit
  exact inv_initial args

/-! ## The result -/

/-- What a log has of a sender is under the sender's signal. -/
theorem valuesOf_sender {l : List (ℕ × σ × CInt)} (h : ∀ e ∈ l, (args e.2.1).sigNum = e.1) {i : σ}
    {n : ℕ} (hn : (args i).sigNum = n) :
    valuesOf i (l.map Prod.snd) = valuesOf i (valuesOf n l) :=
  valuesOf_map_snd fun e he hi => by
    have hsig := h e he
    rw [hi, hn] at hsig
    exact_mod_cast hsig.symm

theorem frames_labelled (hI : Inv args s) : ∀ e ∈ s.frames, (args e.2.1).sigNum = e.1 :=
  fun e he => hI.caught e (hI.flow.mem_caught e he)

/-- What has arrived of a sender is what has arrived of its signal. -/
theorem arrived_eq (hI : Inv args s) {i : σ} {n : ℕ} (hn : (args i).sigNum = n) :
    s.arrived args i =
      valuesOf i (valuesOf n s.printed ++ valuesOf n s.frames ++ s.pending n) := by
  have hprinted : ∀ e ∈ s.printed, (args e.2.1).sigNum = e.1 := by
    intro e he
    have hmem : e.2 ∈ valuesOf e.1 s.printed :=
      List.mem_map_of_mem (List.mem_filter.mpr ⟨he, decide_eq_true rfl⟩)
    have hcaught := (hI.flow.sublist e.1).subset (List.mem_append_left _ hmem)
    obtain ⟨e', he', heq⟩ := List.mem_map.mp hcaught
    obtain ⟨he', hkey⟩ := List.mem_filter.mp he'
    have hsig := hI.caught e' he'
    rwa [heq, of_decide_eq_true hkey] at hsig
  rw [valuesOf_append, valuesOf_append, State.arrived, State.printedFrom, State.handledFrom,
    State.pendingFrom, valuesOf_sender hprinted hn, valuesOf_sender (frames_labelled hI) hn, hn,
    Int.toNat_natCast]

/-- **Nothing is lost, doubled or moved.**  For any senders, any interleaving and any order in which
the kernel delivers: what a sender has sent with a realtime signal is what the receiver has printed
of it, what a call of its handler has, and then what is pending, as long as the receiver is not
killed and no `printf` is interrupted by another one; of another signal values may be lost. -/
theorem received (args : σ → Args) (blocking : Bool) (h : (machine args blocking).Reachable s) :
    Received args s := by
  have hI := Inv.of_reachable h
  refine ⟨fun i => (hI.ordered i).1, fun hk i n hn hrt => ?_, fun hk i n hn hstd => ?_,
    fun i => ?_, fun hexited => hI.caught_of_allDone (hI.done_of_exited hexited)⟩
  · have hint : n ≠ SIGINT := fun heq => absurd hrt (by rw [heq]; decide)
    have hterm : n ≠ SIGTERM := fun heq => absurd hrt (by rw [heq]; decide)
    rw [arrived_eq hI hn, hI.flow.eq n hint hterm, (hI.accounted hk.1).realtime n hrt]
    exact (valuesOf_sender hI.sent hn).symm
  · have hsent : s.sentBy i = valuesOf i (valuesOf n s.sent) := valuesOf_sender hI.sent hn
    rw [arrived_eq hI hn, hsent]
    refine valuesOf_sublist (List.Sublist.trans ?_ ((hI.accounted hk.1).standard n hstd))
    exact (hI.flow.sublist n).append_right _
  · rw [State.handledFrom]
    by_cases hn : 0 ≤ (args i).sigNum
    · rw [valuesOf_sender (frames_labelled hI) (Int.toNat_of_nonneg hn).symm]
      refine le_trans ?_ (hI.flow.length_valuesOf_le (args i).sigNum.toNat)
      rw [valuesOf, List.length_map]
      exact List.length_filter_le _ _
    · have hnone : valuesOf i (s.frames.map Prod.snd) = [] := by
        refine List.map_eq_nil_iff.mpr (List.filter_eq_nil_iff.mpr fun e he heq => hn ?_)
        obtain ⟨e', he', rfl⟩ := List.mem_map.mp he
        have hsig := frames_labelled hI e' he'
        rw [of_decide_eq_true heq] at hsig
        exact hsig ▸ Int.natCast_nonneg _
      rw [hnone]
      exact Nat.zero_le 1

/-- Two senders of the signal 34. -/
def twoSenders (b : Bool) : Args := ⟨34, if b then 5 else 8, 2⟩

/-- They have sent all when the receiver gets behind its sleep; it prints two values, is called for
a third one, and has the last one pending. -/
def twoPrinted : List (Label Bool) :=
  [.sender true true, .sender false true, .sender true true, .sender false true] ++
    List.replicate 70 .recv ++
    [.deliver 34, .handler, .handler, .handler, .handler, .deliver 34, .handler, .handler,
      .handler, .handler, .recv, .deliver 34, .handler]

theorem received_twoSenders : ∃ t, (machine twoSenders true).run (initial twoSenders) twoPrinted =
      some t ∧
    (t.printed = [(34, true, 5), (34, false, 8)] ∧ t.frames = [(34, true, 6)] ∧
      t.pending 34 = [(false, 9)]) ∧
    Received twoSenders t := by
  obtain ⟨t, hrun, hreach, ht⟩ := Machine.Reachable.exists_of_run (M := machine twoSenders true) rfl
    twoPrinted
    (p := fun t => t.printed = [(34, true, 5), (34, false, 8)] ∧ t.frames = [(34, true, 6)] ∧
      t.pending 34 = [(false, 9)])
    (by decide +kernel)
  exact ⟨t, hrun, of_decide_eq_true ht, received twoSenders true hreach⟩

end RtSignals
end CodeStrudy
