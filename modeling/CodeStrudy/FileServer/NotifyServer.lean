import CodeStrudy.Foundation.Machine
import CodeStrudy.FileServer.FileComm

/-!
# The file server that is woken by `mq_notify`

`practice/52.2.b/file_server.c` reads its request queue from threads: `mq_notify` starts one
`threadFunc` when a message arrives, and `threadFunc` registers again, receives one request and
handles it.  The state is the queue, the registration, and the position of `main` and of every
thread; a label is one move of a client, of `main` or of one thread, with the kernel's answer.

Every `ERROUT` of a thread calls `exit`, which ends the whole process: all threads are gone, and
with them the registration.  The queue is the kernel's and stays.

## What is proved

A registration fires only for a message that finds the queue empty, and a thread takes one
message.  So a second message, sent before the first was taken, is nobody's: once the thread has
taken the first there is no thread to come.  And `mq_receive` may store as many bytes as the queue's
messages have, while `req` has room for a request: what a longer message does to the thread's stack
ends the server.  `served_throughout_iff` says exactly which runs leave no request behind and store
nothing outside of a request; `not_reachable_served` is a run of two clients, whose messages fit,
that leaves one.
-/

namespace CodeStrudy
namespace FileServer
namespace NotifyServer

open Foundation

/-- Where `main` is. -/
inductive MainPc where
  | notifySetup
  | pause
  deriving DecidableEq

/-- Where a `threadFunc` is: at `mq_getattr`, at `notifySetup`, at `mq_receive`, in `msgHandler`
with the request it received, or past `pthread_exit`. -/
inductive ThreadPc where
  | getattr
  | notifySetup
  | receive
  | msgHandler (req : MqRequest)
  | exited
  deriving DecidableEq

/-- The thread was started and has not executed its `mq_receive`. -/
def ThreadPc.beforeReceive : ThreadPc → Bool
  | .getattr | .notifySetup | .receive => true
  | _ => false

/-- A message: what `req` holds when it has been received, and how many bytes it has.  The client
sends as many as the queue admits, whatever stands behind its request. -/
structure Message where
  req : MqRequest
  size : ℕ
  deriving DecidableEq

/-- The request queue and the server process. -/
structure State where
  /-- The messages of `SERVER_MQ`, the oldest first. -/
  queue : List Message
  /-- The process is registered for notification on the queue. -/
  registered : Bool
  main : MainPc
  /-- Every `threadFunc` started so far. -/
  threads : List ThreadPc
  /-- A thread has received a message longer than its `req`. -/
  overflowed : Bool

/-- After `mq_open` in `main`: the queue exists and is empty. -/
def initial : State := ⟨[], false, .notifySetup, [], false⟩

/-- `ERROUT`: the process exits, its threads end and its registration is removed. -/
def State.errOut (s : State) : State := { s with registered := false, threads := [] }

/-- `notifySetup`: `mq_notify` refuses a second registration, and `ERROUT` follows. -/
def State.notifySetup (s : State) : State :=
  if s.registered then s.errOut else { s with registered := true }

/-- A message arrives.  On an empty queue with a registration it starts one `threadFunc` and the
registration is used up. -/
def State.arrive (s : State) (msg : Message) : State :=
  if s.queue.isEmpty && s.registered then
    { s with queue := [msg], registered := false, threads := s.threads ++ [.getattr] }
  else
    { s with queue := s.queue ++ [msg] }

/-- Thread `i` goes on to `pc`. -/
def State.goto (s : State) (i : ℕ) (pc : ThreadPc) : State :=
  { s with threads := s.threads.set i pc }

/-- Thread `i` has taken the message.  One that does not fit into `req` is stored over what stands
behind it on the thread's stack, and the process is killed. -/
def State.store (s : State) (i : ℕ) (msg : Message) : State :=
  if msg.size ≤ sizeofRequest then s.goto i (.msgHandler msg.req)
  else { s.errOut with overflowed := true }

/-- One move: a client's `mq_send`, `main`'s `notifySetup`, or the next call of thread `i`.  The
boolean is whether the call, or the whole of `msgHandler`, succeeds. -/
inductive Label where
  | send (msg : Message)
  | mainNotify
  | getattr (i : ℕ) (ok : Bool)
  | notifySetup (i : ℕ)
  | receive (i : ℕ) (ok : Bool)
  | msgHandler (i : ℕ) (ok : Bool)
  deriving DecidableEq

/-- One step.  `maxmsg` is the queue's limit, at which `mq_send` blocks. -/
def step (maxmsg : ℕ) (s : State) : Label → Option State
  | .send msg => if s.queue.length < maxmsg then some (s.arrive msg) else none
  | .mainNotify =>
    if s.main = .notifySetup then some { s.notifySetup with main := .pause } else none
  | .getattr i ok =>
    if s.threads[i]? = some .getattr then
      some (if ok then s.goto i .notifySetup else s.errOut)
    else none
  | .notifySetup i =>
    if s.threads[i]? = some .notifySetup then some (s.goto i .receive).notifySetup else none
  | .receive i ok =>
    if s.threads[i]? = some .receive then
      if ok then
        match s.queue with
        | [] => none
        | msg :: rest => some ({ s with queue := rest }.store i msg)
      else some s.errOut
    else none
  | .msgHandler i ok =>
    match s.threads[i]? with
    | some (.msgHandler _) => some (if ok then s.goto i .exited else s.errOut)
    | _ => none

/-- The server and its clients. -/
def machine (maxmsg : ℕ) : Machine State Label where
  init s := s = initial
  step := step maxmsg

/-! ## Requests and the threads to come -/

/-- No request is left behind: a message in the queue has a thread that is still to receive. -/
def Served (s : State) : Prop :=
  s.queue ≠ [] → ∃ t ∈ s.threads, t.beforeReceive = true

/-- Nothing has been stored outside of a request. -/
def Intact (s : State) : Prop := s.overflowed = false

/-- The moves that leave no request behind.  A message may arrive when another is already waiting
or when the process is registered; a thread may receive when its message is the only one and fits
into a request; the process may exit when the queue is empty. -/
def Attended (s : State) : Label → Prop
  | .send _ => s.queue ≠ [] ∨ s.registered = true
  | .mainNotify | .notifySetup _ => s.registered = true → s.queue = []
  | .receive _ true => ∃ msg, s.queue = [msg] ∧ msg.size ≤ sizeofRequest
  | .getattr _ ok | .receive _ ok | .msgHandler _ ok => ok = false → s.queue = []

/-- How many threads are still to receive. -/
def State.waiting (s : State) : ℕ := s.threads.countP (·.beforeReceive)

theorem served_iff (s : State) : Served s ↔ (s.queue ≠ [] → 0 < s.waiting) := by
  rw [Served, State.waiting, List.countP_pos_iff]

/-- What bounds the threads still to receive: there is at most one, and there is a message for
it. -/
structure Inv (s : State) : Prop where
  waiting_le_one : s.waiting ≤ 1
  waiting_le_length : s.waiting ≤ s.queue.length

theorem inv_initial : Inv initial := ⟨Nat.zero_le _, Nat.zero_le _⟩

@[simp] theorem waiting_errOut (s : State) : s.errOut.waiting = 0 := rfl

theorem waiting_notifySetup_of_registered {s : State} (h : s.registered = true) :
    s.notifySetup.waiting = 0 := by
  rw [State.notifySetup, if_pos h, waiting_errOut]

theorem waiting_notifySetup_of_not_registered {s : State} (h : ¬ s.registered = true) :
    s.notifySetup.waiting = s.waiting := by
  rw [State.notifySetup, if_neg h]
  rfl

@[simp] theorem queue_notifySetup (s : State) : s.notifySetup.queue = s.queue := by
  unfold State.notifySetup
  split <;> rfl

@[simp] theorem overflowed_notifySetup (s : State) : s.notifySetup.overflowed = s.overflowed := by
  unfold State.notifySetup
  split <;> rfl

/-- A thread that goes on changes the count by what it was and what it is. -/
theorem waiting_goto {s : State} {i : ℕ} {old : ThreadPc} (h : s.threads[i]? = some old)
    (new : ThreadPc) :
    (s.goto i new).waiting + old.beforeReceive.toNat =
      s.waiting + new.beforeReceive.toNat := by
  obtain ⟨hi, hold⟩ := List.getElem?_eq_some_iff.mp h
  have hle : old.beforeReceive = true → 0 < s.threads.countP (·.beforeReceive) := fun hb =>
    List.countP_pos_iff.mpr ⟨old, hold ▸ List.getElem_mem hi, hb⟩
  simp only [State.waiting, State.goto, List.countP_set hi, hold]
  cases hb : old.beforeReceive <;> cases new.beforeReceive <;> simp_all

/-! ## What a step can do -/

/-- Everything a step can do to the queue and to the threads still to receive, with what the step
condition `Attended` says about it, as long as nothing is stored outside of a request. -/
inductive Move (s : State) (a : Label) (t : State) : Prop
  /-- The process exits. -/
  | exits : t.waiting = 0 → t.queue = s.queue → (Attended s a ↔ s.queue = []) → Move s a t
  /-- Neither changes. -/
  | keeps : t.waiting = s.waiting → t.queue = s.queue → Attended s a → Move s a t
  /-- A message arrives behind another one. -/
  | joins : s.queue ≠ [] → t.waiting = s.waiting → t.queue.length = s.queue.length + 1 →
      Attended s a → Move s a t
  /-- A message arrives on an empty queue and starts a thread. -/
  | wakes : s.queue = [] → t.waiting = s.waiting + 1 → t.queue.length = 1 → Attended s a →
      Move s a t
  /-- A message arrives on an empty queue and starts nothing. -/
  | lost : s.queue = [] → t.waiting = s.waiting → t.queue.length = 1 → ¬ Attended s a →
      Move s a t
  /-- A thread receives the oldest message. -/
  | takes : s.waiting = t.waiting + 1 → s.queue.length = t.queue.length + 1 →
      (Attended s a ↔ t.queue = []) → Move s a t

/-- What a step can do: one of these, or a message is received that does not fit. -/
inductive Effect (s : State) (a : Label) (t : State) : Prop
  | move : t.overflowed = s.overflowed → Move s a t → Effect s a t
  | overflow : t.overflowed = true → t.waiting = 0 → ¬ Attended s a → Effect s a t

theorem move_arrive (s : State) (msg : Message) : Move s (.send msg) (s.arrive msg) := by
  by_cases hq : s.queue = []
  · by_cases hr : s.registered = true
    · have harr : s.arrive msg =
          { s with queue := [msg], registered := false, threads := s.threads ++ [.getattr] } := by
        simp [State.arrive, hq, hr]
      refine .wakes hq ?_ (by rw [harr]; rfl) (Or.inr hr)
      rw [harr, State.waiting, List.countP_append]
      rfl
    · have harr : s.arrive msg = { s with queue := s.queue ++ [msg] } := by
        simp [State.arrive, hr]
      refine .lost hq (by rw [harr]; rfl) (by rw [harr, hq]; rfl) ?_
      rintro (h | h)
      · exact h hq
      · exact hr h
  · have harr : s.arrive msg = { s with queue := s.queue ++ [msg] } := by
      simp [State.arrive, hq]
    refine .joins hq (by rw [harr]; rfl) ?_ (Or.inl hq)
    rw [harr, List.length_append]
    rfl

theorem overflowed_arrive (s : State) (msg : Message) :
    (s.arrive msg).overflowed = s.overflowed := by
  unfold State.arrive
  split <;> rfl

/-- `notifySetup` by `main` or by a thread that has gone on to its receive. -/
theorem move_notifySetup {s u t : State} {a : Label} (hu : u.waiting = s.waiting)
    (hq : u.queue = s.queue) (hr : u.registered = s.registered)
    (ha : Attended s a ↔ (s.registered = true → s.queue = []))
    (htw : t.waiting = u.notifySetup.waiting) (htq : t.queue = u.notifySetup.queue) :
    Move s a t := by
  rw [queue_notifySetup, hq] at htq
  by_cases hreg : s.registered = true
  · refine .exits ?_ htq ?_
    · rw [htw, waiting_notifySetup_of_registered (hr.trans hreg)]
    · rw [ha]
      exact ⟨fun h => h hreg, fun h _ => h⟩
  · refine .keeps ?_ htq (ha.mpr fun h => absurd h hreg)
    rw [htw, waiting_notifySetup_of_not_registered (by rw [hr]; exact hreg), hu]

/-- A call of a thread that does not change whether it is still to receive. -/
theorem effect_call {s t : State} {a : Label} {i : ℕ} {old new : ThreadPc} {ok : Bool}
    (hold : s.threads[i]? = some old) (hb : old.beforeReceive = new.beforeReceive)
    (ha : Attended s a ↔ (ok = false → s.queue = []))
    (ht : t = if ok then s.goto i new else s.errOut) : Effect s a t := by
  cases ok with
  | true =>
    have hw := waiting_goto hold new
    rw [hb] at hw
    rw [if_pos rfl] at ht
    exact .move (by rw [ht]; rfl)
      (.keeps (by rw [ht]; omega) (by rw [ht]; rfl) (ha.mpr fun h => absurd h (by decide)))
  | false =>
    rw [if_neg (by decide)] at ht
    refine .move (by rw [ht]; rfl) (.exits (by rw [ht]; rfl) (by rw [ht]; rfl) ?_)
    rw [ha]
    exact ⟨fun h => h rfl, fun h _ => h⟩

/-- A message is taken out of the queue, and fits or not. -/
theorem effect_receive {s : State} {i : ℕ} {msg : Message} {rest : List Message}
    (hi : s.threads[i]? = some .receive) (hq : s.queue = msg :: rest) :
    Effect s (.receive i true) ({ s with queue := rest }.store i msg) := by
  have ha : Attended s (.receive i true) ↔ rest = [] ∧ msg.size ≤ sizeofRequest := by
    simp [Attended, hq, and_assoc]
  by_cases hfits : msg.size ≤ sizeofRequest
  · have hstore : { s with queue := rest }.store i msg =
        { s with queue := rest }.goto i (.msgHandler msg.req) := if_pos hfits
    rw [hstore]
    refine .move rfl (.takes ?_ ?_ ?_)
    · exact (waiting_goto (s := { s with queue := rest }) hi (.msgHandler msg.req)).symm
    · rw [hq]
      rfl
    · rw [ha]
      exact ⟨fun h => h.1, fun h => ⟨h, hfits⟩⟩
  · have hstore : { s with queue := rest }.store i msg =
        { { s with queue := rest }.errOut with overflowed := true } := if_neg hfits
    rw [hstore]
    exact .overflow rfl rfl fun h => hfits (ha.mp h).2

theorem effect_of_step {maxmsg : ℕ} {s t : State} {a : Label} (h : step maxmsg s a = some t) :
    Effect s a t := by
  cases a with
  | send msg =>
    simp only [step, Option.ite_none_right_eq_some, Option.some.injEq] at h
    exact h.2 ▸ .move (overflowed_arrive s msg) (move_arrive s msg)
  | mainNotify =>
    simp only [step, Option.ite_none_right_eq_some, Option.some.injEq] at h
    obtain ⟨-, rfl⟩ := h
    exact .move (overflowed_notifySetup s) (move_notifySetup rfl rfl rfl Iff.rfl rfl rfl)
  | getattr i ok =>
    simp only [step, Option.ite_none_right_eq_some, Option.some.injEq] at h
    exact effect_call h.1 (by rfl) Iff.rfl h.2.symm
  | notifySetup i =>
    simp only [step, Option.ite_none_right_eq_some, Option.some.injEq] at h
    obtain ⟨hi, rfl⟩ := h
    have hw : (s.goto i .receive).waiting = s.waiting :=
      Nat.add_right_cancel (waiting_goto hi .receive)
    exact .move (overflowed_notifySetup _)
      (move_notifySetup (u := s.goto i .receive) hw rfl rfl Iff.rfl rfl rfl)
  | receive i ok =>
    simp only [step, Option.ite_none_right_eq_some] at h
    obtain ⟨hi, h⟩ := h
    cases ok with
    | false =>
      exact .move (by rw [← Option.some.inj h]; rfl)
        (.exits (by rw [← Option.some.inj h]; rfl) (by rw [← Option.some.inj h]; rfl)
          ⟨fun hc => hc rfl, fun hc _ => hc⟩)
    | true =>
      -- the receive blocks on an empty queue, so there is an oldest message
      cases hq : s.queue with
      | nil => simp [hq] at h
      | cons msg rest =>
        simp only [hq, if_true, Option.some.injEq] at h
        exact h ▸ effect_receive hi hq
  | msgHandler i ok =>
    simp only [step] at h
    split at h
    · rename_i req hi
      exact effect_call hi (by rfl) Iff.rfl (Option.some.inj h).symm
    · cases h

/-! ## Invariant and step law -/

theorem inv_step {maxmsg : ℕ} (s : State) (a : Label) (t : State) (hI : Inv s)
    (h : step maxmsg s a = some t) : Inv t := by
  obtain ⟨h1, h2⟩ := hI
  cases effect_of_step h with
  | overflow _ hw _ => exact ⟨by omega, by omega⟩
  | move _ hmove =>
    cases hmove with
    | exits hw hq _ => exact ⟨by omega, by omega⟩
    | keeps hw hq _ => exact ⟨by omega, by rw [hw, hq]; exact h2⟩
    | joins _ hw hq _ => exact ⟨by omega, by omega⟩
    | wakes hq hw hq' _ =>
      rw [hq, List.length_nil] at h2
      exact ⟨by omega, by omega⟩
    | lost hq hw hq' _ =>
      rw [hq, List.length_nil] at h2
      exact ⟨by omega, by omega⟩
    | takes hw hq _ => exact ⟨by omega, by omega⟩

/-- Out of a state that leaves no request behind, such a move leaves none behind exactly if it meets
`Attended`. -/
theorem served_move_iff {s t : State} {a : Label} (hI : Inv s) (hs : Served s) (h : Move s a t) :
    Served t ↔ Attended s a := by
  obtain ⟨h1, h2⟩ := hI
  rw [served_iff] at hs ⊢
  cases h with
  | exits hw hq ha =>
    rw [hw, hq, ha]
    exact ⟨fun h => by_contra fun hne => absurd (h hne) (lt_irrefl 0), fun h hne => absurd h hne⟩
  | keeps hw hq ha =>
    rw [hw, hq]
    exact iff_of_true hs ha
  | joins hq hw _ ha =>
    rw [hw]
    exact iff_of_true (fun _ => hs hq) ha
  | wakes _ hw _ ha =>
    rw [hw]
    exact iff_of_true (fun _ => Nat.succ_pos _) ha
  | lost hq hw hq' ha =>
    rw [hq, List.length_nil] at h2
    refine iff_of_false (fun h => ?_) ha
    have hne : t.queue ≠ [] := List.ne_nil_of_length_pos (by omega)
    have := h hne
    omega
  | takes hw hq ha =>
    -- the thread that received was the only one, so nobody comes for what is left
    have hzero : t.waiting = 0 := by omega
    rw [ha, hzero]
    exact ⟨fun h => by_contra fun hne => absurd (h hne) (lt_irrefl 0), fun h hne => absurd h hne⟩

theorem intact_served_step_iff {maxmsg : ℕ} (s : State) (a : Label) (t : State) (hI : Inv s)
    (hs : Intact s ∧ Served s) (h : step maxmsg s a = some t) :
    Intact t ∧ Served t ↔ Attended s a := by
  cases effect_of_step h with
  | overflow ho _ ha => exact iff_of_false (fun ht => by cases ho.symm.trans ht.1) ha
  | move ho hmove =>
    have hintact : Intact t := ho.trans hs.1
    exact (and_iff_right hintact).trans (served_move_iff hI hs.2 hmove)

/-- **Which runs leave no request behind.**  For every queue limit and every run of the server and
any number of clients: in every state of the run nothing has been stored outside of a request and a
waiting request has a thread to come, exactly when every step of the run meets `Attended`. -/
theorem served_throughout_iff (maxmsg : ℕ) (as : List Label) :
    (machine maxmsg).Throughout (fun s => Intact s ∧ Served s) initial as ↔
      (machine maxmsg).Respects Attended initial as :=
  Machine.throughout_iff_respects (M := machine maxmsg) inv_step intact_served_step_iff as
    inv_initial ⟨rfl, fun h => absurd rfl h⟩

/-- Two clients send a request each before the first thread receives: the thread takes one, and the
other stays in the queue with no thread to come.  (10 is the usual limit of a queue.) -/
theorem not_reachable_served : ¬ ∀ s, (machine 10).Reachable s → Served s := by
  intro h
  have hrun : (machine 10).run initial [.mainNotify, .send ⟨default, 384⟩, .send ⟨default, 384⟩,
      .getattr 0 true, .notifySetup 0, .receive 0 true] =
      some ⟨[⟨default, 384⟩], true, .pause, [.msgHandler default], false⟩ := rfl
  have hserved := h _ ((Machine.Reachable.init (M := machine 10) rfl).run _ hrun)
  obtain ⟨t, ht, hb⟩ := hserved (List.cons_ne_nil _ _)
  rw [List.mem_singleton.mp ht] at hb
  exact absurd hb (by decide)

/-- A message of the usual 8192 bytes ends the server, and the next request is left. -/
example : (machine 10).run initial [.mainNotify, .send ⟨default, 8192⟩, .getattr 0 true,
    .notifySetup 0, .receive 0 true, .send ⟨default, 8192⟩] =
    some ⟨[⟨default, 8192⟩], false, .pause, [], true⟩ := rfl

end NotifyServer
end FileServer
end CodeStrudy
