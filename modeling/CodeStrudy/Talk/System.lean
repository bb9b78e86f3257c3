import CodeStrudy.Foundation.Machine
import CodeStrudy.Foundation.MessageQueue
import CodeStrudy.Talk.Server

/-!
# The talk system: a server and its clients

One `talk_server`, and for every element of a type `ι` a `talk_client`, which after its registration
forks a process that receives.  The processes share the kernel's message queues, and their steps
come in any order.  A label says which process moves and what the kernel or the user gives it; the
label `exit` is a call that fails with `errPrintf` behind it, or a signal whose handler calls
`exit`, at any point of a process.

Two things of the source are easy to overlook.  The receiver reads the server's queue, not its own.
And the handler that sends the `MTYPE_DELETE` message is installed before `fork`, so that it runs in
both processes of a client.
-/

namespace CodeStrudy
namespace Talk

open Foundation

/-- The queues of the kernel. -/
abbrev Queues := MsgQueues CInt ServerMsg

/-! ## A client -/

/-- The two processes of a client. -/
inductive Proc where
  | main
  | child
  deriving DecidableEq

/-- Where a process of a client is. -/
inductive Pc where
  | openServer
  | msgget
  | register
  | fork
  | talk
  | notForked
  | receive
  | onExit
  | rmid
  | exited
  deriving DecidableEq

/-- Where a process goes when it calls `exit`: to the handler, once that is installed. -/
def Pc.exit : Pc → Option Pc
  | .openServer | .msgget => some .exited
  | .register | .fork | .talk | .receive => some .onExit
  | .notForked | .onExit | .rmid | .exited => none

/-- A client: its processes, its queue, and the messages that its receiver has shown. -/
structure Client where
  pc : Proc → Pc
  clientId : CInt
  shown : List TaskMsg

namespace Client

/-- Before the client is started. -/
def initial : Client where
  pc
    | .main => .openServer
    | .child => .notForked
  clientId := 0
  shown := []

def setPc (cl : Client) (p : Proc) (pc : Pc) : Client :=
  { cl with pc := Function.update cl.pc p pc }

end Client

/-- What a client does next. -/
inductive ClientLabel where
  | openServer
  | msgget (clientId : CInt)
  | register
  | fork
  | talk (typed : Typed)
  | receive
  | exit (p : Proc)
  | onExit (p : Proc) (stack : CharArray CLIENT_NAME_LEN) (sent : Bool)
  | rmid (p : Proc)

/-- One step of a client with the name `name`, while the server's queue is `serverId` and the file
with that number is there or not. -/
def Client.step (serverId : CInt) (name : Name) (serverUp : Bool) (q : Queues) (cl : Client) :
    ClientLabel → Option (Queues × Client)
  | .openServer =>
    if cl.pc .main = .openServer ∧ serverUp = true then some (q, cl.setPc .main .msgget) else none
  | .msgget clientId =>
    if cl.pc .main = .msgget then
      (q.msgget clientId).map fun q => (q, { cl.setPc .main .register with clientId := clientId })
    else none
  | .register =>
    if cl.pc .main = .register then
      (q.msgsnd serverId (.register (registerMsg cl.clientId name))).map fun q =>
        (q, cl.setPc .main .fork)
    else none
  | .fork =>
    if cl.pc .main = .fork then some (q, (cl.setPc .main .talk).setPc .child .receive) else none
  | .talk typed =>
    if cl.pc .main = .talk then
      (q.msgsnd serverId (.talk (talkMsg typed))).map fun q => (q, cl)
    else none
  | .receive =>
    if cl.pc .child = .receive then
      (q.msgrcv ServerMsg.mtype serverId MTYPE_TALK).bind fun r =>
        match r.1 with
        | .talk recv => some (r.2, { cl with shown := cl.shown ++ [recv] })
        | _ => none
    else none
  | .exit p => (cl.pc p).exit.map fun pc => (q, cl.setPc p pc)
  | .onExit p stack sent =>
    if cl.pc p = .onExit then
      if sent then
        (q.msgsnd serverId (.delete ⟨cl.clientId, stack⟩)).map fun q => (q, cl.setPc p .rmid)
      else some (q, cl.setPc p .rmid)
    else none
  | .rmid p =>
    if cl.pc p = .rmid then some (q.rmid cl.clientId, cl.setPc p .exited) else none

/-- What a client sends to the server, at one of its three calls of `msgsnd`. -/
def Client.message (cl : Client) (name : Name) : ClientLabel → Option ServerMsg
  | .register => some (.register (registerMsg cl.clientId name))
  | .talk typed => some (.talk (talkMsg typed))
  | .onExit _ stack true => some (.delete ⟨cl.clientId, stack⟩)
  | _ => none

/-- Everything a step of a client can do to the queues and to what the client has shown. -/
inductive Client.Effect (serverId : CInt) (name : Name) (q : Queues) (cl : Client)
    (l : ClientLabel) (q' : Queues) (cl' : Client) : Prop
  /-- Neither changes. -/
  | keeps : q' = q → cl'.shown = cl.shown → Effect serverId name q cl l q' cl'
  /-- The client's queue is created. -/
  | creates {clientId : CInt} : q.msgget clientId = some q' → cl'.shown = cl.shown →
      Effect serverId name q cl l q' cl'
  /-- A message is sent to the server. -/
  | sends {m : ServerMsg} : cl.message name l = some m → q.msgsnd serverId m = some q' →
      cl'.shown = cl.shown → Effect serverId name q cl l q' cl'
  /-- A message is taken from the server's queue and shown. -/
  | shows {recv : TaskMsg} :
      q.msgrcv ServerMsg.mtype serverId MTYPE_TALK = some (.talk recv, q') →
      cl'.shown = cl.shown ++ [recv] → Effect serverId name q cl l q' cl'
  /-- The client's queue is removed. -/
  | removes : q' = q.rmid cl.clientId → cl'.shown = cl.shown → Effect serverId name q cl l q' cl'

theorem Client.effect_of_step {serverId : CInt} {name : Name} {serverUp : Bool} {q q' : Queues}
    {cl cl' : Client} {l : ClientLabel} (h : cl.step serverId name serverUp q l = some (q', cl')) :
    Client.Effect serverId name q cl l q' cl' := by
  cases l with
  | openServer | fork =>
    obtain ⟨-, heq⟩ := Option.ite_none_right_eq_some.mp h
    cases heq
    exact .keeps rfl rfl
  | msgget clientId =>
    obtain ⟨-, hmap⟩ := Option.ite_none_right_eq_some.mp h
    obtain ⟨q₁, hget, heq⟩ := Option.map_eq_some_iff.mp hmap
    cases heq
    exact .creates hget rfl
  | register | talk typed =>
    obtain ⟨-, hmap⟩ := Option.ite_none_right_eq_some.mp h
    obtain ⟨q₁, hsnd, heq⟩ := Option.map_eq_some_iff.mp hmap
    cases heq
    exact .sends rfl hsnd rfl
  | receive =>
    obtain ⟨-, hbind⟩ := Option.ite_none_right_eq_some.mp h
    obtain ⟨⟨m, q₁⟩, hrcv, hm⟩ := Option.bind_eq_some_iff.mp hbind
    rcases m with reg | recv | reg <;> cases hm
    exact .shows hrcv rfl
  | exit p =>
    obtain ⟨pc, -, heq⟩ := Option.map_eq_some_iff.mp h
    cases heq
    exact .keeps rfl rfl
  | onExit p stack sent =>
    obtain ⟨-, hsent⟩ := Option.ite_none_right_eq_some.mp h
    cases sent with
    | true =>
      obtain ⟨q₁, hsnd, heq⟩ := Option.map_eq_some_iff.mp hsent
      cases heq
      exact .sends rfl hsnd rfl
    | false =>
      cases hsent
      exact .keeps rfl rfl
  | rmid p =>
    obtain ⟨-, heq⟩ := Option.ite_none_right_eq_some.mp h
    cases heq
    exact .removes rfl rfl

/-! ## The server -/

/-- What the server sends on after a message; `sent` says whether its `msgsnd` succeeds. -/
def Server.forward (s : Server) (mem : Behind) (sent : Bool) (q : Queues) :
    ServerMsg → Option Queues
  | .talk recv =>
    match s.route mem recv with
    | some clientId => if sent then q.msgsnd clientId (.talk recv) else some q
    | none => some q
  | _ => some q

/-- One round of the server's loop.  When it exits, `onExit` removes its queue. -/
def Server.serve (serverId : CInt) (s : Server) (mem : Behind) (sent : Bool) (q : Queues) :
    Option (Queues × Option Server) :=
  (q.msgrcv ServerMsg.mtype serverId 0).bind fun r =>
    match s.handle r.1 with
    | some s' => (s.forward mem sent r.2 r.1).map fun q => (q, some s')
    | none => some (r.2.rmid serverId, none)

/-- What is sent on is the message that was received. -/
theorem Server.forward_eq_some {s : Server} {mem : Behind} {sent : Bool} {q q' : Queues}
    {m : ServerMsg} (h : s.forward mem sent q m = some q') :
    q' = q ∨ ∃ clientId, q.msgsnd clientId m = some q' := by
  rcases m with reg | recv | reg
  · exact Or.inl (Option.some.inj h).symm
  · unfold forward at h
    dsimp only at h
    generalize s.route mem recv = target at h
    rcases target with _ | clientId
    · exact Or.inl (Option.some.inj h).symm
    · rcases sent with _ | _
      · exact Or.inl (Option.some.inj h).symm
      · exact Or.inr ⟨clientId, h⟩
  · exact Or.inl (Option.some.inj h).symm

/-! ## The system -/

/-- The identifier of the server's queue and the names the clients are started with. -/
structure Config (ι : Type*) where
  serverId : CInt
  name : ι → Name

/-- The queues, the server unless it has exited, and the clients. -/
structure State (ι : Type*) where
  queues : Queues
  server : Option Server
  client : ι → Client

/-- Whose step it is. -/
inductive Label (ι : Type*) where
  | client (c : ι) (l : ClientLabel)
  | serve (mem : Behind) (sent : Bool)
  | serverExit

variable {ι : Type*}

/-- When the server has entered its loop and no client has been started. -/
def State.initial (cfg : Config ι) : State ι where
  queues := Function.update (fun _ => none) cfg.serverId (some [])
  server := some Server.initial
  client _ := Client.initial

theorem queues_initial_self (cfg : Config ι) :
    (State.initial cfg).queues cfg.serverId = some [] := by
  simp [State.initial]

theorem queues_initial_of_ne {cfg : Config ι} {id : CInt} (h : id ≠ cfg.serverId) :
    (State.initial cfg).queues id = none := by
  simp [State.initial, h]

variable [DecidableEq ι]

/-- One step of the system. -/
def step (cfg : Config ι) (s : State ι) : Label ι → Option (State ι)
  | .client c l =>
    ((s.client c).step cfg.serverId (cfg.name c) s.server.isSome s.queues l).map fun r =>
      { s with queues := r.1, client := Function.update s.client c r.2 }
  | .serve mem sent =>
    s.server.bind fun server => (server.serve cfg.serverId mem sent s.queues).map fun r =>
      { s with queues := r.1, server := r.2 }
  | .serverExit =>
    s.server.map fun _ => { s with queues := s.queues.rmid cfg.serverId, server := none }

/-- The talk system. -/
def machine (cfg : Config ι) : Machine (State ι) (Label ι) where
  init s := s = State.initial cfg
  step := step cfg

/-! ## What a step changes -/

variable {cfg : Config ι} {s s' : State ι}

theorem step_client {c : ι} {l : ClientLabel} (h : step cfg s (.client c l) = some s') :
    ∃ q cl, (s.client c).step cfg.serverId (cfg.name c) s.server.isSome s.queues l = some (q, cl) ∧
      s' = ⟨q, s.server, Function.update s.client c cl⟩ := by
  obtain ⟨⟨q, cl⟩, hstep, rfl⟩ := Option.map_eq_some_iff.mp h
  exact ⟨q, cl, hstep, rfl⟩

/-- A round of the server: a message is taken, handled, and sent on; or the server exits because it
has no slot for a new client. -/
theorem step_serve {mem : Behind} {sent : Bool} (h : step cfg s (.serve mem sent) = some s') :
    ∃ server m q, s.server = some server ∧
      s.queues.msgrcv ServerMsg.mtype cfg.serverId 0 = some (m, q) ∧
      ((∃ server' q', server.handle m = some server' ∧ server.forward mem sent q m = some q' ∧
          s' = ⟨q', some server', s.client⟩) ∨
        server.handle m = none ∧ s' = ⟨q.rmid cfg.serverId, none, s.client⟩) := by
  obtain ⟨server, hserver, hmap⟩ := Option.bind_eq_some_iff.mp h
  obtain ⟨r, hserve, rfl⟩ := Option.map_eq_some_iff.mp hmap
  obtain ⟨⟨m, q⟩, hrcv, hm⟩ := Option.bind_eq_some_iff.mp hserve
  refine ⟨server, m, q, hserver, hrcv, ?_⟩
  cases hhandle : server.handle m with
  | some server' =>
    rw [hhandle] at hm
    obtain ⟨q', hforward, rfl⟩ := Option.map_eq_some_iff.mp hm
    exact Or.inl ⟨server', q', rfl, hforward, rfl⟩
  | none =>
    rw [hhandle] at hm
    rw [← Option.some.inj hm]
    exact Or.inr ⟨rfl, rfl⟩

theorem step_serverExit (h : step cfg s .serverExit = some s') :
    s' = ⟨s.queues.rmid cfg.serverId, none, s.client⟩ := by
  obtain ⟨-, -, rfl⟩ := Option.map_eq_some_iff.mp h
  rfl

end Talk
end CodeStrudy
