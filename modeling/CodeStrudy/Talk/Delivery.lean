import CodeStrudy.Talk.System

/-!
# Who sees a message

The server forwards a message to the queue of the client it is addressed to, but the receiver of a
client never reads that queue: its `msgrcv` is on the server's queue, where every message that any
client sends is first put.  So the receivers take messages from each other and from the server, and
which of them shows a message is a matter of who comes first.

`delivered_iff` says that this is all there is to it: for what the users may type, no run shows a
message at a client it is not addressed to exactly if every message they may type is addressed to
every client.  One direction is an invariant of the queues; for the other, `exists_shown` runs the
system to where a receiver takes what was just sent.
-/

namespace CodeStrudy
namespace Talk

open Foundation

variable {ι : Type*} {cfg : Config ι}

/-- The users type only what `types` allows each of them. -/
def Types (types : ι → Typed → Prop) (_ : State ι) : Label ι → Prop
  | .client c (.talk typed) => types c typed
  | _ => True

/-- What a client's receiver has shown was addressed to the name the client registered with. -/
def Delivered (cfg : Config ι) (s : State ι) : Prop :=
  ∀ c, ∀ recv ∈ (s.client c).shown, recv.targetName.str = (cfg.name c).chars

/-! ## Messages that are for everybody -/

/-- A message that every client may show. -/
def ForAll (cfg : Config ι) : ServerMsg → Prop
  | .talk recv => ∀ c, recv.targetName.str = (cfg.name c).chars
  | _ => True

/-- Every message in a queue and every message shown is for everybody. -/
structure AllForAll (cfg : Config ι) (s : State ι) : Prop where
  queues : MsgQueues.All (ForAll cfg) s.queues
  shown : ∀ c, ∀ recv ∈ (s.client c).shown, ForAll cfg (.talk recv)

/-- Only a message that the user types has a target. -/
theorem forAll_message {cl : Client} {name : Name} {l : ClientLabel} {m : ServerMsg}
    (htyped : ∀ typed, l = .talk typed → ForAll cfg (.talk (talkMsg typed)))
    (h : cl.message name l = some m) : ForAll cfg m := by
  unfold Client.message at h
  split at h
  · exact Option.some.inj h ▸ trivial
  · exact Option.some.inj h ▸ htyped _ rfl
  · exact Option.some.inj h ▸ trivial
  · cases h

/-- A client sends and shows messages for everybody, if the user types such messages. -/
theorem forAll_clientStep {serverId : CInt} {name : Name} {serverUp : Bool} {q q' : Queues}
    {cl cl' : Client} {l : ClientLabel} (hq : MsgQueues.All (ForAll cfg) q)
    (hshown : ∀ recv ∈ cl.shown, ForAll cfg (.talk recv))
    (htyped : ∀ typed, l = .talk typed → ForAll cfg (.talk (talkMsg typed)))
    (h : cl.step serverId name serverUp q l = some (q', cl')) :
    MsgQueues.All (ForAll cfg) q' ∧ ∀ recv ∈ cl'.shown, ForAll cfg (.talk recv) := by
  rcases Client.effect_of_step h with ⟨rfl, hs⟩ | ⟨hget, hs⟩ | ⟨hmsg, hsnd, hs⟩ | ⟨hrcv, hs⟩ |
    ⟨rfl, hs⟩
  · exact ⟨hq, hs ▸ hshown⟩
  · exact ⟨hq.msgget hget, hs ▸ hshown⟩
  · exact ⟨hq.msgsnd hsnd (forAll_message htyped hmsg), hs ▸ hshown⟩
  · obtain ⟨hforAll, hq'⟩ := hq.msgrcv hrcv
    refine ⟨hq', fun recv hrecv => ?_⟩
    rcases List.mem_append.mp (hs ▸ hrecv) with hold | hnew
    · exact hshown recv hold
    · exact List.mem_singleton.mp hnew ▸ hforAll
  · exact ⟨hq.rmid _, hs ▸ hshown⟩

/-- The server sends on what it received. -/
theorem forAll_forward {server : Server} {mem : Behind} {sent : Bool} {q q' : Queues}
    {m : ServerMsg} (hq : MsgQueues.All (ForAll cfg) q) (hm : ForAll cfg m)
    (h : server.forward mem sent q m = some q') : MsgQueues.All (ForAll cfg) q' := by
  rcases Server.forward_eq_some h with rfl | ⟨clientId, hsnd⟩
  · exact hq
  · exact hq.msgsnd hsnd hm

theorem allForAll_initial (cfg : Config ι) : AllForAll cfg (State.initial cfg) := by
  have hnone : MsgQueues.All (ForAll cfg) (fun _ : CInt => none) := by
    intro id ms h
    cases h
  exact ⟨hnone.update (fun _ hm => absurd hm List.not_mem_nil) _,
    fun _ _ hrecv => absurd hrecv List.not_mem_nil⟩

variable [DecidableEq ι]

theorem allForAll_step {types : ι → Typed → Prop}
    (htypes : ∀ c typed, types c typed → ForAll cfg (.talk (talkMsg typed))) {s t : State ι}
    {a : Label ι} (hs : AllForAll cfg s) (ha : Types types s a)
    (hst : (machine cfg).step s a = some t) : AllForAll cfg t := by
  rcases a with ⟨c, l⟩ | ⟨mem, sent⟩ | _
  · obtain ⟨q, cl, hstep, rfl⟩ := step_client hst
    have htyped : ∀ typed, l = .talk typed → ForAll cfg (.talk (talkMsg typed)) := by
      rintro typed rfl
      exact htypes c typed ha
    obtain ⟨hq, hshown⟩ := forAll_clientStep hs.queues (hs.shown c) htyped hstep
    refine ⟨hq, fun c' => ?_⟩
    by_cases hc : c' = c
    · subst hc
      simpa only [Function.update_self] using hshown
    · simpa only [Function.update_of_ne hc] using hs.shown c'
  · obtain ⟨server, m, q, -, hrcv, hout⟩ := step_serve hst
    obtain ⟨hm, hq⟩ := hs.queues.msgrcv hrcv
    rcases hout with ⟨server', q', -, hforward, rfl⟩ | ⟨-, rfl⟩
    · exact ⟨forAll_forward hq hm hforward, hs.shown⟩
    · exact ⟨hq.rmid _, hs.shown⟩
  · rw [step_serverExit hst]
    exact ⟨hs.queues.rmid _, hs.shown⟩

/-! ## A receiver that comes first -/

section

variable {serverId : CInt} {name : Name} {up : Bool} {q q' : Queues} {cl : Client}

theorem Client.step_msgget {clientId : CInt} (hpc : cl.pc .main = .msgget)
    (hget : q.msgget clientId = some q') : cl.step serverId name up q (.msgget clientId) =
      some (q', { cl.setPc .main .register with clientId := clientId }) := by
  simp only [Client.step, if_pos hpc, hget, Option.map_some]

theorem Client.step_register (hpc : cl.pc .main = .register)
    (hsnd : q.msgsnd serverId (.register (registerMsg cl.clientId name)) = some q') :
    cl.step serverId name up q .register = some (q', cl.setPc .main .fork) := by
  simp only [Client.step, if_pos hpc, hsnd, Option.map_some]

theorem Client.step_fork (hpc : cl.pc .main = .fork) : cl.step serverId name up q .fork =
    some (q, (cl.setPc .main .talk).setPc .child .receive) := by
  simp only [Client.step, if_pos hpc]

theorem Client.step_talk {typed : Typed} (hpc : cl.pc .main = .talk)
    (hsnd : q.msgsnd serverId (.talk (talkMsg typed)) = some q') :
    cl.step serverId name up q (.talk typed) = some (q', cl) := by
  simp only [Client.step, if_pos hpc, hsnd, Option.map_some]

theorem Client.step_receive {recv : TaskMsg} (hpc : cl.pc .child = .receive)
    (hrcv : q.msgrcv ServerMsg.mtype serverId MTYPE_TALK = some (.talk recv, q')) :
    cl.step serverId name up q .receive = some (q', { cl with shown := cl.shown ++ [recv] }) := by
  simp only [Client.step, if_pos hpc, hrcv, Option.bind_some]

end

section

variable {types : ι → Typed → Prop} {s : State ι} {q q' : Queues} {c : ι} {cl cl' : Client}

/-- A client moves in a state that is reached. -/
theorem reach_client (l : ClientLabel) (h : (machine cfg).ReachableUnder (Types types) s)
    (hl : Types types s (.client c l))
    (hstep : (s.client c).step cfg.serverId (cfg.name c) s.server.isSome s.queues l =
      some (q', cl')) :
    (machine cfg).ReachableUnder (Types types) ⟨q', s.server, Function.update s.client c cl'⟩ :=
  h.step hl (congrArg (Option.map _) hstep)

/-- The same client moves again. -/
theorem reach_client_again (l : ClientLabel)
    (h : (machine cfg).ReachableUnder (Types types)
      ⟨q, s.server, Function.update s.client c cl⟩)
    (hl : Types types ⟨q, s.server, Function.update s.client c cl⟩ (.client c l))
    (hstep : cl.step cfg.serverId (cfg.name c) s.server.isSome q l = some (q', cl')) :
    (machine cfg).ReachableUnder (Types types) ⟨q', s.server, Function.update s.client c cl'⟩ := by
  have hself : Function.update s.client c cl c = cl := Function.update_self _ _ _
  have hnext := reach_client l h hl (hself.symm ▸ hstep)
  rwa [Function.update_idem] at hnext

/-- A client starts, with a new queue, while the server is running. -/
theorem exists_joined {ms : List ServerMsg} {clientId : CInt}
    (h : (machine cfg).ReachableUnder (Types types) s) (hup : s.server.isSome = true)
    (hc : s.client c = Client.initial) (hq : s.queues cfg.serverId = some ms)
    (hid : s.queues clientId = none) :
    ∃ t, (machine cfg).ReachableUnder (Types types) t ∧ t.server = s.server ∧
      t.queues = Function.update (Function.update s.queues clientId (some [])) cfg.serverId
        (some (ms ++ [.register (registerMsg clientId (cfg.name c))])) ∧
      (t.client c).pc .main = .talk ∧ (t.client c).pc .child = .receive ∧
      ∀ c' ≠ c, t.client c' = s.client c' := by
  have hne : cfg.serverId ≠ clientId := by
    rintro rfl
    rw [hq] at hid
    cases hid
  have hget : s.queues.msgget clientId = some (Function.update s.queues clientId (some [])) :=
    if_pos hid
  have hq' : Function.update s.queues clientId (some []) cfg.serverId = some ms := by
    rw [Function.update_of_ne hne, hq]
  have hsnd := MsgQueues.msgsnd_of_eq hq' (.register (registerMsg clientId (cfg.name c)))
  have h₁ := reach_client (c := c) .openServer h trivial (by rw [hc]; exact if_pos ⟨rfl, hup⟩)
  have h₂ := reach_client_again (.msgget clientId) h₁ trivial (Client.step_msgget rfl hget)
  have h₃ := reach_client_again .register h₂ trivial (Client.step_register rfl hsnd)
  have h₄ := reach_client_again .fork h₃ trivial (Client.step_fork rfl)
  refine ⟨_, h₄, rfl, rfl, ?_, ?_, fun c' hc' => Function.update_of_ne hc' _ _⟩
  · show (Function.update s.client c _ c).pc .main = .talk
    rw [Function.update_self]
    rfl
  · show (Function.update s.client c _ c).pc .child = .receive
    rw [Function.update_self]
    rfl

end

/-- Two clients, or one, have registered, and no message is waiting. -/
theorem exists_both_joined (cfg : Config ι) (types : ι → Typed → Prop) (c c' : ι) :
    ∃ s ms, (machine cfg).ReachableUnder (Types types) s ∧ s.queues cfg.serverId = some ms ∧
      (∀ m ∈ ms, MsgQueues.wanted ServerMsg.mtype MTYPE_TALK m = false) ∧
      (s.client c).pc .main = .talk ∧ (s.client c').pc .child = .receive := by
  have hone : cfg.serverId + 1 ≠ cfg.serverId := by bv_omega
  have htwo : cfg.serverId + 2 ≠ cfg.serverId := by bv_omega
  have hdiff : cfg.serverId + 2 ≠ cfg.serverId + 1 := by bv_omega
  have hinit : (machine cfg).ReachableUnder (Types types) (State.initial cfg) := .init rfl
  obtain ⟨s, hs, hserver, hq, hmain, hchild, hothers⟩ := exists_joined (c := c) hinit rfl rfl
    (queues_initial_self cfg) (queues_initial_of_ne hone)
  have hqs : s.queues cfg.serverId =
      some [.register (registerMsg (cfg.serverId + 1) (cfg.name c))] := by
    rw [hq, Function.update_self]
    rfl
  by_cases hc : c' = c
  · subst hc
    exact ⟨s, _, hs, hqs, by simp [MsgQueues.wanted, ServerMsg.mtype, MTYPE_TALK, MTYPE_REGISTER],
      hmain, hchild⟩
  · have hfree : s.queues (cfg.serverId + 2) = none := by
      rw [hq, Function.update_of_ne htwo, Function.update_of_ne hdiff, queues_initial_of_ne htwo]
    obtain ⟨t, ht, -, hqt, -, hchild', hothers'⟩ := exists_joined (c := c') hs
      (by rw [hserver]; rfl) (hothers c' hc) hqs hfree
    refine ⟨t, _, ht, by rw [hqt, Function.update_self], ?_, ?_, hchild'⟩
    · simp [MsgQueues.wanted, ServerMsg.mtype, MTYPE_TALK, MTYPE_REGISTER]
    · rw [hothers' c (Ne.symm hc)]
      exact hmain

/-- A message one client sends is shown by any client whose receiver comes first. -/
theorem exists_shown (cfg : Config ι) (types : ι → Typed → Prop) {c : ι} {typed : Typed}
    (htyped : types c typed) (c' : ι) :
    ∃ s, (machine cfg).ReachableUnder (Types types) s ∧ talkMsg typed ∈ (s.client c').shown := by
  obtain ⟨s, ms, hs, hq, hms, hmain, hchild⟩ := exists_both_joined cfg types c c'
  have hsent := reach_client (.talk typed) hs htyped
    (Client.step_talk hmain (MsgQueues.msgsnd_of_eq hq _))
  rw [Function.update_eq_self] at hsent
  -- the message that was sent is the only one of its type in the queue
  have hrcv := MsgQueues.msgrcv_of_last
    (Function.update_self cfg.serverId (some (ms ++ [.talk (talkMsg typed)])) s.queues) hms rfl
  have hshown := reach_client .receive hsent trivial (Client.step_receive hchild hrcv)
  refine ⟨_, hshown, ?_⟩
  show talkMsg typed ∈ (Function.update s.client c' _ c').shown
  rw [Function.update_self]
  exact List.mem_append_right _ List.mem_cons_self

/-- **When every message is shown only where it is addressed to.**  For all names and for what the
users may type: in every run of the server and the clients, in every order of their steps, a client
shows only messages whose target name is the name it registered with, if and only if every message
that may be typed has the name of every client. -/
theorem delivered_iff (cfg : Config ι) (types : ι → Typed → Prop) :
    (∀ s, (machine cfg).ReachableUnder (Types types) s → Delivered cfg s) ↔
      ∀ c typed, types c typed →
        ∀ c', (talkMsg typed).targetName.str = (cfg.name c').chars := by
  constructor
  · intro h c typed htyped c'
    obtain ⟨s, hs, hshown⟩ := exists_shown cfg types htyped c'
    exact h s hs c' _ hshown
  · intro htypes s hs c recv hrecv
    have hall : AllForAll cfg s := by
      refine hs.invariant ?_ fun s a t hI ha hst => allForAll_step htypes hI ha hst
      rintro s rfl
      exact allForAll_initial cfg
    exact hall.shown c recv hrecv c

/-- A client named `a` and one named `b`: what `a` sends to itself is shown by `b`. -/
theorem not_delivered_to_target :
    ¬ ∀ (cfg : Config Bool) (s : State Bool), (machine cfg).Reachable s → Delivered cfg s := by
  intro h
  let cfg : Config Bool := ⟨7, fun c => if c then ⟨⟨[98], by decide⟩, by decide⟩
    else ⟨⟨[97], by decide⟩, by decide⟩⟩
  let types (c : Bool) (typed : Typed) : Prop := c = false ∧ typed = .words [97] [104]
  have htyped : types false (.words [97] [104]) := ⟨rfl, rfl⟩
  obtain ⟨s, hs, hshown⟩ := exists_shown cfg types htyped true
  exact absurd (h cfg s hs.reachable true _ hshown) (by decide)

end Talk
end CodeStrudy
