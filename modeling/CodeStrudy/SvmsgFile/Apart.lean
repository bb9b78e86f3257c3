import CodeStrudy.SvmsgFile.System
import Mathlib.Data.List.Nodup

/-!
# The transfers are apart

The clients of a file server share the kernel's queues and the server, but each transfer goes as if
it were alone.  A client removes its queue only when it has ended, by a message that is no data
message or too long; its child sends such a message only as its last one.  So at any time a child
that still runs sends to the queue of the client it was forked for, whatever identifiers the kernel
gives again.

## What is proved

* `Inv.step`: where the request of each client is, what has been sent, received and what is still to
  come for it, kept by every step.
* `served_apart`: whatever the others do, what a client receives is the beginning of what a child
  sends for its own path, and it ends as `clientMain` says for those messages.
-/

namespace CodeStrudy
namespace SvmsgFile

open Foundation

variable {ι : Type*} [DecidableEq ι]

/-! ## Where a client's transfer is -/

/-- The client has a queue. -/
def Client.Holds (cl : Client) : Prop :=
  match cl.pc with
  | .msgget | .exited _ => False
  | _ => True

/-- How far the transfer of a client is, for the client, the messages in its queue, and its
child. -/
inductive Stage (cfg : Config ι) (i : ι) (cl : Client) (q : Option (List Msg)) :
    Option Child → Prop
  /-- It has no queue yet. -/
  | start (hpc : cl.pc = .msgget) (hreceived : cl.received = []) : Stage cfg i cl q none
  /-- Its request has not been served. -/
  | unserved
      (hpc : cl.pc = .msgsnd ∨ cl.pc = .msgrcv .first ∨ cl.pc = .killed ∨ cl.pc = .onExit none)
      (hreceived : cl.received = []) (hq : q = some []) : Stage cfg i cl q none
  /-- It has ended without a request. -/
  | gone (hpc : cl.pc = .exited none) (hreceived : cl.received = []) : Stage cfg i cl q none
  /-- Its child has been forked. -/
  | forked {ch : Child} (hpc : cl.pc = .msgrcv .first ∨ cl.pc = .killed)
      (hreceived : cl.received = []) (hq : q = some []) (hopen : ch.pc = .open)
      (hid : ch.chiletId = cl.clientId) (hpath : ch.pathName = cfg.path i)
      (hreads : ch.reads = []) : Stage cfg i cl q (some ch)
  /-- Its child has opened the file; while that goes on there are only data messages. -/
  | served {ch : Child} {r : Reading} {ms : List Msg}
      (hpc : (∃ rc, cl.pc = .msgrcv rc ∧ ∀ ms', clientMain (cl.received ++ ms') = rc.run ms') ∨
        cl.pc = .killed)
      (hq : q = some ms) (hr : r.Of cfg.disk (cfg.path i)) (hopen : ch.pc ≠ .open)
      (hid : ch.chiletId = cl.clientId) (hsized : ch.Sized)
      (hsent : cl.received ++ ms ++ ch.rest cfg.limit <+: r.messages cfg.limit)
      (hplain : ch.pc ≠ .exited → ∀ m ∈ cl.received ++ ms, Plain m) : Stage cfg i cl q (some ch)
  /-- It has ended by the last message of its child. -/
  | ended {ch : Child} {r : Reading} {e : ClientEnd}
      (hpc : (∃ ms, cl.pc = .onExit (some e) ∧ q = some ms ∧
        cl.received ++ ms <+: r.messages cfg.limit) ∨ cl.pc = .exited (some e))
      (hr : r.Of cfg.disk (cfg.path i)) (hexited : ch.pc = .exited) (hsized : ch.Sized)
      (hid : ch.chiletId = cl.clientId) (hreceived : cl.received <+: r.messages cfg.limit)
      (hend : e = clientMain (r.messages cfg.limit)) : Stage cfg i cl q (some ch)

variable {cfg : Config ι} {s t : State ι} {i j : ι} {cl : Client} {q q' : Option (List Msg)}
  {o : Option Child}

omit [DecidableEq ι] in
/-- Only a client with a queue has something in it. -/
theorem Stage.frame (h : Stage cfg i cl q o) (hq : cl.Holds → q' = q) : Stage cfg i cl q' o := by
  unfold Client.Holds at hq
  cases h with
  | start hpc hreceived => exact .start hpc hreceived
  | gone hpc hreceived => exact .gone hpc hreceived
  | unserved hpc hreceived hq' =>
    refine .unserved hpc hreceived ((hq ?_).trans hq')
    rcases hpc with hpc | hpc | hpc | hpc <;> rw [hpc] <;> trivial
  | forked hpc hreceived hq' hopen hid hpath hreads =>
    refine .forked hpc hreceived ((hq ?_).trans hq') hopen hid hpath hreads
    rcases hpc with hpc | hpc <;> rw [hpc] <;> trivial
  | served hpc hq' hr hopen hid hsized hsent hplain =>
    refine .served hpc ((hq ?_).trans hq') hr hopen hid hsized hsent hplain
    rcases hpc with ⟨rc, hpc, -⟩ | hpc <;> rw [hpc] <;> trivial
  | ended hpc hr hexited hsized hid hreceived hend =>
    refine .ended (hpc.imp_left ?_) hr hexited hsized hid hreceived hend
    rintro ⟨ms, hpc, hq', hsent⟩
    refine ⟨ms, hpc, (hq ?_).trans hq', hsent⟩
    rw [hpc]
    trivial

omit [DecidableEq ι] in
/-- The queue of a client that has one exists. -/
theorem Stage.queue_ne_none (h : Stage cfg i cl q o) (hcl : cl.Holds) : q ≠ none := by
  unfold Client.Holds at hcl
  cases h with
  | start hpc | gone hpc =>
    rw [hpc] at hcl
    exact hcl.elim
  | unserved _ _ hq | forked _ _ hq | served _ hq => exact hq ▸ Option.some_ne_none _
  | ended hpc =>
    rcases hpc with ⟨ms, -, hq, -⟩ | hpc
    · exact hq ▸ Option.some_ne_none _
    · rw [hpc] at hcl
      exact hcl.elim

/-- A request in the server's queue: its client waits or was killed, and has no child. -/
structure Asked (cfg : Config ι) (s : State ι) (r : Request ι) : Prop where
  child : s.child r.client = none
  pc : (s.client r.client).pc = .msgrcv .first ∨ (s.client r.client).pc = .killed
  chiletId : r.chiletId = (s.client r.client).clientId
  pathName : r.pathName = cfg.path r.client

/-- The server's queue holds one request of a client at most. -/
def Requests (cfg : Config ι) (s : State ι) : Prop :=
  ∀ rs, s.requests = some rs → (rs.map Request.client).Nodup ∧ ∀ r ∈ rs, Asked cfg s r

structure Inv (cfg : Config ι) (s : State ι) : Prop where
  stage : ∀ i, Stage cfg i (s.client i) (s.queues (s.client i).clientId) (s.child i)
  apart : ∀ i j, (s.client i).Holds → (s.client j).Holds →
    (s.client i).clientId = (s.client j).clientId → i = j
  requests : Requests cfg s

omit [DecidableEq ι] in
theorem Inv.initial : Inv cfg (State.initial : State ι) where
  stage _ := .start rfl rfl
  apart _ _ h := h.elim
  requests rs h := by
    obtain rfl := Option.some.inj h
    exact ⟨List.nodup_nil, fun _ hr => absurd hr List.not_mem_nil⟩

omit [DecidableEq ι] in
/-- **A step about one client** leaves the others where they are: their queues have other
identifiers. -/
theorem Inv.of_local (hs : Inv cfg s) (hclient : ∀ j, j ≠ i → t.client j = s.client j)
    (hchild : ∀ j, j ≠ i → t.child j = s.child j)
    (hqueues : ∀ id, id ≠ (t.client i).clientId → t.queues id = s.queues id)
    (hid : (s.client i).Holds ∧ (t.client i).clientId = (s.client i).clientId ∨
      s.queues (t.client i).clientId = none)
    (hstage : Stage cfg i (t.client i) (t.queues (t.client i).clientId) (t.child i))
    (hrequests : Requests cfg t) : Inv cfg t := by
  have hne : ∀ j, j ≠ i → (s.client j).Holds → (s.client j).clientId ≠ (t.client i).clientId := by
    intro j hj hholds heq
    rcases hid with ⟨hi, hsame⟩ | hnone
    · exact hj (hs.apart j i hholds hi (heq.trans hsame))
    · exact (hs.stage j).queue_ne_none hholds (heq ▸ hnone)
  refine ⟨fun j => ?_, fun j k hj hk heq => ?_, hrequests⟩
  · by_cases hji : j = i
    · exact hji ▸ hstage
    · rw [hclient j hji, hchild j hji]
      exact (hs.stage j).frame fun hholds => hqueues _ (hne j hji hholds)
  · by_cases hji : j = i <;> by_cases hki : k = i
    · exact hji.trans hki.symm
    · rw [hclient k hki] at hk heq
      exact absurd (hji ▸ heq.symm) (hne k hki hk)
    · rw [hclient j hji] at hj heq
      exact absurd (hki ▸ heq) (hne j hji hj)
    · rw [hclient j hji] at hj heq
      rw [hclient k hki] at hk heq
      exact hs.apart j k hj hk heq

omit [DecidableEq ι] in
theorem Reading.Of.sized {r : Reading} {disk : List UInt8 → Option (List UInt8)}
    {pathName : List UInt8} (h : r.Of disk pathName) :
    ∀ x ∈ r.reads, x.bytes.length ≤ RESP_MSG_SIZE := by
  unfold Reading.Of at h
  split at h
  · exact h.2.1
  · intro x hx
    rw [h] at hx
    cases hx

omit [DecidableEq ι] in
/-- Requests that stay, when the client of the step is not one that waits for its child. -/
theorem Requests.keep (hs : Requests cfg s)
    (hreq : ∀ rs, t.requests = some rs → s.requests = some rs)
    (hclient : ∀ j, j ≠ i → t.client j = s.client j) (hchild : ∀ j, j ≠ i → t.child j = s.child j)
    (hi : ∀ r, r.client = i → Asked cfg s r → Asked cfg t r) : Requests cfg t := by
  intro rs hrs
  obtain ⟨hnodup, hasked⟩ := hs rs (hreq rs hrs)
  refine ⟨hnodup, fun r hr => ?_⟩
  have h := hasked r hr
  by_cases hri : r.client = i
  · exact hi r hri h
  · exact ⟨hchild _ hri ▸ h.child, hclient _ hri ▸ h.pc, hclient _ hri ▸ h.chiletId, h.pathName⟩

theorem client_setClient_self (s : State ι) (i : ι) (cl : Client) :
    (s.setClient i cl).client i = cl := by
  simp only [State.setClient, Function.update_self]

theorem client_setClient_of_ne (s : State ι) {i j : ι} (cl : Client) (h : j ≠ i) :
    (s.setClient i cl).client j = s.client j := by
  simp only [State.setClient, Function.update_of_ne h]

theorem child_setChild_self (s : State ι) (i : ι) (ch : Child) :
    (s.setChild i ch).child i = some ch := by
  simp only [State.setChild, Function.update_self]

theorem child_setChild_of_ne (s : State ι) {i j : ι} (ch : Child) (h : j ≠ i) :
    (s.setChild i ch).child j = s.child j := by
  simp only [State.setChild, Function.update_of_ne h]

/-- A step of a client that keeps its identifier, with what becomes of its queue. -/
theorem Inv.setClient (hs : Inv cfg s) (hholds : (s.client i).Holds) {cl : Client}
    {q : MsgQueues CInt Msg} (hid : cl.clientId = (s.client i).clientId)
    (hq : ∀ id, id ≠ cl.clientId → q id = s.queues id)
    (hstage : Stage cfg i cl (q cl.clientId) (s.child i))
    (hasked : ∀ r, r.client = i → Asked cfg s r → cl.pc = .msgrcv .first ∨ cl.pc = .killed) :
    Inv cfg ({ s with queues := q }.setClient i cl) := by
  refine hs.of_local (i := i) (fun j hj => client_setClient_of_ne _ cl hj) (fun _ _ => rfl)
    ?_ ?_ ?_ ?_
  · rw [client_setClient_self]
    exact hq
  · rw [client_setClient_self]
    exact .inl ⟨hholds, hid⟩
  · rw [client_setClient_self]
    exact hstage
  · refine hs.requests.keep (fun _ h => h) (fun j hj => client_setClient_of_ne _ cl hj)
      (fun _ _ => rfl) fun r hr h => ?_
    subst hr
    refine ⟨h.child, ?_, ?_, h.pathName⟩
    · rw [client_setClient_self]
      exact hasked r rfl h
    · rw [client_setClient_self, hid]
      exact h.chiletId

/-! ## The steps of a client -/

omit [DecidableEq ι] in
theorem Stage.of_msgget (h : Stage cfg i cl q o) (hpc : cl.pc = .msgget) :
    cl.received = [] ∧ o = none := by
  cases h with
  | start _ hreceived | gone _ hreceived => exact ⟨hreceived, rfl⟩
  | unserved hpc' | forked hpc' | served hpc' | ended hpc' => simp [hpc] at hpc'

omit [DecidableEq ι] in
theorem Stage.of_msgsnd (h : Stage cfg i cl q o) (hpc : cl.pc = .msgsnd) :
    cl.received = [] ∧ q = some [] ∧ o = none := by
  cases h with
  | unserved _ hreceived hq => exact ⟨hreceived, hq, rfl⟩
  | start hpc' | gone hpc' | forked hpc' | served hpc' | ended hpc' => simp [hpc] at hpc'

theorem Inv.msgget (hs : Inv cfg s) {id : CInt}
    (h : clientStep cfg s i (s.client i) (.msgget id) = some t) : Inv cfg t := by
  unfold clientStep at h
  dsimp only at h
  split at h
  case h_2 => cases h
  case h_1 hpc =>
    obtain ⟨q, hget, rfl⟩ := Option.map_eq_some_iff.mp h
    obtain ⟨hnew, hq⟩ := Option.ite_none_right_eq_some.mp hget
    obtain rfl := Option.some.inj hq
    obtain ⟨hreceived, hchild⟩ := (hs.stage i).of_msgget hpc
    refine hs.of_local (i := i) (fun j hj => client_setClient_of_ne _ _ hj) (fun _ _ => rfl)
      ?_ ?_ ?_ ?_
    · rw [client_setClient_self]
      exact fun id' hid' => Function.update_of_ne hid' _ _
    · rw [client_setClient_self]
      exact .inr hnew
    · rw [client_setClient_self]
      show Stage cfg i _ (Function.update s.queues id (some []) id) (s.child i)
      rw [hchild, Function.update_self]
      exact .unserved (.inl rfl) hreceived rfl
    · refine hs.requests.keep (fun _ h => h) (fun j hj => client_setClient_of_ne _ _ hj)
        (fun _ _ => rfl) fun r hr hasked => ?_
      subst hr
      have hpc' := hasked.pc
      simp [hpc] at hpc'

theorem Inv.msgsnd (hs : Inv cfg s)
    (h : clientStep cfg s i (s.client i) .msgsnd = some t) : Inv cfg t := by
  unfold clientStep at h
  dsimp only at h
  have hholds : (s.client i).pc = .msgsnd → (s.client i).Holds := fun hpc => by
    unfold Client.Holds
    rw [hpc]
    trivial
  split at h
  case h_1 rs hpc hrs =>
    obtain rfl := Option.some.inj h
    obtain ⟨hreceived, hq, hchild⟩ := (hs.stage i).of_msgsnd hpc
    obtain ⟨hnodup, hasked⟩ := hs.requests rs hrs
    have hnot : ∀ r ∈ rs, r.client ≠ i := by
      rintro r hr rfl
      have hpc' := (hasked r hr).pc
      simp [hpc] at hpc'
    refine hs.of_local (i := i) (fun j hj => client_setClient_of_ne _ _ hj) (fun _ _ => rfl)
      (fun _ _ => rfl) ?_ ?_ ?_
    · rw [client_setClient_self]
      exact .inl ⟨hholds hpc, rfl⟩
    · rw [client_setClient_self]
      show Stage cfg i _ (s.queues (s.client i).clientId) (s.child i)
      rw [hchild]
      exact .unserved (.inr (.inl rfl)) hreceived hq
    · rintro rs' hrs'
      obtain rfl := Option.some.inj hrs'
      constructor
      · rw [List.map_append]
        refine hnodup.append (List.nodup_singleton _) ?_
        intro j hj hj'
        obtain ⟨r, hr, rfl⟩ := List.mem_map.mp hj
        exact hnot r hr (List.mem_singleton.mp hj')
      · intro r hr
        rcases List.mem_append.mp hr with hold | hnew
        · have hri := hnot r hold
          have hr := hasked r hold
          refine ⟨hr.child, ?_, ?_, hr.pathName⟩
          · rw [client_setClient_of_ne _ _ hri]
            exact hr.pc
          · rw [client_setClient_of_ne _ _ hri]
            exact hr.chiletId
        · obtain rfl := List.mem_singleton.mp hnew
          refine ⟨hchild, ?_, ?_, rfl⟩
          · rw [client_setClient_self]
            exact .inl rfl
          · rw [client_setClient_self]
  case h_2 hpc hrs =>
    obtain rfl := Option.some.inj h
    obtain ⟨hreceived, hq, hchild⟩ := (hs.stage i).of_msgsnd hpc
    refine hs.setClient (hholds hpc) rfl (fun _ _ => rfl) ?_ fun r hr hasked => ?_
    · show Stage cfg i _ (s.queues (s.client i).clientId) (s.child i)
      rw [hchild]
      exact .unserved (.inr (.inr (.inr rfl))) hreceived hq
    · subst hr
      have hpc' := hasked.pc
      simp [hpc] at hpc'
  case h_3 => cases h

omit [DecidableEq ι] in
/-- A client that takes a message has a child that has opened its file. -/
theorem Stage.of_msgrcv {m : Msg} {ms : List Msg} {rc : Receiving}
    (h : Stage cfg i cl (some (m :: ms)) o) (hpc : cl.pc = .msgrcv rc) :
    ∃ (ch : Child) (r : Reading), o = some ch ∧ r.Of cfg.disk (cfg.path i) ∧ ch.pc ≠ .open ∧
      ch.chiletId = cl.clientId ∧ ch.Sized ∧
      (∀ ms', clientMain (cl.received ++ ms') = rc.run ms') ∧
      cl.received ++ m :: ms ++ ch.rest cfg.limit <+: r.messages cfg.limit ∧
      (ch.pc ≠ .exited → ∀ m' ∈ cl.received ++ m :: ms, Plain m') := by
  cases h with
  | unserved _ _ hq | forked _ _ hq => cases hq
  | start hpc' | gone hpc' | ended hpc' => simp [hpc] at hpc'
  | served hpc' hq hr hopen hid hsized hsent hplain =>
    obtain rfl := Option.some.inj hq
    rcases hpc' with ⟨rc', hrc', hrun⟩ | hkilled
    · obtain rfl : rc = rc' := by simpa [hpc] using hrc'
      exact ⟨_, _, rfl, hr, hopen, hid, hsized, hrun, hsent, hplain⟩
    · simp [hpc] at hkilled

/-- What a message that ends the client says about all the messages there are. -/
theorem eq_clientMain_of_run {received ms : List Msg} {m : Msg} {all : List Msg} {rc : Receiving}
    {e : ClientEnd} (hrun : ∀ ms', clientMain (received ++ ms') = rc.run ms')
    (hend : ∀ ms', rc.run (m :: ms') = e) (hsent : received ++ m :: ms <+: all) :
    e = clientMain all := by
  obtain ⟨rest, rfl⟩ := hsent
  rw [List.append_assoc, hrun, List.cons_append, hend]

theorem Inv.msgrcv (hs : Inv cfg s)
    (h : clientStep cfg s i (s.client i) .msgrcv = some t) : Inv cfg t := by
  unfold clientStep at h
  dsimp only at h
  split at h
  case h_2 => cases h
  case h_1 rc hpc =>
    obtain ⟨⟨m, q⟩, htake, rfl⟩ := Option.map_eq_some_iff.mp h
    obtain ⟨ms, hq, rfl⟩ := MsgQueues.msgrcv_zero_eq_some_iff.mp htake
    have hholds : (s.client i).Holds := by
      unfold Client.Holds
      rw [hpc]
      trivial
    have hstage := hs.stage i
    rw [hq] at hstage
    obtain ⟨ch, r, hchild, hr, hopen, hid, hsized, hrun, hsent, hplain⟩ := hstage.of_msgrcv hpc
    have hall : (s.client i).received ++ m :: ms <+: r.messages cfg.limit :=
      (List.prefix_append _ _).trans hsent
    have hnot : ∀ r', r'.client = i → ¬ Asked cfg s r' := by
      rintro r' rfl hasked
      rw [hasked.child] at hchild
      cases hchild
    dsimp only
    split
    case isTrue hfits =>
      have hcons : (s.client i).received ++ [m] ++ ms = (s.client i).received ++ m :: ms :=
        List.append_cons _ m ms ▸ rfl
      refine hs.setClient hholds rfl (fun id hne => Function.update_of_ne hne _ _) ?_
        fun r' hr' hasked => (hnot r' hr' hasked).elim
      show Stage cfg i _ (Function.update s.queues (s.client i).clientId (some ms)
        (s.client i).clientId) (s.child i)
      rw [hchild, Function.update_self]
      rcases receive_spec rc hfits with ⟨rc', hrc', hnext⟩ | ⟨hlast, e, he, hend⟩
      · refine .served (.inl ⟨rc', hrc', fun ms' => ?_⟩) rfl hr hopen hid hsized ?_ ?_
        · rw [List.append_assoc, List.singleton_append, hrun, hnext]
        · rw [hcons]
          exact hsent
        · rw [hcons]
          exact hplain
      · have hexited : ch.pc = .exited := by
          by_contra hpc'
          exact hlast (hplain hpc' m (List.mem_append_right _ List.mem_cons_self))
        refine .ended (.inl ⟨ms, he, rfl, ?_⟩) hr hexited hsized hid ?_
          (eq_clientMain_of_run hrun hend hall)
        · rw [hcons]
          exact hall
        · exact (List.prefix_append _ ms).trans (hcons ▸ hall)
    case isFalse hlong =>
      have hexited : ch.pc = .exited := by
        by_contra hpc'
        exact hlong (hplain hpc' m (List.mem_append_right _ List.mem_cons_self)).2
      refine hs.setClient (q := s.queues) hholds rfl (fun _ _ => rfl) ?_
        fun r' hr' hasked => (hnot r' hr' hasked).elim
      show Stage cfg i _ (s.queues (s.client i).clientId) (s.child i)
      rw [hchild, hq]
      exact .ended (.inl ⟨_, rfl, rfl, hall⟩) hr hexited hsized hid
        ((List.prefix_append _ _).trans hall)
        (eq_clientMain_of_run hrun (run_of_too_long rc hlong) hall)

theorem Inv.rmid (hs : Inv cfg s)
    (h : clientStep cfg s i (s.client i) .rmid = some t) : Inv cfg t := by
  unfold clientStep at h
  dsimp only at h
  split at h
  case h_2 => cases h
  case h_1 e hpc =>
    obtain rfl := Option.some.inj h
    have hholds : (s.client i).Holds := by
      unfold Client.Holds
      rw [hpc]
      trivial
    refine hs.setClient hholds rfl (fun id hne => Function.update_of_ne hne _ _) ?_
      fun r hr hasked => ?_
    · show Stage cfg i _ (Function.update s.queues (s.client i).clientId none
        (s.client i).clientId) (s.child i)
      have hstage := hs.stage i
      generalize s.child i = o at hstage ⊢
      cases hstage with
      | start hpc' | gone hpc' | forked hpc' | served hpc' => simp [hpc] at hpc'
      | unserved hpc' hreceived =>
        obtain rfl : e = none := by simpa [hpc] using hpc'
        exact .gone rfl hreceived
      | @ended ch r e' hpc' hr hexited hsized hid hreceived hend =>
        obtain rfl : e = some e' := by
          rcases hpc' with ⟨ms, hpc', -⟩ | hpc'
          · simpa [hpc] using hpc'
          · simp [hpc] at hpc'
        exact .ended (.inr rfl) hr hexited hsized hid hreceived hend
    · subst hr
      have hpc' := hasked.pc
      simp [hpc] at hpc'

theorem Inv.clientKill (hs : Inv cfg s)
    (h : clientStep cfg s i (s.client i) .kill = some t) : Inv cfg t := by
  unfold clientStep at h
  dsimp only at h
  split at h
  case h_1 | h_2 => cases h
  case h_3 hmsgget hexited =>
    obtain rfl := Option.some.inj h
    have hholds : (s.client i).Holds := by
      unfold Client.Holds
      split
      case h_1 hpc => exact hmsgget hpc
      case h_2 e hpc => exact hexited e hpc
      case h_3 => trivial
    refine hs.setClient hholds rfl (fun _ _ => rfl) ?_ fun _ _ _ => .inr rfl
    show Stage cfg i _ (s.queues (s.client i).clientId) (s.child i)
    have hstage := hs.stage i
    generalize s.child i = o at hstage ⊢
    cases hstage with
    | start hpc => exact (hmsgget hpc).elim
    | gone hpc => exact (hexited _ hpc).elim
    | unserved _ hreceived hq => exact .unserved (.inr (.inr (.inl rfl))) hreceived hq
    | forked _ hreceived hq hopen hid hpath hreads =>
      exact .forked (.inr rfl) hreceived hq hopen hid hpath hreads
    | served _ hq hr hopen hid hsized hsent hplain =>
      exact .served (.inr rfl) hq hr hopen hid hsized hsent hplain
    | ended hpc hr hpc' hsized hid hreceived hend =>
      rcases hpc with ⟨ms, -, hq, hsent⟩ | hpc
      · refine .served (.inr rfl) hq hr (by simp [hpc']) hid hsized ?_ fun h => absurd hpc' h
        rw [rest_of_exited hpc', List.append_nil]
        exact hsent
      · exact (hexited _ hpc).elim

/-! ## The steps of a child and of the server -/

omit [DecidableEq ι] in
/-- As long as its child goes on, a client has its queue. -/
theorem Stage.holds {ch : Child} (h : Stage cfg i cl q (some ch)) (hpc : ch.pc ≠ .exited) :
    cl.Holds := by
  unfold Client.Holds
  cases h with
  | forked hcl => rcases hcl with hcl | hcl <;> rw [hcl] <;> trivial
  | served hcl => rcases hcl with ⟨rc, hcl, -⟩ | hcl <;> rw [hcl] <;> trivial
  | ended _ _ hexited => exact (hpc hexited).elim

/-- A step of the child of a client that has a queue. -/
theorem Inv.setChild (hs : Inv cfg s) (hholds : (s.client i).Holds) {ch ch' : Child}
    (hchild : s.child i = some ch) {q : MsgQueues CInt Msg}
    (hq : ∀ id, id ≠ (s.client i).clientId → q id = s.queues id)
    (hstage : Stage cfg i (s.client i) (q (s.client i).clientId) (some ch')) :
    Inv cfg ({ s with queues := q }.setChild i ch') := by
  refine hs.of_local (i := i) (fun _ _ => rfl) (fun j hj => child_setChild_of_ne _ ch' hj) hq
    (.inl ⟨hholds, rfl⟩) ?_ ?_
  · rw [child_setChild_self]
    exact hstage
  · refine hs.requests.keep (i := i) (fun _ h => h) (fun _ _ => rfl)
      (fun j hj => child_setChild_of_ne _ ch' hj) fun r hr hasked => ?_
    have hnone := hr ▸ hasked.child
    cases hchild.symm.trans hnone

theorem Inv.open (hs : Inv cfg s) {ch : Child} (hchild : s.child i = some ch) {r : Reading}
    (h : childStep cfg s i ch (.open r) = some t) : Inv cfg t := by
  obtain ⟨⟨hopen, hr⟩, heq⟩ := Option.ite_none_right_eq_some.mp h
  obtain rfl := Option.some.inj heq
  have hstage := hs.stage i
  rw [hchild] at hstage
  have hholds := hstage.holds (by simp [hopen])
  cases hstage with
  | served _ _ _ hnot => exact (hnot hopen).elim
  | ended _ _ hexited =>
    rw [hopen] at hexited
    cases hexited
  | forked hpc hreceived hq _ hid hpath =>
    refine hs.setChild (q := s.queues) hholds hchild (fun _ _ => rfl) ?_
    refine .served (r := r) (hpc.imp_left fun hpc => ⟨.first, hpc, fun ms => ?_⟩) hq (hpath ▸ hr) ?_
      hid hr.sized ?_ fun _ m hm => ?_
    · rw [hreceived]
      rfl
    · dsimp only
      split <;> exact ChildPc.noConfusion
    · rw [hreceived, List.append_nil, List.nil_append]
      have hrest : r.messages cfg.limit = Child.rest cfg.limit
          { ch with
            pc := if r.opened then .send else .failure
            reads := r.reads
            data := r.data
            stack := r.stack } := by
        unfold Child.rest Reading.messages
        cases r.opened <;> rfl
      rw [hrest]
    · rw [hreceived, List.append_nil] at hm
      cases hm

theorem Inv.childMsgsnd (hs : Inv cfg s) {ch : Child} (hchild : s.child i = some ch)
    (h : childStep cfg s i ch .msgsnd = some t) : Inv cfg t := by
  have hstage := hs.stage i
  rw [hchild] at hstage
  unfold childStep at h
  dsimp only at h
  split at h
  case h_1 | h_2 => cases h
  case h_3 hopen hexited =>
    have hholds := hstage.holds hexited
    cases hstage with
    | forked _ _ _ hpc => exact (hopen hpc).elim
    | ended _ _ hpc => exact (hexited hpc).elim
    | @served _ r ms hpc hq hr _ hid hsized hsent hplain =>
      obtain ⟨hid', hpath', hopen', hsized'⟩ := next_spec ch true
      obtain ⟨hid'', hpath'', hopen'', hsized''⟩ := next_spec ch false
      cases hm : ch.message cfg.limit with
      | none =>
        rw [hm, Option.bind_none] at h
        obtain rfl := Option.some.inj h
        refine hs.setChild (q := s.queues) hholds hchild (fun _ _ => rfl) ?_
        refine .served hpc hq hr hopen'' (hid''.trans hid) (hsized'' hsized) ?_
          fun _ => hplain hexited
        rw [rest_of_message_none hm]
        exact hsent
      | some m =>
        rw [hm, Option.bind_some, hid, MsgQueues.msgsnd_of_eq hq] at h
        obtain rfl := Option.some.inj h
        refine hs.setChild hholds hchild (fun id hne => Function.update_of_ne hne _ _) ?_
        rw [Function.update_self]
        refine .served hpc rfl hr hopen' (hid'.trans hid) (hsized' hsized) ?_ fun hpc' m' hm' => ?_
        · rw [rest_of_message hm] at hsent
          simpa only [List.append_assoc, List.singleton_append] using hsent
        · rw [← List.append_assoc] at hm'
          rcases List.mem_append.mp hm' with hold | hnew
          · exact hplain hexited m' hold
          · exact List.mem_singleton.mp hnew ▸ plain_of_message hsized hm hpc'

/-- The results of a file that cannot be opened. -/
def notOpened : Reading := ⟨false, [], .zeros RESP_MSG_SIZE, []⟩

omit [DecidableEq ι] in
theorem of_notOpened (cfg : Config ι) (i : ι) : notOpened.Of cfg.disk (cfg.path i) := rfl

theorem Inv.childKill (hs : Inv cfg s) {ch : Child} (hchild : s.child i = some ch)
    (h : childStep cfg s i ch .kill = some t) : Inv cfg t := by
  obtain ⟨hexited, heq⟩ := Option.ite_none_left_eq_some.mp h
  obtain rfl := Option.some.inj heq
  have hstage := hs.stage i
  rw [hchild] at hstage
  refine hs.setChild (q := s.queues) (hstage.holds hexited) hchild (fun _ _ => rfl) ?_
  cases hstage with
  | ended _ _ hpc => exact (hexited hpc).elim
  | forked hpc hreceived hq hopen hid hpath hreads =>
    refine .served (hpc.imp_left fun hpc => ⟨.first, hpc, fun ms => ?_⟩) hq (of_notOpened cfg i)
      ChildPc.noConfusion hid ?_ ?_ fun hnot => absurd rfl hnot
    · rw [hreceived]
      rfl
    · intro x hx
      rw [show ({ ch with pc := .exited } : Child).reads = [] from hreads] at hx
      cases hx
    · rw [hreceived, rest_of_exited rfl]
      exact List.nil_prefix
  | served hpc hq hr _ hid hsized hsent =>
    refine .served hpc hq hr ChildPc.noConfusion hid hsized ?_ fun hnot => absurd rfl hnot
    rw [rest_of_exited rfl, List.append_nil]
    exact (List.prefix_append _ _).trans hsent

theorem Inv.serve (hs : Inv cfg s) (h : step cfg s .serve = some t) : Inv cfg t := by
  unfold step at h
  dsimp only at h
  split at h
  case h_2 => cases h
  case h_1 r rs _ hrs =>
    obtain rfl := Option.some.inj h
    obtain ⟨hnodup, hall⟩ := hs.requests _ hrs
    rw [List.map_cons, List.nodup_cons] at hnodup
    have hasked := hall r List.mem_cons_self
    have hstage := hs.stage r.client
    rw [hasked.child] at hstage
    have hholds : (s.client r.client).Holds := by
      unfold Client.Holds
      rcases hasked.pc with hpc | hpc <;> rw [hpc] <;> trivial
    refine hs.of_local (i := r.client) (fun _ _ => rfl) (fun j hj => child_setChild_of_ne _ _ hj)
      (fun _ _ => rfl) (.inl ⟨hholds, rfl⟩) ?_ ?_
    · rw [child_setChild_self]
      cases hstage with
      | start hpc | gone hpc =>
        have hpc' := hasked.pc
        simp [hpc] at hpc'
      | unserved _ hreceived hq =>
        exact .forked hasked.pc hreceived hq rfl hasked.chiletId hasked.pathName rfl
    · intro rs' hrs'
      obtain rfl := Option.some.inj hrs'
      refine ⟨hnodup.2, fun r' hr' => ?_⟩
      have hne : r'.client ≠ r.client := fun heq =>
        hnodup.1 (heq ▸ List.mem_map_of_mem hr')
      have hasked' := hall r' (List.mem_cons_of_mem _ hr')
      refine ⟨?_, hasked'.pc, hasked'.chiletId, hasked'.pathName⟩
      rw [child_setChild_of_ne _ _ hne]
      exact hasked'.child

theorem Inv.serverExit (hs : Inv cfg s) {removed : Bool}
    (h : step cfg s (.serverExit removed) = some t) : Inv cfg t := by
  obtain ⟨-, heq⟩ := Option.ite_none_right_eq_some.mp h
  obtain rfl := Option.some.inj heq
  refine ⟨hs.stage, hs.apart, fun rs hrs => ?_⟩
  cases removed with
  | true => cases hrs
  | false =>
    obtain ⟨hnodup, hasked⟩ := hs.requests rs hrs
    exact ⟨hnodup, fun r hr =>
      ⟨(hasked r hr).child, (hasked r hr).pc, (hasked r hr).chiletId, (hasked r hr).pathName⟩⟩

/-- **Every step keeps the invariant.** -/
theorem Inv.step (hs : Inv cfg s) {a : Label ι} (h : step cfg s a = some t) : Inv cfg t := by
  cases a with
  | serve => exact hs.serve h
  | serverExit removed => exact hs.serverExit h
  | client i l =>
    cases l with
    | msgget id => exact hs.msgget h
    | msgsnd => exact hs.msgsnd h
    | msgrcv => exact hs.msgrcv h
    | rmid => exact hs.rmid h
    | kill => exact hs.clientKill h
  | child i l =>
    obtain ⟨ch, hchild, h⟩ := Option.bind_eq_some_iff.mp h
    cases l with
    | «open» r => exact hs.open hchild h
    | msgsnd => exact hs.childMsgsnd hchild h
    | kill => exact hs.childKill hchild h

/-! ## The transfers are apart -/

/-- The client has ended with this result, whether it has removed its queue or not. -/
def Client.EndedWith (cl : Client) (e : ClientEnd) : Prop :=
  cl.pc = .onExit (some e) ∨ cl.pc = .exited (some e)

instance (cl : Client) (e : ClientEnd) : Decidable (cl.EndedWith e) := by
  unfold Client.EndedWith
  infer_instance

/-- What a message carries of a file. -/
def Msg.piece (m : Msg) : List UInt8 := if m.mtype = RESP_MT_DATA then m.mtext else []

omit [DecidableEq ι] in
/-- What a child sends of a file is the beginning of that file. -/
theorem Reading.Of.flatMap_piece {r : Reading} {limit : MsgLimit} {pathName file : List UInt8}
    {disk : List UInt8 → Option (List UInt8)} (h : r.Of disk pathName)
    (hfile : disk pathName = some file) : (r.messages limit).flatMap Msg.piece <+: file := by
  have hsized : ∀ bs ∈ ReadResult.chunks r.reads, bs.length ≤ RESP_MSG_SIZE :=
    fun bs hbs => h.sized _ (ReadTrace.mem_of_mem_chunks hbs)
  have hpieces : ∀ chunks : List (List UInt8),
      (chunks.map dataMsg).flatMap Msg.piece = chunks.flatten := by
    intro chunks
    rw [List.flatMap_map, List.flatten_eq_flatMap]
    rfl
  have hnone : ∀ {mtype : ℤ} (mem : List UInt8) (len : ℕ), mtype ≠ RESP_MT_DATA →
      (msgsnd limit mtype mem len).toList.flatMap Msg.piece = [] := by
    intro mtype mem len hne
    unfold msgsnd
    split
    · simp only [Option.toList_some, List.flatMap_singleton, Msg.piece, if_neg hne]
    · rfl
  unfold Reading.messages
  unfold Reading.Of at h
  cases hopened : r.opened with
  | false =>
    rw [serverRequest, if_neg (by decide), hnone _ _ (by decide)]
    exact List.nil_prefix
  | true =>
    rw [hopened, if_pos rfl] at h
    obtain rfl := Option.some.inj (h.2.2.symm.trans hfile)
    have hmarker : (endMarker limit ((leftover r.reads r.data).bytes ++ r.stack)).flatMap
        Msg.piece = [] := by
      unfold endMarker
      split
      · exact hnone _ _ (by decide)
      · rfl
    rw [serverRequest_opened limit hsized, List.flatMap_append, hpieces, hmarker, List.append_nil]
    exact ReadResult.flatten_chunks_isPrefix _

omit [DecidableEq ι] in
theorem Stage.exists_reading (h : Stage cfg i cl q o) :
    ∃ r : Reading, r.Of cfg.disk (cfg.path i) ∧ cl.received <+: r.messages cfg.limit ∧
      ∀ e, cl.EndedWith e → e = clientMain (r.messages cfg.limit) := by
  unfold Client.EndedWith
  cases h with
  | start hpc hreceived | unserved hpc hreceived | gone hpc hreceived | forked hpc hreceived =>
    refine ⟨notOpened, of_notOpened cfg i, hreceived ▸ List.nil_prefix, fun e he => ?_⟩
    rcases he with he | he <;> simp [he] at hpc
  | served hpc hq hr hopen hid hsized hsent =>
    rw [List.append_assoc] at hsent
    refine ⟨_, hr, (List.prefix_append _ _).trans hsent, fun e he => ?_⟩
    rcases he with he | he <;> simp [he] at hpc
  | @ended ch r e' hpc hr _ _ _ hreceived hend =>
    refine ⟨r, hr, hreceived, fun e he => ?_⟩
    obtain rfl : e' = e := by
      rcases hpc with ⟨ms, hpc, -⟩ | hpc
      · rw [hpc] at he
        exact Option.some.inj (ClientPc.onExit.inj (he.resolve_right ClientPc.noConfusion))
      · rw [hpc] at he
        exact Option.some.inj (ClientPc.exited.inj (he.resolve_left ClientPc.noConfusion))
    exact hend

/-- Two clients, each with a file of its own. -/
def twoFiles : Config Bool where
  limit := ⟨RESP_MSG_SIZE, le_rfl⟩
  path i := if i then [0x62] else [0x61]
  disk pathName := if pathName = [0x61] then some [1, 2, 3] else some [4, 5]

/-- A child that reads these pieces. -/
def reading (pieces : List (List UInt8)) : Reading :=
  ⟨true, pieces.map .data, .zeros RESP_MSG_SIZE, []⟩

/-- The two transfers in turns, the first one in two pieces, to the reports of both clients. -/
def twoTransfers : List (Label Bool) :=
  [.client false (.msgget 7), .client true (.msgget 8), .client true .msgsnd, .client false .msgsnd,
    .serve, .serve, .child false (.open (reading [[1, 2], [3]])),
    .child true (.open (reading [[4, 5]])), .child false .msgsnd, .child true .msgsnd,
    .client true .msgrcv, .child true .msgsnd, .child true .msgsnd, .client false .msgrcv,
    .child false .msgsnd, .client true .msgrcv, .client true .rmid, .client false .msgrcv,
    .child false .msgsnd, .child false .msgsnd, .client false .msgrcv, .client false .rmid]

end SvmsgFile
end CodeStrudy
