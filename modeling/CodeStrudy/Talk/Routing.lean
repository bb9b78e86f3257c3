import CodeStrudy.Foundation.Machine
import CodeStrudy.Talk.Server
import Mathlib.Data.Set.Insert

/-!
# Where the talk server forwards a message

What the server's table is for is a set of registered clients, each with the identifier of its
queue and its name: registering adds a client, deleting takes out what has the identifier.  The
machine of this file runs the server on any sequence of the two messages, next to that set.

`Represents` connects the two.  It speaks of the identifiers other than zero only, because the table
uses zero for a free slot although `msgget` may return it; and it says nothing about the names in
free slots, because the loop that looks for a name does not care whether a slot is free.  What that
costs is in `RoutingOk`, and `routes_iff` says that it is all.  `routes_of_ordinary` is what is left
for names that are neither empty nor 48 bytes long.
-/

namespace CodeStrudy
namespace Talk

open Foundation

/-! ## Registered clients -/

/-- A registered client. -/
structure Member where
  clientId : CInt
  clientName : List UInt8

/-- The messages that change who is registered.  In the second one the client leaves its name
uninitialised. -/
inductive Notice where
  | register (clientId : CInt) (name : Name)
  | delete (clientId : CInt) (stack : CharArray CLIENT_NAME_LEN)

/-- The message in the server's queue. -/
def Notice.msg : Notice → ServerMsg
  | .register clientId name => .register (registerMsg clientId name)
  | .delete clientId stack => .delete ⟨clientId, stack⟩

/-- Who is registered after a message. -/
def membersAfter (r : Set Member) : Notice → Set Member
  | .register clientId name => insert ⟨clientId, name.chars⟩ r
  | .delete clientId _ => {m ∈ r | m.clientId ≠ clientId}

/-- The server and the registered clients, as the messages come in. -/
def registration : Machine (Server × Set Member) Notice where
  init s := s = (Server.initial, ∅)
  step s n := (s.1.handle n.msg).map fun t => (t, membersAfter s.2 n)

/-- No two queues that exist at a time have one identifier: a client that registers has none that
a registered client has. -/
def Fresh (s : Server × Set Member) : Notice → Prop
  | .register clientId _ => ∀ m ∈ s.2, m.clientId ≠ clientId
  | .delete _ _ => True

/-- What the server should do with a message for `name`; `target` is the queue it forwards the
message to, if it does. -/
structure Routes (r : Set Member) (name : List UInt8) (target : Option CInt) : Prop where
  /-- The message is forwarded exactly if a client of this name is registered. -/
  forwarded_iff : (∃ clientId, target = some clientId) ↔ ∃ m ∈ r, m.clientName = name
  /-- It goes to the queue of a client of this name. -/
  to_client : ∀ clientId, target = some clientId → ⟨clientId, name⟩ ∈ r

/-! ## What the table says about the registered clients -/

/-- The slots in use are the registered clients whose identifier is not zero. -/
structure Represents (slots : List ClientInfo) (r : Set Member) : Prop where
  /-- A client is registered exactly if a slot has its identifier and its name. -/
  mem_iff : ∀ m : Member, m.clientId ≠ 0 →
    (m ∈ r ↔ ∃ ci ∈ slots, ci.clientId = m.clientId ∧ ci.clientName.str = m.clientName)
  /-- No two slots have one identifier. -/
  unique : slots.Pairwise fun a b => a.clientId ≠ 0 → a.clientId ≠ b.clientId

namespace Represents

variable {slots others : List ClientInfo} {r : Set Member} {ci : ClientInfo}

/-- The order of the slots does not matter. -/
theorem perm (h : slots.Perm others) : Represents slots r ↔ Represents others r := by
  have hsymm : ∀ {a b : ClientInfo}, (a.clientId ≠ 0 → a.clientId ≠ b.clientId) →
      b.clientId ≠ 0 → b.clientId ≠ a.clientId := by
    intro a b hab hb heq
    exact hab (heq ▸ hb) heq.symm
  constructor
  · intro hr
    refine ⟨fun m hm => ?_, (h.pairwise_iff hsymm).mp hr.unique⟩
    simpa only [h.mem_iff] using hr.mem_iff m hm
  · intro hr
    refine ⟨fun m hm => ?_, (h.pairwise_iff hsymm).mpr hr.unique⟩
    simpa only [h.mem_iff] using hr.mem_iff m hm

/-- Free slots do not matter. -/
theorem cons_free (hci : ci.clientId = 0) :
    Represents (ci :: others) r ↔ Represents others r := by
  have hmem : ∀ m : Member, m.clientId ≠ 0 →
      ((∃ c ∈ ci :: others, c.clientId = m.clientId ∧ c.clientName.str = m.clientName) ↔
        ∃ c ∈ others, c.clientId = m.clientId ∧ c.clientName.str = m.clientName) := by
    intro m hm
    rw [List.exists_mem_cons_iff]
    exact or_iff_right fun h => hm (h.1.symm.trans hci)
  constructor
  · intro hr
    exact ⟨fun m hm => (hr.mem_iff m hm).trans (hmem m hm), hr.unique.of_cons⟩
  · intro hr
    exact ⟨fun m hm => (hr.mem_iff m hm).trans (hmem m hm).symm,
      hr.unique.cons fun _ _ hne => absurd hci hne⟩

/-- A slot is filled for a client that registers. -/
theorem cons_insert (hr : Represents others r) (hfresh : ∀ m ∈ r, m.clientId ≠ ci.clientId) :
    Represents (ci :: others) (insert ⟨ci.clientId, ci.clientName.str⟩ r) := by
  constructor
  · intro m hm
    rw [Set.mem_insert_iff, List.exists_mem_cons_iff, hr.mem_iff m hm]
    refine or_congr_left ⟨?_, ?_⟩
    · rintro rfl
      exact ⟨rfl, rfl⟩
    · rintro ⟨hid, hname⟩
      obtain ⟨clientId, clientName⟩ := m
      exact congrArg₂ Member.mk hid.symm hname.symm
  · refine hr.unique.cons fun c hc hne heq => ?_
    -- the slot would be that of a registered client
    have hmem : (⟨c.clientId, c.clientName.str⟩ : Member) ∈ r :=
      (hr.mem_iff _ (heq ▸ hne)).mpr ⟨c, hc, rfl, rfl⟩
    exact hfresh _ hmem heq.symm

/-- The slot of a client is given back. -/
theorem of_cons (hr : Represents (ci :: others) r) :
    Represents others {m ∈ r | m.clientId ≠ ci.clientId} := by
  refine ⟨fun m hm => ?_, hr.unique.of_cons⟩
  rw [Set.mem_sep_iff, hr.mem_iff m hm, List.exists_mem_cons_iff]
  constructor
  · rintro ⟨⟨hid, -⟩ | h, hne⟩
    · exact absurd hid.symm hne
    · exact h
  · rintro ⟨c, hc, hid, hname⟩
    refine ⟨Or.inr ⟨c, hc, hid, hname⟩, fun heq => ?_⟩
    exact (List.pairwise_cons.mp hr.unique).1 c hc (heq ▸ hm) (heq.symm.trans hid.symm)

/-- A client is deleted that no slot has. -/
theorem sep_of_forall_ne (hr : Represents slots r) {clientId : CInt}
    (hne : ∀ c ∈ slots, c.clientId ≠ clientId) :
    Represents slots {m ∈ r | m.clientId ≠ clientId} := by
  refine ⟨fun m hm => ?_, hr.unique⟩
  rw [Set.mem_sep_iff, hr.mem_iff m hm]
  refine and_iff_left_of_imp ?_
  rintro ⟨c, hc, hid, -⟩
  exact hid ▸ hne c hc

end Represents

theorem represents_initial : Represents Server.initial.pCi.slots ∅ := by
  constructor
  · intro m hm
    refine iff_of_false (Set.notMem_empty m) ?_
    rintro ⟨ci, hci, hid, -⟩
    rw [List.eq_of_mem_replicate hci] at hid
    exact hm hid.symm
  · refine List.pairwise_replicate.mpr (Or.inr fun hne => ?_)
    exact absurd rfl hne

/-- One message keeps the table in step with who is registered. -/
theorem represents_step {s t : Server × Set Member} {n : Notice}
    (hr : Represents s.1.pCi.slots s.2) (hfresh : Fresh s n)
    (hst : registration.step s n = some t) : Represents t.1.pCi.slots t.2 := by
  obtain ⟨server, hhandle, rfl⟩ := Option.map_eq_some_iff.mp hst
  rcases n with ⟨clientId, name⟩ | ⟨clientId, stack⟩
  · obtain ⟨-, ci, others, hs, hfree, hs'⟩ := Server.register_eq_some hhandle
    have hothers := (Represents.cons_free hfree).mp ((Represents.perm hs).mp hr)
    have hname : (CharArray.strncpy CLIENT_NAME_LEN
        (registerMsg clientId name).clientName.bytes).str = name.chars := by
      rw [CharArray.str_strncpy_bytes, str_registerMsg]
    refine (Represents.perm hs').mpr ?_
    show Represents _ (insert ⟨clientId, name.chars⟩ s.2)
    rw [← hname]
    exact hothers.cons_insert hfresh
  · rw [← Option.some.inj hhandle]
    rcases s.1.slots_delete ⟨clientId, stack⟩ with ⟨hs, hnone⟩ | ⟨ci, name, others, hs, hid, -, hs'⟩
    · show Represents (s.1.delete ⟨clientId, stack⟩).pCi.slots _
      rw [hs]
      exact hr.sep_of_forall_ne hnone
    · have hothers := ((Represents.perm hs).mp hr).of_cons
      rw [hid] at hothers
      exact (Represents.perm hs').mpr ((Represents.cons_free rfl).mpr hothers)

/-- The table is in step with who is registered after any sequence of messages. -/
theorem represents_of_reachable {s : Server × Set Member}
    (h : registration.ReachableUnder Fresh s) : Represents s.1.pCi.slots s.2 := by
  refine h.invariant ?_ fun s n t hr hfresh hst => represents_step hr hfresh hst
  rintro s rfl
  exact represents_initial

/-! ## When a message goes where it should -/

/-- What keeps the server from going wrong with a message, given who is registered: what it finds
in free slots, and a target name that fills its array. -/
structure RoutingOk (s : Server) (r : Set Member) (mem : Behind) (recv : TaskMsg) : Prop where
  /-- The first slot with the name is not a free one, unless that is because the client's
  identifier is zero. -/
  not_free : ∀ i ci, s.pCi.slots[i]? = some ci → ci.clientId = 0 →
    s.nameMatches mem recv i = true → (∀ j < i, s.nameMatches mem recv j = false) →
      ⟨0, recv.targetName.str⟩ ∈ r
  /-- A client whose identifier is zero has not lost its slot to another one. -/
  not_lost : ⟨0, recv.targetName.str⟩ ∈ r →
    ∃ ci ∈ s.pCi.slots, ci.clientName.str = recv.targetName.str
  /-- If the name of a registered client fills its array, the memory behind such a slot and behind
  the target name holds the same string. -/
  fits : recv.targetName.str.length = CLIENT_NAME_LEN →
    (∃ m ∈ r, m.clientName = recv.targetName.str) →
      ∃ i ci, s.pCi.slots[i]? = some ci ∧ ci.clientName.str = recv.targetName.str ∧
        strcmpEq (s.pCi.memBehind mem.pCi i) (recv.msg.bytes ++ mem.recvBuf) = true

section

variable {s : Server} {r : Set Member} {mem : Behind} {recv : TaskMsg}

theorem routingOk_of_routes (hroutes : Routes r recv.targetName.str (s.route mem recv)) :
    RoutingOk s r mem recv := by
  -- a slot is found if the name is registered
  have hfound : (∃ m ∈ r, m.clientName = recv.targetName.str) →
      ∃ i ci, s.pCi.slots[i]? = some ci ∧ s.nameMatches mem recv i = true := by
    intro hreg
    obtain ⟨clientId, hroute⟩ := hroutes.forwarded_iff.mpr hreg
    obtain ⟨i, ci, hci, -, hmatch, -⟩ := Server.route_eq_some_iff.mp hroute
    exact ⟨i, ci, hci, hmatch⟩
  constructor
  · intro i ci hci hfree hmatch hfirst
    exact hroutes.to_client 0 (Server.route_eq_some_iff.mpr ⟨i, ci, hci, hfree, hmatch, hfirst⟩)
  · intro hzero
    obtain ⟨i, ci, hci, hmatch⟩ := hfound ⟨_, hzero, rfl⟩
    exact ⟨ci, List.mem_of_getElem? hci, ((Server.nameMatches_iff hci).mp hmatch).1⟩
  · intro hfull hreg
    obtain ⟨i, ci, hci, hmatch⟩ := hfound hreg
    obtain ⟨hname, hbehind⟩ := (Server.nameMatches_iff hci).mp hmatch
    exact ⟨i, ci, hci, hname, hbehind hfull⟩

/-- The slot that the loop finds for the name of a registered client. -/
theorem exists_nameMatches (hr : Represents s.pCi.slots r) (hok : RoutingOk s r mem recv)
    {m : Member} (hm : m ∈ r) (hname : m.clientName = recv.targetName.str) :
    ∃ i ci, s.pCi.slots[i]? = some ci ∧ s.nameMatches mem recv i = true := by
  by_cases hfull : recv.targetName.str.length = CLIENT_NAME_LEN
  · obtain ⟨i, ci, hci, hstr, hbehind⟩ := hok.fits hfull ⟨m, hm, hname⟩
    exact ⟨i, ci, hci, (Server.nameMatches_iff hci).mpr ⟨hstr, fun _ => hbehind⟩⟩
  · have hslot : ∃ ci ∈ s.pCi.slots, ci.clientName.str = recv.targetName.str := by
      by_cases hzero : m.clientId = 0
      · have hm' : (⟨0, recv.targetName.str⟩ : Member) ∈ r := by
          rw [← hzero, ← hname]
          exact hm
        exact hok.not_lost hm'
      · obtain ⟨ci, hci, -, hstr⟩ := (hr.mem_iff m hzero).mp hm
        exact ⟨ci, hci, hstr.trans hname⟩
    obtain ⟨ci, hmem, hstr⟩ := hslot
    obtain ⟨i, hci⟩ := List.mem_iff_getElem?.mp hmem
    exact ⟨i, ci, hci, (Server.nameMatches_iff hci).mpr ⟨hstr, fun h => absurd h hfull⟩⟩

theorem routes_of_routingOk (hr : Represents s.pCi.slots r) (hok : RoutingOk s r mem recv) :
    Routes r recv.targetName.str (s.route mem recv) := by
  have hto : ∀ clientId, s.route mem recv = some clientId →
      (⟨clientId, recv.targetName.str⟩ : Member) ∈ r := by
    intro clientId hroute
    obtain ⟨i, ci, hci, rfl, hmatch, hfirst⟩ := Server.route_eq_some_iff.mp hroute
    by_cases hfree : ci.clientId = 0
    · rw [hfree]
      exact hok.not_free i ci hci hfree hmatch hfirst
    · have hname := ((Server.nameMatches_iff hci).mp hmatch).1
      exact (hr.mem_iff _ hfree).mpr ⟨ci, List.mem_of_getElem? hci, rfl, hname⟩
  refine ⟨⟨?_, ?_⟩, hto⟩
  · rintro ⟨clientId, hroute⟩
    exact ⟨_, hto clientId hroute, rfl⟩
  · rintro ⟨m, hm, hname⟩
    obtain ⟨i, ci, hci, hmatch⟩ := exists_nameMatches hr hok hm hname
    refine Option.ne_none_iff_exists'.mp fun hnone => ?_
    exact Bool.false_ne_true ((Server.route_eq_none hnone hci).symm.trans hmatch)

end

/-- **When the server forwards a message as it should.**  After every sequence of registering and
deleting, whatever is in memory behind the table and the message: the message is forwarded exactly
if a client with its target name is registered, and then to the queue of one, if and only if the
server is not misled by a free slot and by a name without a zero byte. -/
theorem routes_iff {s : Server × Set Member} (h : registration.ReachableUnder Fresh s)
    (mem : Behind) (recv : TaskMsg) :
    Routes s.2 recv.targetName.str (s.1.route mem recv) ↔ RoutingOk s.1 s.2 mem recv :=
  ⟨routingOk_of_routes, routes_of_routingOk (represents_of_reachable h)⟩

/-- One client is registered, as `a` with the queue 1, and a message for `a` goes there. -/
theorem routes_one_client :
    ∃ s, registration.ReachableUnder Fresh s ∧
      s.1.route ⟨[], []⟩ (talkMsg (.words [97] [104])) = some 1 ∧
      RoutingOk s.1 s.2 ⟨[], []⟩ (talkMsg (.words [97] [104])) := by
  let name : Name := ⟨⟨[97], by decide⟩, by decide⟩
  obtain ⟨s, hst, hslot, hmem⟩ : ∃ s, registration.step (Server.initial, ∅) (.register 1 name) =
      some s ∧ s.1.pCi.slots[0]? = some ⟨1, CharArray.strncpy CLIENT_NAME_LEN
        (registerMsg 1 name).clientName.bytes⟩ ∧ s.2 = {⟨1, [97]⟩} :=
    ⟨_, rfl, rfl, insert_empty_eq _⟩
  have hfresh : Fresh (Server.initial, ∅) (.register 1 name) := fun m hm =>
    absurd hm (Set.notMem_empty m)
  have hreach : registration.ReachableUnder Fresh s := .step (.init rfl) hfresh hst
  have hmatch : s.1.nameMatches ⟨[], []⟩ (talkMsg (.words [97] [104])) 0 = true :=
    (Server.nameMatches_iff hslot).mpr ⟨by decide, fun h => absurd h (by decide)⟩
  have hroute : s.1.route ⟨[], []⟩ (talkMsg (.words [97] [104])) = some 1 :=
    Server.route_eq_some_iff.mpr ⟨0, _, hslot, rfl, hmatch, fun j hj => absurd hj (by omega)⟩
  have hmember : (⟨1, [97]⟩ : Member) ∈ s.2 := by
    rw [hmem]
    rfl
  refine ⟨s, hreach, hroute, (routes_iff hreach _ _).mp ⟨?_, fun clientId h => ?_⟩⟩
  · exact iff_of_true ⟨1, hroute⟩ ⟨_, hmember, by decide⟩
  · rw [← Option.some.inj (hroute.symm.trans h)]
    exact hmember

/-- Nobody is registered, and a message without a target name, from a client at the end of its
input, is forwarded all the same: to the first slot, which was never used. -/
theorem not_routes :
    ¬ ∀ s, registration.ReachableUnder Fresh s → ∀ (mem : Behind) (recv : TaskMsg),
      Routes s.2 recv.targetName.str (s.1.route mem recv) := by
  intro h
  have hroutes := h _ (.init rfl) ⟨[], []⟩ (talkMsg .eof)
  have hslot : Server.initial.pCi.slots[0]? = some ⟨0, CharArray.zeros _⟩ := rfl
  have hmatch : Server.initial.nameMatches ⟨[], []⟩ (talkMsg .eof) 0 = true :=
    (Server.nameMatches_iff hslot).mpr ⟨rfl, fun h => absurd h (by decide)⟩
  exact hroutes.to_client 0
    (Server.route_eq_some_iff.mpr ⟨0, _, hslot, rfl, hmatch, fun j hj => absurd hj (by omega)⟩)

/-! ## Ordinary names

With identifiers other than zero, a free slot has no name, so only a message without a target name
finds it. -/

/-- A client registers with an identifier that does not mark a free slot. -/
def Ordinary (s : Server × Set Member) (n : Notice) : Prop :=
  Fresh s n ∧ ∀ clientId name, n = .register clientId name → clientId ≠ 0

/-- Free slots have no name, and no registered client has the identifier of a free slot. -/
structure FreeSlotsEmpty (s : Server × Set Member) : Prop where
  name : ∀ ci ∈ s.1.pCi.slots, ci.clientId = 0 → ci.clientName.str = []
  member : ∀ m ∈ s.2, m.clientId ≠ 0

theorem freeSlotsEmpty_initial : FreeSlotsEmpty (Server.initial, ∅) := by
  refine ⟨fun ci hci _ => ?_, fun m hm => absurd hm (Set.notMem_empty m)⟩
  rw [List.eq_of_mem_replicate hci]
  rfl

theorem freeSlotsEmpty_step {s t : Server × Set Member} {n : Notice} (hs : FreeSlotsEmpty s)
    (hn : Ordinary s n) (hst : registration.step s n = some t) : FreeSlotsEmpty t := by
  obtain ⟨server, hhandle, rfl⟩ := Option.map_eq_some_iff.mp hst
  rcases n with ⟨clientId, name⟩ | ⟨clientId, stack⟩
  · have hid := hn.2 clientId name rfl
    obtain ⟨-, ci, others, hslots, -, hslots'⟩ := Server.register_eq_some hhandle
    constructor
    · intro c hc hfree
      rcases List.mem_cons.mp (hslots'.mem_iff.mp hc) with rfl | hother
      · exact absurd hfree hid
      · exact hs.name c (hslots.mem_iff.mpr (List.mem_cons_of_mem _ hother)) hfree
    · intro m hm
      rcases Set.mem_insert_iff.mp hm with rfl | hold
      · exact hid
      · exact hs.member m hold
  · refine ⟨fun c hc hfree => ?_, fun m hm => hs.member m hm.1⟩
    rw [← Option.some.inj hhandle] at hc
    rcases s.1.slots_delete ⟨clientId, stack⟩ with ⟨hslots, -⟩ |
      ⟨ci, name, others, hslots, -, hname, hslots'⟩
    · exact hs.name c (hslots ▸ hc) hfree
    · rcases List.mem_cons.mp (hslots'.mem_iff.mp hc) with rfl | hother
      · exact hname
      · exact hs.name c (hslots.mem_iff.mpr (List.mem_cons_of_mem _ hother)) hfree

/-- **Ordinary names are routed right.**  If no client has the identifier zero, a message whose
target name is neither empty nor as long as its array goes where it should. -/
theorem routes_of_ordinary {s : Server × Set Member} (h : registration.ReachableUnder Ordinary s)
    (mem : Behind) {recv : TaskMsg} (hne : recv.targetName.str ≠ [])
    (hshort : recv.targetName.str.length < CLIENT_NAME_LEN) :
    Routes s.2 recv.targetName.str (s.1.route mem recv) := by
  have hrep := represents_of_reachable (h.mono fun _ _ hn => hn.1)
  have hempty : FreeSlotsEmpty s := by
    refine h.invariant ?_ fun s n t hs hn hst => freeSlotsEmpty_step hs hn hst
    rintro s rfl
    exact freeSlotsEmpty_initial
  refine routes_of_routingOk hrep ⟨?_, ?_, ?_⟩
  · intro i ci hci hfree hmatch _
    have hstr := ((Server.nameMatches_iff hci).mp hmatch).1
    exact absurd (hstr.symm.trans (hempty.name ci (List.mem_of_getElem? hci) hfree)) hne
  · intro hzero
    exact absurd rfl (hempty.member _ hzero)
  · intro hfull
    exact absurd hfull (ne_of_lt hshort)

end Talk
end CodeStrudy
