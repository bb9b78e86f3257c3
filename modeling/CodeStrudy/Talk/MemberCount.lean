import CodeStrudy.Talk.System

/-!
# The number of clients the server counts

The server adds one to `clientCount` when it receives an `MTYPE_REGISTER` message and takes one off
when it receives an `MTYPE_DELETE` message, before it looks at the table.  So the counter is the
number of slots in use only as long as the table follows each message: every client that registers
has an identifier other than zero, and every deleted one is there to be deleted.
`counted_throughout_iff` says that over whole runs of the system.

The clients do not keep to it: both processes of a client run the exit handler, so the server
receives two `MTYPE_DELETE` messages for one registration.
-/

namespace CodeStrudy
namespace Talk

open Foundation

/-- The table follows a message in the way the counter does. -/
def Server.Expects (s : Server) : ServerMsg → Prop
  | .register reg => reg.clientId ≠ 0 ∨ ∀ ci ∈ s.pCi.slots, ci.clientId ≠ 0
  | .delete reg => reg.clientId ≠ 0 ∧ ∃ ci ∈ s.pCi.slots, ci.clientId = reg.clientId
  | .talk _ => True

namespace Server

variable {s s' : Server} {reg : RegisterMsg} {m : ServerMsg}

/-- Adding one and taking one off does not overflow while the counter is the number of slots in
use. -/
theorem toInt_clientCount (hs : s.clientCount.toInt = s.pCi.members) :
    (s.clientCount + 1).toInt = s.pCi.members + 1 ∧
      (s.clientCount - 1).toInt = s.pCi.members - 1 := by
  have hle : s.pCi.members ≤ 1024 := s.pCi.members_le
  have hone : (1 : CInt).toInt = 1 := rfl
  rw [BitVec.toInt_add, BitVec.toInt_sub, hs, hone, Int.bmod, Int.bmod]
  constructor <;> split <;> omega

theorem counted_register (hs : s.clientCount.toInt = s.pCi.members)
    (h : s.register reg = some s') :
    s'.clientCount.toInt = s'.pCi.members ↔ s.Expects (.register reg) := by
  obtain ⟨hcount, ci, others, hslots, hfree, hslots'⟩ := register_eq_some h
  have hmembers := Table.members_of_perm hslots
  rw [if_pos hfree] at hmembers
  have hnotFull : ¬ ∀ ci ∈ s.pCi.slots, ci.clientId ≠ 0 := fun hfull =>
    hfull ci (hslots.mem_iff.mpr List.mem_cons_self) hfree
  show _ ↔ reg.clientId ≠ 0 ∨ ∀ ci ∈ s.pCi.slots, ci.clientId ≠ 0
  rw [hcount, (toInt_clientCount hs).1, Table.members_of_perm hslots', or_iff_left hnotFull]
  by_cases hid : reg.clientId = 0
  · simp only [hid, if_true, ne_eq, not_true_eq_false, iff_false]
    omega
  · simp only [hid, if_false, ne_eq, not_false_eq_true, iff_true]
    omega

theorem counted_delete (hs : s.clientCount.toInt = s.pCi.members) :
    (s.delete reg).clientCount.toInt = (s.delete reg).pCi.members ↔ s.Expects (.delete reg) := by
  show (s.clientCount - 1).toInt = _ ↔ reg.clientId ≠ 0 ∧ ∃ ci ∈ s.pCi.slots, _
  rw [(toInt_clientCount hs).2]
  rcases s.slots_delete reg with ⟨hslots, hnone⟩ | ⟨ci, name, others, hslots, hid, -, hslots'⟩
  · -- nothing was deleted
    have hmembers : (s.delete reg).pCi.members = s.pCi.members := by
      unfold Table.members
      rw [hslots]
    refine iff_of_false ?_ ?_
    · rw [hmembers]
      omega
    · rintro ⟨-, ci, hci, hid⟩
      exact hnone ci hci hid
  · have hmem : ci ∈ s.pCi.slots := hslots.mem_iff.mpr List.mem_cons_self
    rw [Table.members_of_perm hslots, Table.members_of_perm hslots', if_pos rfl, ← hid,
      and_iff_left ⟨ci, hmem, rfl⟩]
    by_cases hzero : ci.clientId = 0
    · simp only [hzero, if_true, ne_eq, not_true_eq_false, iff_false]
      omega
    · simp only [hzero, if_false, ne_eq, not_false_eq_true, iff_true]
      omega

/-- A message keeps the counter right exactly if the table follows it. -/
theorem counted_handle (hs : s.clientCount.toInt = s.pCi.members) (h : s.handle m = some s') :
    s'.clientCount.toInt = s'.pCi.members ↔ s.Expects m := by
  rcases m with reg | recv | reg
  · exact counted_register hs h
  · rw [← Option.some.inj h]
    exact iff_of_true hs trivial
  · rw [← Option.some.inj h]
    exact counted_delete hs

/-- The server exits only when it has no free slot for a client. -/
theorem expects_of_handle_eq_none (h : s.handle m = none) : s.Expects m := by
  rcases m with reg | recv | reg
  · exact Or.inr (register_eq_none h)
  · cases h
  · cases h

end Server

/-! ## Runs of the system -/

variable {ι : Type*} {cfg : Config ι}

/-- At the head of the server's loop `clientCount` is the number of slots in use. -/
def Counted (s : State ι) : Prop :=
  ∀ server, s.server = some server → server.clientCount.toInt = server.pCi.members

/-- If the server receives a message, the table follows it. -/
def Expected (cfg : Config ι) (s : State ι) : Label ι → Prop
  | .serve _ _ => ∀ server m q, s.server = some server →
      s.queues.msgrcv ServerMsg.mtype cfg.serverId 0 = some (m, q) → server.Expects m
  | _ => True

theorem counted_initial : Counted (State.initial cfg) := by
  intro server hserver
  rw [← Option.some.inj hserver]
  show (0 : ℤ) = (Table.zeros.members : ℤ)
  rw [Table.members_zeros]
  rfl

variable [DecidableEq ι]

/-- A step keeps the counter right exactly if the table follows the message received in it. -/
theorem counted_step {s t : State ι} {a : Label ι} (hs : Counted s)
    (hst : (machine cfg).step s a = some t) : Counted t ↔ Expected cfg s a := by
  rcases a with ⟨c, l⟩ | ⟨mem, sent⟩ | _
  · obtain ⟨q, cl, -, rfl⟩ := step_client hst
    exact iff_of_true hs trivial
  · obtain ⟨server, m, q, hserver, hrcv, hout⟩ := step_serve hst
    -- the message received is the one the condition speaks of
    have hexpected : Expected cfg s (.serve mem sent) ↔ server.Expects m := by
      constructor
      · intro h
        exact h server m q hserver hrcv
      · intro h server' m' q' hserver' hrcv'
        obtain ⟨rfl, -⟩ := Prod.mk.inj (Option.some.inj (hrcv.symm.trans hrcv'))
        exact Option.some.inj (hserver.symm.trans hserver') ▸ h
    rw [hexpected]
    rcases hout with ⟨server', q', hhandle, -, rfl⟩ | ⟨hhandle, rfl⟩
    · rw [← Server.counted_handle (hs server hserver) hhandle]
      constructor
      · intro h
        exact h server' rfl
      · intro h server'' hserver''
        exact Option.some.inj hserver'' ▸ h
    · exact iff_of_true (fun _ h => nomatch h) (Server.expects_of_handle_eq_none hhandle)
  · rw [step_serverExit hst]
    exact iff_of_true (fun _ h => nomatch h) trivial

/-- **When the counter is right.**  In every run of the server and any number of clients:
`clientCount` is the number of slots in use whenever the server is at the head of its loop, if and
only if every registration it receives has an identifier other than zero (or finds no free slot,
and the server exits), and every deletion has one other than zero that a slot holds. -/
theorem counted_throughout_iff (cfg : Config ι) (as : List (Label ι)) :
    (machine cfg).Throughout Counted (State.initial cfg) as ↔
      (machine cfg).Respects (Expected cfg) (State.initial cfg) as :=
  Machine.throughout_iff_respects (I := fun _ => True) (fun _ _ _ _ _ => trivial)
    (fun _ _ _ _ hs hst => counted_step hs hst) as trivial counted_initial

/-- One client registers and forks, and a signal ends both its processes: the server receives two
deletions and counts to `-1`. -/
theorem not_counted :
    ¬ ∀ (cfg : Config Unit) (s : State Unit), (machine cfg).Reachable s → Counted s := by
  intro h
  let cfg : Config Unit := ⟨7, fun _ => ⟨⟨[97], by decide⟩, by decide⟩⟩
  have hrun := (Machine.Reachable.init (M := machine cfg) rfl).run
    [.client () .openServer, .client () (.msgget 1), .client () .register, .client () .fork,
      .client () (.exit .main), .client () (.exit .child),
      .client () (.onExit .main (CharArray.zeros _) true),
      .client () (.onExit .child (CharArray.zeros _) true),
      .serve ⟨[], []⟩ true, .serve ⟨[], []⟩ true, .serve ⟨[], []⟩ true] rfl
  exact absurd (h cfg _ hrun _ rfl) (by decide)

end Talk
end CodeStrudy
