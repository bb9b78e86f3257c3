import CodeStrudy.Talk.Messages

/-!
# The talk server's table

`talk_server.c` keeps a table `pCi` of 1024 slots.  A slot is free when its `clientId` is zero:
registering takes the first free slot, deleting looks for the first slot with the client's
identifier and zeroes the identifier and four bytes of the name (`sizeof(CLIENT_NAME_LEN)` is the
size of an `int`).  A message is forwarded to the first slot whose name `strcmp` finds equal to
`targetName`; this loop looks at all slots, the free ones included.

`strcmp` does not stop at the end of `clientName` or of `targetName`, so both are read as memory:
`Table.nameMem` is what follows the address of a slot's name, up to the end of the table and beyond.
-/

namespace CodeStrudy
namespace Talk

open Foundation

/-- `struct clientInfo`. -/
structure ClientInfo where
  clientId : CInt
  clientName : CharArray CLIENT_NAME_LEN
  deriving DecidableEq

/-- A slot in memory. -/
def ClientInfo.toBytes (ci : ClientInfo) : List UInt8 := ci.clientId.toBytes ++ ci.clientName.bytes

/-- `pCi`. -/
structure Table where
  /-- The slots, by their index. -/
  slots : List ClientInfo
  /-- The table has its declared size. -/
  length_slots : slots.length = CLIENT_NUM_MAX

namespace Table

/-- `memset(pCi, 0, sizeof(pCi))`. -/
def zeros : Table := ⟨List.replicate CLIENT_NUM_MAX ⟨0, CharArray.zeros _⟩, List.length_replicate⟩

/-- A loop that changes the first slot with a property and breaks. -/
def replaceFirst (t : Table) (f : ClientInfo → Option ClientInfo) : Table :=
  ⟨t.slots.replaceF f, by rw [List.length_replaceF, t.length_slots]⟩

/-- The memory from `pCi[i].clientName` on; `behind` is what follows the table. -/
def nameMem (t : Table) (behind : List UInt8) (i : ℕ) : List UInt8 :=
  (((t.slots.drop i).flatMap ClientInfo.toBytes).drop 4) ++ behind

/-- The memory behind slot `i`. -/
def memBehind (t : Table) (behind : List UInt8) (i : ℕ) : List UInt8 :=
  (t.slots.drop (i + 1)).flatMap ClientInfo.toBytes ++ behind

/-- The number of slots in use. -/
def members (t : Table) : ℕ := t.slots.countP (·.clientId != 0)

end Table

/-- The server's variables. -/
structure Server where
  pCi : Table
  clientCount : CInt

/-- What is in memory behind the table and, when a message is handled, behind `recvBuf`.  A
`strcmp` that runs to the end of it has found no equal strings. -/
structure Behind where
  pCi : List UInt8
  recvBuf : List UInt8

namespace Server

/-- The variables when the loop is entered. -/
def initial : Server := ⟨Table.zeros, 0⟩

/-- The slot that is taken, with the new client in it. -/
def takeSlot (reg : RegisterMsg) (ci : ClientInfo) : Option ClientInfo :=
  if ci.clientId = 0 then
    some ⟨reg.clientId, CharArray.strncpy CLIENT_NAME_LEN reg.clientName.bytes⟩
  else none

/-- `case MTYPE_REGISTER`; `none` when there is no free slot and the server exits. -/
def register (s : Server) (reg : RegisterMsg) : Option Server :=
  let clientCount := s.clientCount + 1
  if s.pCi.slots.any (·.clientId == 0) then
    some ⟨s.pCi.replaceFirst (takeSlot reg), clientCount⟩
  else none

/-- The slot that is given back.  Only as many bytes of the name are zeroed as an `int` has. -/
def freeSlot (reg : RegisterMsg) (ci : ClientInfo) : Option ClientInfo :=
  if ci.clientId = reg.clientId then some ⟨0, ci.clientName.write [0, 0, 0, 0]⟩ else none

/-- `case MTYPE_DELETE`. -/
def delete (s : Server) (reg : RegisterMsg) : Server where
  clientCount := s.clientCount - 1
  pCi := s.pCi.replaceFirst (freeSlot reg)

/-- What a message does to the variables; `none` when the server exits. -/
def handle (s : Server) : ServerMsg → Option Server
  | .register reg => s.register reg
  | .delete reg => some (s.delete reg)
  | .talk _ => some s

/-- Whether `strcmp` finds the name of slot `i` equal to the target name of a message. -/
def nameMatches (s : Server) (mem : Behind) (recv : TaskMsg) (i : ℕ) : Bool :=
  strcmpEq (s.pCi.nameMem mem.pCi i) (recv.targetName.bytes ++ (recv.msg.bytes ++ mem.recvBuf))

/-- `case MTYPE_TALK`: the queue the message is forwarded to, if a slot has the name. -/
def route (s : Server) (mem : Behind) (recv : TaskMsg) : Option CInt :=
  ((List.range CLIENT_NUM_MAX).find? (s.nameMatches mem recv)).bind fun i =>
    (s.pCi.slots[i]?).map (·.clientId)

end Server

/-! ## What the loops find -/

namespace Table

variable {t : Table}

/-- The memory at a name is the name itself and what stands behind the slot. -/
theorem nameMem_eq {i : ℕ} {ci : ClientInfo} (h : t.slots[i]? = some ci) (behind : List UInt8) :
    t.nameMem behind i = ci.clientName.bytes ++ t.memBehind behind i := by
  obtain ⟨hi, hget⟩ := List.getElem?_eq_some_iff.mp h
  rw [nameMem, List.drop_eq_getElem_cons hi, hget, List.flatMap_cons, ClientInfo.toBytes,
    List.append_assoc, List.drop_left' (CInt.length_toBytes _), List.append_assoc, memBehind]

/-- A loop that changes the first slot with a property changes no slot or one. -/
theorem slots_replaceFirst (t : Table) (f : ClientInfo → Option ClientInfo) :
    (t.replaceFirst f).slots = t.slots ∧ (∀ ci ∈ t.slots, f ci = none) ∨
      ∃ ci ci' others, t.slots.Perm (ci :: others) ∧ f ci = some ci' ∧
        (t.replaceFirst f).slots.Perm (ci' :: others) := by
  by_cases hnone : ∀ ci ∈ t.slots, f ci = none
  · exact Or.inl ⟨List.replaceF_of_forall_none hnone, hnone⟩
  · push Not at hnone
    obtain ⟨ci, hmem, hci⟩ := hnone
    obtain ⟨ci', hci'⟩ := Option.ne_none_iff_exists'.mp hci
    obtain ⟨a, a', pre, post, -, hf, h, h'⟩ := List.exists_of_replaceF hmem hci'
    refine Or.inr ⟨a, a', pre ++ post, ?_, hf, ?_⟩
    · rw [h]
      exact List.perm_middle
    · show (t.slots.replaceF f).Perm _
      rw [h']
      exact List.perm_middle

theorem members_of_perm {t : Table} {ci : ClientInfo} {others : List ClientInfo}
    (h : t.slots.Perm (ci :: others)) :
    t.members = others.countP (·.clientId != 0) + if ci.clientId = 0 then 0 else 1 := by
  rw [members, h.countP_eq, List.countP_cons]
  by_cases hci : ci.clientId = 0
  · simp [hci]
  · simp

theorem members_le (t : Table) : t.members ≤ CLIENT_NUM_MAX :=
  List.countP_le_length.trans (le_of_eq t.length_slots)

@[simp] theorem members_zeros : zeros.members = 0 := by
  rw [members, List.countP_eq_zero]
  intro ci hci
  rw [List.eq_of_mem_replicate hci]
  decide

end Table

namespace Server

variable {s s' : Server} {reg : RegisterMsg}

/-- What registering does: a free slot is taken. -/
theorem register_eq_some (h : s.register reg = some s') :
    s'.clientCount = s.clientCount + 1 ∧ ∃ ci others, s.pCi.slots.Perm (ci :: others) ∧
      ci.clientId = 0 ∧ s'.pCi.slots.Perm
        (⟨reg.clientId, CharArray.strncpy CLIENT_NAME_LEN reg.clientName.bytes⟩ :: others) := by
  rw [register, Option.ite_none_right_eq_some] at h
  obtain ⟨hany, heq⟩ := h
  rw [← Option.some.inj heq]
  refine ⟨rfl, ?_⟩
  rcases s.pCi.slots_replaceFirst (takeSlot reg) with ⟨-, hnone⟩ | ⟨ci, ci', others, hs, hf, hs'⟩
  · -- the slot that was found free would have been taken
    obtain ⟨ci, hmem, hci⟩ := List.any_eq_true.mp hany
    have hfree := hnone ci hmem
    rw [takeSlot, if_pos (beq_iff_eq.mp hci)] at hfree
    cases hfree
  · rw [takeSlot, Option.ite_none_right_eq_some] at hf
    refine ⟨ci, others, hs, hf.1, ?_⟩
    rw [Option.some.inj hf.2]
    exact hs'

theorem register_eq_none (h : s.register reg = none) : ∀ ci ∈ s.pCi.slots, ci.clientId ≠ 0 := by
  intro ci hmem hci
  have hany : s.pCi.slots.any (·.clientId == 0) = true :=
    List.any_eq_true.mpr ⟨ci, hmem, beq_iff_eq.mpr hci⟩
  rw [register, if_pos hany] at h
  cases h

/-- The bytes that are zeroed are enough to empty the name. -/
theorem str_write_zeros (name : CharArray CLIENT_NAME_LEN) :
    (name.write [0, 0, 0, 0]).str = [] := by
  rw [CharArray.str, CharArray.bytes_write (by decide)]
  exact cstr_append_zero List.not_mem_nil _

/-- What deleting does to the table: nothing, if no slot has the identifier, and otherwise a slot
that has it is freed. -/
theorem slots_delete (s : Server) (reg : RegisterMsg) :
    (s.delete reg).pCi.slots = s.pCi.slots ∧ (∀ ci ∈ s.pCi.slots, ci.clientId ≠ reg.clientId) ∨
      ∃ ci name others, s.pCi.slots.Perm (ci :: others) ∧ ci.clientId = reg.clientId ∧
        name.str = [] ∧ (s.delete reg).pCi.slots.Perm (⟨0, name⟩ :: others) := by
  rcases s.pCi.slots_replaceFirst (freeSlot reg) with ⟨hs, hnone⟩ | ⟨ci, ci', others, hs, hf, hs'⟩
  · refine Or.inl ⟨hs, fun ci hmem hci => ?_⟩
    have hfound := hnone ci hmem
    rw [freeSlot, if_pos hci] at hfound
    cases hfound
  · rw [freeSlot, Option.ite_none_right_eq_some] at hf
    refine Or.inr ⟨ci, ci.clientName.write [0, 0, 0, 0], others, hs, hf.1, str_write_zeros _, ?_⟩
    rw [Option.some.inj hf.2]
    exact hs'

/-- When the name of a slot matches: it is the target name, and if that fills its array, the
memory behind the slot holds the string that the message holds behind its target name. -/
theorem nameMatches_iff {mem : Behind} {recv : TaskMsg} {i : ℕ} {ci : ClientInfo}
    (h : s.pCi.slots[i]? = some ci) : s.nameMatches mem recv i = true ↔
      ci.clientName.str = recv.targetName.str ∧ (recv.targetName.str.length = CLIENT_NAME_LEN →
        strcmpEq (s.pCi.memBehind mem.pCi i) (recv.msg.bytes ++ mem.recvBuf) = true) := by
  rw [nameMatches, Table.nameMem_eq h]
  exact CharArray.strcmpEq_bytes_append _ _ _ _

/-- The message goes to the first slot whose name matches. -/
theorem route_eq_some_iff {mem : Behind} {recv : TaskMsg} {d : CInt} :
    s.route mem recv = some d ↔ ∃ i ci, s.pCi.slots[i]? = some ci ∧ ci.clientId = d ∧
      s.nameMatches mem recv i = true ∧ ∀ j < i, s.nameMatches mem recv j = false := by
  unfold route
  constructor
  · intro h
    obtain ⟨i, hi, hd⟩ := Option.bind_eq_some_iff.mp h
    obtain ⟨ci, hci, hid⟩ := Option.map_eq_some_iff.mp hd
    obtain ⟨hmatch, -, hfirst⟩ := List.find?_range_eq_some.mp hi
    exact ⟨i, ci, hci, hid, hmatch, fun j hj => by simpa using hfirst j hj⟩
  · rintro ⟨i, ci, hci, hid, hmatch, hfirst⟩
    have hi : i < CLIENT_NUM_MAX := s.pCi.length_slots ▸ (List.getElem?_eq_some_iff.mp hci).1
    refine Option.bind_eq_some_iff.mpr ⟨i, List.find?_range_eq_some.mpr ⟨hmatch, ?_, ?_⟩, ?_⟩
    · exact List.mem_range.mpr hi
    · intro j hj
      rw [hfirst j hj]
      rfl
    · rw [hci, ← hid]
      rfl

theorem route_eq_none {mem : Behind} {recv : TaskMsg} (h : s.route mem recv = none) {i : ℕ}
    {ci : ClientInfo} (hci : s.pCi.slots[i]? = some ci) : s.nameMatches mem recv i = false := by
  have hi : i < CLIENT_NUM_MAX := s.pCi.length_slots ▸ (List.getElem?_eq_some_iff.mp hci).1
  cases hfind : (List.range CLIENT_NUM_MAX).find? (s.nameMatches mem recv) with
  | none =>
    have hno := List.find?_eq_none.mp hfind i (List.mem_range.mpr hi)
    exact Bool.eq_false_iff.mpr hno
  | some j =>
    -- the index that is found is in the table
    have hj : j < s.pCi.slots.length := by
      rw [s.pCi.length_slots]
      exact List.mem_range.mp (List.mem_of_find?_eq_some hfind)
    rw [route, hfind, Option.bind_some, List.getElem?_eq_getElem hj] at h
    cases h

end Server

end Talk
end CodeStrudy
