import Mathlib.Logic.Function.Basic
import Mathlib.Data.List.Basic

/-!
# System V message queues

The queues of the kernel, each under its identifier.  A queue keeps its messages in the order they
were sent; `msgrcv` takes the first one when it is called with type zero, and the first one of the
given type otherwise.  A call is `none` when it cannot return with success: there is no such queue,
or no message in it that may be taken.

`All P` says that every message in every queue satisfies `P`.  No call on queues makes a new
message, so it is kept by each of them, and a message received satisfies it.
-/

namespace CodeStrudy
namespace Foundation

/-- For every identifier the messages in its queue, the first sent first, if there is a queue. -/
abbrev MsgQueues (κ μ : Type*) := κ → Option (List μ)

namespace MsgQueues

variable {κ μ : Type*} [DecidableEq κ] {q q' : MsgQueues κ μ} {id : κ} {m : μ}

/-- `msgget` of a new queue; the kernel gives an identifier that is not in use. -/
def msgget (q : MsgQueues κ μ) (id : κ) : Option (MsgQueues κ μ) :=
  if q id = none then some (Function.update q id (some [])) else none

/-- `msgsnd`. -/
def msgsnd (q : MsgQueues κ μ) (id : κ) (m : μ) : Option (MsgQueues κ μ) :=
  (q id).map fun ms => Function.update q id (some (ms ++ [m]))

/-- Whether `msgrcv` with the type `msgtyp` takes the message. -/
def wanted (mtype : μ → ℕ) (msgtyp : ℕ) (m : μ) : Bool := msgtyp == 0 || mtype m == msgtyp

/-- `msgrcv`: the message taken and the queues without it. -/
def msgrcv (mtype : μ → ℕ) (q : MsgQueues κ μ) (id : κ) (msgtyp : ℕ) :
    Option (μ × MsgQueues κ μ) :=
  (q id).bind fun ms => (ms.find? (wanted mtype msgtyp)).map fun m =>
    (m, Function.update q id (some (ms.eraseP (wanted mtype msgtyp))))

/-- `msgctl` with `IPC_RMID`. -/
def rmid (q : MsgQueues κ μ) (id : κ) : MsgQueues κ μ := Function.update q id none

/-! ## What is in the queues -/

theorem msgsnd_of_eq {ms : List μ} (h : q id = some ms) (m : μ) :
    q.msgsnd id m = some (Function.update q id (some (ms ++ [m]))) := by
  rw [msgsnd, h]
  rfl

/-- The last message is taken if no other one has its type. -/
theorem msgrcv_of_last {mtype : μ → ℕ} {msgtyp : ℕ} {ms : List μ} (h : q id = some (ms ++ [m]))
    (hms : ∀ m' ∈ ms, wanted mtype msgtyp m' = false) (hm : wanted mtype msgtyp m = true) :
    q.msgrcv mtype id msgtyp = some (m, Function.update q id (some ms)) := by
  have hnone : ms.find? (wanted mtype msgtyp) = none :=
    List.find?_eq_none.mpr fun m' hm' => Bool.eq_false_iff.mp (hms m' hm')
  have herase : (ms ++ [m]).eraseP (wanted mtype msgtyp) = ms := by
    rw [List.eraseP_append_right _ fun m' hm' => Bool.eq_false_iff.mp (hms m' hm'),
      List.eraseP_cons_of_pos hm, List.append_nil]
  rw [msgrcv, h, Option.bind_some, List.find?_append, hnone, Option.none_or,
    List.find?_cons_of_pos hm, herase]
  rfl

/-- With type zero the first message is taken. -/
theorem msgrcv_zero_eq_some_iff {mtype : μ → ℕ} :
    q.msgrcv mtype id 0 = some (m, q') ↔
      ∃ ms, q id = some (m :: ms) ∧ q' = Function.update q id (some ms) := by
  have hall : ∀ m, wanted mtype 0 m = true := fun m => rfl
  cases hq : q id with
  | none => simp [msgrcv, hq]
  | some l =>
    cases l with
    | nil => simp [msgrcv, hq]
    | cons m' ms =>
      rw [msgrcv, hq, Option.bind_some, List.find?_cons_of_pos (hall m'),
        List.eraseP_cons_of_pos (hall m'), Option.map_some, Option.some.injEq, Prod.mk.injEq]
      constructor
      · rintro ⟨rfl, rfl⟩
        exact ⟨ms, rfl, rfl⟩
      · rintro ⟨ms', heq, rfl⟩
        obtain ⟨rfl, rfl⟩ := List.cons.inj (Option.some.inj heq)
        exact ⟨rfl, rfl⟩

/-- Every message in every queue satisfies `P`. -/
def All (P : μ → Prop) (q : MsgQueues κ μ) : Prop := ∀ id ms, q id = some ms → ∀ m ∈ ms, P m

variable {P : μ → Prop}

/-- Changing one queue to messages that satisfy `P`. -/
theorem All.update (h : All P q) {ms : List μ} (hms : ∀ m ∈ ms, P m) (id : κ) :
    All P (Function.update q id (some ms)) := by
  intro id' ms' heq
  by_cases hid : id' = id
  · rw [hid, Function.update_self] at heq
    rw [← Option.some.inj heq]
    exact hms
  · rw [Function.update_of_ne hid] at heq
    exact h id' ms' heq

theorem All.msgget (h : All P q) (hget : q.msgget id = some q') : All P q' := by
  rw [MsgQueues.msgget, Option.ite_none_right_eq_some] at hget
  rw [← Option.some.inj hget.2]
  exact h.update (fun _ hm => absurd hm List.not_mem_nil) id

theorem All.msgsnd (h : All P q) (hsnd : q.msgsnd id m = some q') (hm : P m) : All P q' := by
  obtain ⟨ms, hms, rfl⟩ := Option.map_eq_some_iff.mp hsnd
  refine h.update (fun m' hm' => ?_) id
  rcases List.mem_append.mp hm' with hold | hnew
  · exact h id ms hms m' hold
  · exact List.mem_singleton.mp hnew ▸ hm

theorem All.msgrcv (h : All P q) {mtype : μ → ℕ} {msgtyp : ℕ}
    (hrcv : q.msgrcv mtype id msgtyp = some (m, q')) : P m ∧ All P q' := by
  obtain ⟨ms, hms, hrest⟩ := Option.bind_eq_some_iff.mp hrcv
  obtain ⟨m', hfind, heq⟩ := Option.map_eq_some_iff.mp hrest
  obtain ⟨rfl, rfl⟩ := Prod.mk.inj heq
  exact ⟨h id ms hms m' (List.mem_of_find?_eq_some hfind),
    h.update (fun m hm => h id ms hms m (List.mem_of_mem_eraseP hm)) id⟩

theorem All.rmid (h : All P q) (id : κ) : All P (q.rmid id) := by
  intro id' ms' heq
  by_cases hid : id' = id
  · rw [MsgQueues.rmid, hid, Function.update_self] at heq
    cases heq
  · rw [MsgQueues.rmid, Function.update_of_ne hid] at heq
    exact h id' ms' heq

end MsgQueues

end Foundation
end CodeStrudy
