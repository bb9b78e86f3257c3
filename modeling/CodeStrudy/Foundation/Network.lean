import Mathlib.Data.List.Basic
import Mathlib.Data.List.Perm.Basic

/-!
# Messages on their way

The messages that a network without order has taken and not yet given out.  Any of them can be the
next one.  Nothing in this file names a program.

## What is proved

* `pick_perm`: the message that is picked and the others are the messages that were there.
* `forall_of_pick`, `countP_pick`: what follows for properties of all messages, and for their
  number.
-/

namespace CodeStrudy
namespace Foundation

/-- The messages on their way. -/
abbrev Network (δ : Type*) := List δ

namespace Network

variable {δ : Type*} {net rest : Network δ} {k : ℕ} {d : δ}

/-- Message `k` and the others. -/
def pick (net : Network δ) (k : ℕ) : Option (δ × Network δ) :=
  match net[k]? with
  | none => none
  | some d => some (d, net.eraseIdx k)

theorem getElem?_of_pick (h : net.pick k = some (d, rest)) : net[k]? = some d := by
  unfold pick at h
  split at h
  · cases h
  · rename_i d' hd
    cases h
    exact hd

theorem pick_perm (h : net.pick k = some (d, rest)) : (d :: rest).Perm net := by
  unfold pick at h
  split at h
  · cases h
  · rename_i d' hd
    obtain ⟨rfl, rfl⟩ := Prod.mk.inj (Option.some.inj h)
    obtain ⟨hk, rfl⟩ := List.getElem?_eq_some_iff.mp hd
    exact List.getElem_cons_eraseIdx_perm hk

/-- What holds of all messages holds of the one that is picked and of the others. -/
theorem forall_of_pick {P : δ → Prop} (h : net.pick k = some (d, rest)) (hP : ∀ x ∈ net, P x) :
    P d ∧ ∀ x ∈ rest, P x :=
  List.forall_mem_cons.mp fun x hx => hP x ((pick_perm h).mem_iff.mp hx)

theorem countP_pick (p : δ → Bool) (h : net.pick k = some (d, rest)) :
    net.countP p = rest.countP p + if p d then 1 else 0 := by
  rw [← (pick_perm h).countP_eq, List.countP_cons]

theorem length_pick (h : net.pick k = some (d, rest)) : net.length = rest.length + 1 := by
  rw [← (pick_perm h).length_eq, List.length_cons]

/-- Each message can be picked. -/
theorem exists_pick (h : d ∈ net) : ∃ k rest, net.pick k = some (d, rest) := by
  obtain ⟨k, hk, rfl⟩ := List.getElem_of_mem h
  refine ⟨k, net.eraseIdx k, ?_⟩
  rw [pick, List.getElem?_eq_getElem hk]

end Network

end Foundation
end CodeStrudy
