import Mathlib.Data.List.Basic
import CodeStrudy.Foundation.Machine

/-!
# Hand-over through one slot and two semaphores

A producer and a consumer share one slot.  The producer waits on `empty`, fills the slot and posts
`full`; the consumer waits on `full`, drains the slot and posts `empty`.  Items are of any type; an
end mark, `none`, closes the stream, and after it neither side waits again.

## What is proved

There is one token in all: on `empty`, on `full`, or with one of the two sides.  `Phase` lists the
seven places it can be in, with what is in the slot and what has been received there, and
`phase_of_reachable` says that every reachable state is in one of them.  What a client of this file
needs follows: while the producer is at the slot the consumer is not (`consumer_idle`), what was
received is a prefix of what was sent (`received_prefix`), and a consumer that is done has received
everything (`received_eq_of_done`).
-/

namespace CodeStrudy
namespace Foundation
namespace OneSlot

/-- The producer: waiting for an empty slot, at the empty slot, at the slot it has filled, or past
the end mark. -/
inductive Producer where
  | idle
  | holding
  | filled
  | done
  deriving DecidableEq

/-- The consumer: waiting for a full slot, at the full slot, at the slot it has drained, or past
the end mark. -/
inductive Consumer where
  | idle
  | holding
  | drained
  | done
  deriving DecidableEq

/-- The two semaphores, the two sides, the slot, and what has gone through it. -/
@[ext] structure State (α : Type*) where
  empty : ℕ
  full : ℕ
  producer : Producer
  consumer : Consumer
  slot : Option α
  sent : List α
  received : List α

/-- What one of the two sides does. -/
inductive Label (α : Type*) where
  | takeEmpty
  | fill (x : Option α)
  | postFull
  | takeFull
  | drain
  | postEmpty

variable {α : Type*}

/-- The slot is empty and nothing has been sent. -/
def initial : State α := ⟨1, 0, .idle, .idle, none, [], []⟩

/-- Where the producer goes after it has posted an item or the end mark. -/
def Producer.after : Option α → Producer
  | some _ => .idle
  | none => .done

/-- Where the consumer goes after it has drained an item or the end mark. -/
def Consumer.after : Option α → Consumer
  | some _ => .drained
  | none => .done

/-- One step. -/
def step (s : State α) : Label α → Option (State α)
  | .takeEmpty =>
    if s.producer = .idle ∧ 0 < s.empty then
      some { s with empty := s.empty - 1, producer := .holding }
    else none
  | .fill x =>
    if s.producer = .holding then
      some { s with slot := x, sent := s.sent ++ x.toList, producer := .filled }
    else none
  | .postFull =>
    if s.producer = .filled then
      some { s with full := s.full + 1, producer := .after s.slot }
    else none
  | .takeFull =>
    if s.consumer = .idle ∧ 0 < s.full then
      some { s with full := s.full - 1, consumer := .holding }
    else none
  | .drain =>
    if s.consumer = .holding then
      some { s with received := s.received ++ s.slot.toList, consumer := .after s.slot }
    else none
  | .postEmpty =>
    if s.consumer = .drained then
      some { s with empty := s.empty + 1, consumer := .idle }
    else none

/-- The hand-over as a machine. -/
def machine (α : Type*) : Machine (State α) (Label α) where
  init s := s = initial
  step := step

/-! ## The phases -/

/-- The phases of the hand-over, one for each place the token can be in. -/
inductive Phase (s : State α) : Prop
  | empty : s.empty = 1 → s.full = 0 → s.producer = .idle → s.consumer = .idle →
      s.received = s.sent → Phase s
  | producing : s.empty = 0 → s.full = 0 → s.producer = .holding → s.consumer = .idle →
      s.received = s.sent → Phase s
  | filled : s.empty = 0 → s.full = 0 → s.producer = .filled → s.consumer = .idle →
      s.sent = s.received ++ s.slot.toList → Phase s
  | full : s.empty = 0 → s.full = 1 → s.producer = .after s.slot → s.consumer = .idle →
      s.sent = s.received ++ s.slot.toList → Phase s
  | consuming : s.empty = 0 → s.full = 0 → s.producer = .after s.slot → s.consumer = .holding →
      s.sent = s.received ++ s.slot.toList → Phase s
  | drained : s.empty = 0 → s.full = 0 → s.producer = .idle → s.consumer = .drained →
      s.received = s.sent → Phase s
  | finished : s.empty = 0 → s.full = 0 → s.producer = .done → s.consumer = .done →
      s.received = s.sent → Phase s

theorem producer_after_ne_idle {x : Option α} (h : Producer.after x ≠ .idle) : x = none := by
  cases x with
  | none => rfl
  | some _ => exact absurd rfl h

/-- One step leads from a phase to the next one. -/
theorem phase_step (s : State α) (a : Label α) (t : State α) (hs : Phase s)
    (h : step s a = some t) : Phase t := by
  cases a with
  | takeEmpty =>
    simp only [step, Option.ite_none_right_eq_some, Option.some.injEq] at h
    obtain ⟨⟨hp, hpos⟩, rfl⟩ := h
    cases hs with
    | empty he hf _ hc hr => exact .producing (by simp [he]) hf rfl hc hr
    | _ => omega
  | fill x =>
    simp only [step, Option.ite_none_right_eq_some, Option.some.injEq] at h
    obtain ⟨hp, rfl⟩ := h
    cases hs with
    | producing he hf _ hc hr => exact .filled he hf rfl hc (by simp [hr])
    | full _ _ hp' | consuming _ _ hp' =>
      rw [hp'] at hp
      cases hslot : s.slot <;> rw [hslot] at hp <;> cases hp
    | _ => simp_all
  | postFull =>
    simp only [step, Option.ite_none_right_eq_some, Option.some.injEq] at h
    obtain ⟨hp, rfl⟩ := h
    cases hs with
    | filled he hf _ hc hr => exact .full he (by simp [hf]) rfl hc hr
    | full _ _ hp' | consuming _ _ hp' =>
      rw [hp'] at hp
      cases hslot : s.slot <;> rw [hslot] at hp <;> cases hp
    | _ => simp_all
  | takeFull =>
    simp only [step, Option.ite_none_right_eq_some, Option.some.injEq] at h
    obtain ⟨⟨_, hpos⟩, rfl⟩ := h
    cases hs with
    | full he hf hp _ hr => exact .consuming he (by simp [hf]) hp rfl hr
    | _ => omega
  | drain =>
    simp only [step, Option.ite_none_right_eq_some, Option.some.injEq] at h
    obtain ⟨hc, rfl⟩ := h
    cases hs with
    | consuming he hf hp _ hr =>
      cases hslot : s.slot with
      | some x =>
        rw [hslot] at hp hr
        exact .drained he hf hp rfl hr.symm
      | none =>
        rw [hslot] at hp hr
        exact .finished he hf hp rfl hr.symm
    | _ => simp_all
  | postEmpty =>
    simp only [step, Option.ite_none_right_eq_some, Option.some.injEq] at h
    obtain ⟨hc, rfl⟩ := h
    cases hs with
    | drained he hf hp _ hr => exact .empty (by simp [he]) hf hp rfl hr
    | _ => simp_all

/-- Every reachable state of the hand-over is in one of its phases. -/
theorem phase_of_reachable {s : State α} (h : (machine α).Reachable s) : Phase s :=
  h.invariant (fun _ hs => hs ▸ .empty rfl rfl rfl rfl rfl) phase_step

/-! ## What the phases say -/

section

variable {s : State α}

/-- While the producer is at the slot, the consumer is not. -/
theorem Phase.consumer_idle (h : Phase s) (hp : s.producer = .holding ∨ s.producer = .filled) :
    s.consumer = .idle := by
  cases h with
  | empty _ _ _ hc | producing _ _ _ hc | filled _ _ _ hc | full _ _ _ hc => exact hc
  | consuming _ _ hp' =>
    rw [hp'] at hp
    cases hslot : s.slot <;> simp [hslot, Producer.after] at hp
  | drained _ _ hp' | finished _ _ hp' => simp [hp'] at hp

/-- A producer that is done has left the end mark, if the consumer is at the slot. -/
theorem Phase.slot_of_done (h : Phase s) (hp : s.producer = .done) (hc : s.consumer = .holding) :
    s.slot = none := by
  cases h with
  | consuming _ _ hp' =>
    rw [hp] at hp'
    exact producer_after_ne_idle (by rw [← hp']; exact Producer.noConfusion)
  | _ => simp_all

theorem Phase.received_prefix (h : Phase s) : s.received <+: s.sent := by
  cases h with
  | empty _ _ _ _ hr | producing _ _ _ _ hr | drained _ _ _ _ hr | finished _ _ _ _ hr =>
    exact hr ▸ List.prefix_rfl
  | filled _ _ _ _ hr | full _ _ _ _ hr | consuming _ _ _ _ hr => exact ⟨_, hr.symm⟩

theorem Phase.received_eq_of_done (h : Phase s) (hc : s.consumer = .done) :
    s.received = s.sent ∧ s.producer = .done := by
  cases h with
  | finished _ _ hp _ hr => exact ⟨hr, hp⟩
  | _ => simp_all

end

end OneSlot
end Foundation
end CodeStrudy
