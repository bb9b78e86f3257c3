import Mathlib.Data.Fintype.Defs
import Mathlib.Data.Option.Basic
import Mathlib.Logic.Function.Basic

/-!
# Locks that may exclude each other

Every owner holds one lock at most, and a lock is granted if it is in conflict with none that
another owner holds; a call does not wait.  Which locks are in conflict is a parameter.  Nothing in
this file names a program.

## What is proved

* `Compatible.tryLock`, `Compatible.release`: no two owners hold locks that are in conflict.
* `tryLock_eq_none_iff`: a lock is refused only if another owner holds one in conflict with it.
-/

namespace CodeStrudy
namespace Foundation

/-- The lock that each owner holds. -/
abbrev LockTable (δ κ : Type*) := δ → Option κ

namespace LockTable

variable {δ κ : Type*} {conflict : κ → κ → Prop} {held held' : LockTable δ κ} {p : δ} {a : κ}

/-- No two owners hold locks that are in conflict. -/
def Compatible (conflict : κ → κ → Prop) (held : LockTable δ κ) : Prop :=
  ∀ p q, p ≠ q → ∀ a ∈ held p, ∀ b ∈ held q, ¬ conflict a b

/-- Another owner holds a lock in conflict with this one. -/
def Refused (conflict : κ → κ → Prop) (held : LockTable δ κ) (p : δ) (a : κ) : Prop :=
  ∃ q, q ≠ p ∧ ∃ b ∈ held q, conflict a b

variable [DecidableEq δ]

/-- The owner has no lock from now on. -/
def release (held : LockTable δ κ) (p : δ) : LockTable δ κ := Function.update held p none

theorem Compatible.release (h : Compatible conflict held) (p : δ) :
    Compatible conflict (held.release p) := by
  have hsub : ∀ {q : δ} {a : κ}, a ∈ held.release p q → a ∈ held q := by
    intro q a ha
    by_cases hq : q = p
    · subst hq
      rw [LockTable.release, Function.update_self] at ha
      cases ha
    · rwa [LockTable.release, Function.update_of_ne hq] at ha
  exact fun q r hqr a ha b hb => h q r hqr a (hsub ha) b (hsub hb)

variable [Fintype δ] [DecidableRel conflict]

instance (held : LockTable δ κ) (p : δ) (a : κ) : Decidable (Refused conflict held p a) :=
  have (o : Option κ) : Decidable (∃ b ∈ o, conflict a b) :=
    match o with
    | none => .isFalse fun ⟨_, hb, _⟩ => nomatch hb
    | some b => decidable_of_iff (conflict a b)
        ⟨fun hab => ⟨b, rfl, hab⟩, fun ⟨_, hb, hab⟩ => Option.some.inj hb ▸ hab⟩
  decidable_of_iff (∃ q, q ≠ p ∧ ∃ b ∈ held q, conflict a b) Iff.rfl

variable (conflict) in
/-- A call for a lock; `none` is its refusal. -/
def tryLock (held : LockTable δ κ) (p : δ) (a : κ) : Option (LockTable δ κ) :=
  if Refused conflict held p a then none else some (Function.update held p (some a))

/-- **A lock is refused only if another owner holds one in conflict with it.** -/
theorem tryLock_eq_none_iff : tryLock conflict held p a = none ↔ Refused conflict held p a := by
  unfold tryLock
  split
  case isTrue h => exact iff_of_true rfl h
  case isFalse h => exact iff_of_false nofun h

theorem tryLock_eq_some_iff :
    tryLock conflict held p a = some held' ↔
      ¬ Refused conflict held p a ∧ held' = Function.update held p (some a) := by
  rw [tryLock, Option.ite_none_left_eq_some, Option.some.injEq, eq_comm (a := held')]

/-- **A lock that is granted is in conflict with no other.** -/
theorem Compatible.tryLock (hsymm : ∀ a b, conflict a b → conflict b a)
    (h : Compatible conflict held) (hlock : tryLock conflict held p a = some held') :
    Compatible conflict held' := by
  obtain ⟨hgranted, rfl⟩ := tryLock_eq_some_iff.mp hlock
  intro q r hqr b hb c hc hbc
  by_cases hq : q = p
  · subst hq
    rw [Function.update_self] at hb
    rw [Function.update_of_ne (Ne.symm hqr)] at hc
    obtain rfl := Option.some.inj hb
    exact hgranted ⟨r, Ne.symm hqr, c, hc, hbc⟩
  · rw [Function.update_of_ne hq] at hb
    by_cases hr : r = p
    · subst hr
      rw [Function.update_self] at hc
      obtain rfl := Option.some.inj hc
      exact hgranted ⟨q, hq, b, hb, hsymm _ _ hbc⟩
    · rw [Function.update_of_ne hr] at hc
      exact h q r hqr b hb c hc hbc

end LockTable

end Foundation
end CodeStrudy
