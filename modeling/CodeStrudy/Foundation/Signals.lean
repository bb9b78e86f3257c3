import Mathlib.Data.List.Basic
import Mathlib.Logic.Function.Basic

/-!
# Signals sent to a process

For each signal number the signals of this number that are pending, each with what was sent with it,
the first one sent first.  A standard signal that is pending already is not queued again, so what
comes with it is lost; realtime signals are queued.  A stop signal takes a pending `SIGCONT` away,
and the other way round.  Which of the pending numbers is delivered next is left open.

## What is proved

`Accounted` relates what was generated, what has been delivered and what is pending: of a realtime
signal nothing is lost, doubled or moved before another one, and what is left of a standard signal
is in the order in which it was sent.  It is kept by `generate` (`Accounted.generate`) and by a
delivery (`Accounted.deliver`), also by one that only takes a standard signal away
(`Accounted.discard`). Nothing in this file names a program. -/

namespace CodeStrudy
namespace Foundation
namespace Signals

def SIGINT : ℕ := 2
def SIGKILL : ℕ := 9
def SIGUSR1 : ℕ := 10
def SIGTERM : ℕ := 15
def SIGCHLD : ℕ := 17
def SIGCONT : ℕ := 18
def SIGSTOP : ℕ := 19
def SIGTSTP : ℕ := 20
def SIGTTIN : ℕ := 21
def SIGTTOU : ℕ := 22
def SIGURG : ℕ := 23
def SIGWINCH : ℕ := 28

/-- The first realtime signal of the kernel. -/
def SIGRTMIN : ℕ := 32

/-- One more than the last signal. -/
def NSIG : ℕ := 65

/-- The signals that stop a process by default. -/
def stops (n : ℕ) : Bool := n == SIGSTOP || n == SIGTSTP || n == SIGTTIN || n == SIGTTOU

/-- The signals that nothing is done about by default. -/
def ignores (n : ℕ) : Bool := n == SIGCHLD || n == SIGCONT || n == SIGURG || n == SIGWINCH

/-- By default the signal ends the process. -/
def terminates (n : ℕ) : Bool := !stops n && !ignores n

/-- The first signal takes the second one away. -/
def cancels (n m : ℕ) : Bool := n == SIGCONT && stops m || stops n && m == SIGCONT

/-- A realtime signal is none of those with a default action of their own. -/
theorem terminates_of_realtime {m : ℕ} (h : SIGRTMIN ≤ m) : terminates m = true := by
  have hne : ∀ k < SIGRTMIN, (m == k) = false := fun k hk =>
    beq_eq_false_iff_ne.mpr fun heq => absurd h (by omega)
  unfold terminates stops ignores
  rw [hne SIGSTOP (by decide), hne SIGTSTP (by decide), hne SIGTTIN (by decide),
    hne SIGTTOU (by decide), hne SIGCHLD (by decide), hne SIGCONT (by decide),
    hne SIGURG (by decide), hne SIGWINCH (by decide)]
  rfl

/-- What does not end a process by default is a standard signal. -/
theorem lt_of_not_terminates {n : ℕ} (h : ¬ terminates n = true) : n < SIGRTMIN :=
  Nat.lt_of_not_le fun hge => h (terminates_of_realtime hge)

/-- A signal that ends the process is not cancelled. -/
theorem not_cancels_of_terminates {n m : ℕ} (h : terminates m = true) : cancels n m = false := by
  unfold terminates ignores at h
  unfold cancels
  cases hs : stops m <;> cases hc : m == SIGCONT <;> simp_all

variable {ν : Type*}

/-- The pending signals. -/
abbrev Pending (ν : Type*) := ℕ → List ν

namespace Pending

/-- Nothing is pending. -/
def empty : Pending ν := fun _ => []

/-- A signal is generated for the process. -/
def generate (p : Pending ν) (n : ℕ) (v : ν) : Pending ν := fun m =>
  if m = n then (if n < SIGRTMIN ∧ p n ≠ [] then p n else p n ++ [v])
  else if cancels n m then [] else p m

/-- The first pending signal of the number is taken. -/
def take (p : Pending ν) (n : ℕ) : Option (ν × Pending ν) :=
  match p n with
  | [] => none
  | v :: vs => some (v, Function.update p n vs)

theorem take_eq_some {p p' : Pending ν} {n : ℕ} {v : ν} (h : p.take n = some (v, p')) :
    ∃ vs, p n = v :: vs ∧ p' = Function.update p n vs := by
  unfold take at h
  split at h
  · cases h
  · rename_i v' vs hp
    obtain ⟨rfl, rfl⟩ := Prod.mk.inj (Option.some.inj h)
    exact ⟨vs, hp, rfl⟩

theorem generate_realtime {p : Pending ν} {n m : ℕ} (h : SIGRTMIN ≤ m) (v : ν) :
    p.generate n v m = p m ++ if m = n then [v] else [] := by
  unfold generate
  by_cases hm : m = n
  · subst hm
    rw [if_pos rfl, if_pos rfl, if_neg fun hlt => absurd hlt.1 (Nat.not_lt.mpr h)]
  · rw [if_neg hm, if_neg hm, not_cancels_of_terminates (terminates_of_realtime h), List.append_nil]
    rfl

theorem generate_sublist (p : Pending ν) (n m : ℕ) (v : ν) :
    (p.generate n v m).Sublist (p m ++ if m = n then [v] else []) := by
  unfold generate
  by_cases hm : m = n
  · subst hm
    rw [if_pos rfl, if_pos rfl]
    split
    · exact List.sublist_append_left _ _
    · exact List.Sublist.refl _
  · rw [if_neg hm, if_neg hm, List.append_nil]
    split
    · exact List.nil_sublist _
    · exact List.Sublist.refl _

/-- A standard signal is pending at most once. -/
theorem length_generate_le {p : Pending ν} (h : ∀ m < SIGRTMIN, (p m).length ≤ 1) (n : ℕ) (v : ν) :
    ∀ m < SIGRTMIN, (p.generate n v m).length ≤ 1 := by
  intro m hm
  unfold generate
  by_cases hmn : m = n
  · subst hmn
    rw [if_pos rfl]
    split
    · exact h m hm
    · rename_i hnot
      have hnil : p m = [] := by
        by_contra hne
        exact hnot ⟨hm, hne⟩
      rw [hnil]
      exact Nat.le_refl 1
  · rw [if_neg hmn]
    split
    · exact Nat.zero_le 1
    · exact h m hm

theorem length_take {p p' : Pending ν} {n : ℕ} {v : ν} (h : p.take n = some (v, p')) (m : ℕ) :
    (p' m).length + (if m = n then 1 else 0) = (p m).length := by
  obtain ⟨vs, hp, rfl⟩ := take_eq_some h
  by_cases hm : m = n
  · subst hm
    rw [if_pos rfl, Function.update_self, hp, List.length_cons]
  · rw [if_neg hm, Function.update_of_ne hm, Nat.add_zero]

theorem length_generate_le_add (p : Pending ν) (n m : ℕ) (v : ν) :
    (p.generate n v m).length ≤ (p m).length + if m = n then 1 else 0 := by
  have hle := (p.generate_sublist n m v).length_le
  rw [List.length_append] at hle
  split at hle <;> rename_i hm <;> simpa [hm] using hle

/-- What is sent of such a signal is pending. -/
theorem length_generate_pos {p : Pending ν} {n m : ℕ} (hm : terminates m = true) (v : ν)
    (h : m = n ∨ 0 < (p m).length) : 0 < (p.generate n v m).length := by
  unfold generate
  by_cases hmn : m = n
  · subst hmn
    rw [if_pos rfl]
    split
    · rename_i hp
      exact List.length_pos_iff.mpr hp.2
    · simp
  · rw [if_neg hmn, not_cancels_of_terminates hm]
    exact h.resolve_left hmn

end Pending

/-! ## What was sent and what has come -/

section Log

variable {κ : Type*} [DecidableEq κ]

/-- What a log has under one key, such as a signal number. -/
def valuesOf (n : κ) (l : List (κ × ν)) : List ν := (l.filter fun e => e.1 = n).map Prod.snd

theorem valuesOf_cons (n : κ) (e : κ × ν) (l : List (κ × ν)) :
    valuesOf n (e :: l) = if e.1 = n then e.2 :: valuesOf n l else valuesOf n l := by
  by_cases h : e.1 = n <;> simp [valuesOf, h]

theorem valuesOf_append (n : κ) (l l' : List (κ × ν)) :
    valuesOf n (l ++ l') = valuesOf n l ++ valuesOf n l' := by
  rw [valuesOf, List.filter_append, List.map_append]
  rfl

theorem valuesOf_concat (n m : κ) (v : ν) (l : List (κ × ν)) :
    valuesOf m (l ++ [(n, v)]) = valuesOf m l ++ if m = n then [v] else [] := by
  rw [valuesOf_append, valuesOf_cons]
  exact congrArg _ (if_congr eq_comm rfl rfl)

theorem valuesOf_sublist {n : κ} {l l' : List (κ × ν)} (h : l.Sublist l') :
    (valuesOf n l).Sublist (valuesOf n l') :=
  (h.filter _).map _

/-- When a second key determines the first, the values under it are found under the first. -/
theorem valuesOf_map_snd {ι : Type*} [DecidableEq ι] {n : κ} {i : ι} {l : List (κ × ι × ν)}
    (h : ∀ e ∈ l, e.2.1 = i → e.1 = n) :
    valuesOf i (l.map Prod.snd) = valuesOf i (valuesOf n l) := by
  induction l with
  | nil => rfl
  | cons e l ih =>
    have ih := ih fun e' he' => h e' (List.mem_cons_of_mem e he')
    rw [List.map_cons, valuesOf_cons, valuesOf_cons, ih]
    by_cases hi : e.2.1 = i
    · rw [if_pos hi, if_pos (h e List.mem_cons_self hi), valuesOf_cons, if_pos hi]
    · rw [if_neg hi]
      split
      · rw [valuesOf_cons, if_neg hi]
      · rfl

end Log

/-- What was generated, what is pending, and what has been delivered. -/
structure Accounted (generated : List (ℕ × ν)) (p : Pending ν) (delivered : List (ℕ × ν)) :
    Prop where
  realtime : ∀ n, SIGRTMIN ≤ n → valuesOf n delivered ++ p n = valuesOf n generated
  standard : ∀ n < SIGRTMIN, (valuesOf n delivered ++ p n).Sublist (valuesOf n generated)
  length_le : ∀ n < SIGRTMIN, (p n).length ≤ 1

namespace Accounted

variable {generated delivered : List (ℕ × ν)} {p p' : Pending ν} {n : ℕ} {v : ν}

theorem empty : Accounted [] (Pending.empty : Pending ν) [] where
  realtime _ _ := rfl
  standard _ _ := List.Sublist.refl _
  length_le _ _ := Nat.zero_le 1

theorem generate (h : Accounted generated p delivered) (n : ℕ) (v : ν) :
    Accounted (generated ++ [(n, v)]) (p.generate n v) delivered where
  realtime m hm := by
    rw [Pending.generate_realtime hm, valuesOf_concat, ← List.append_assoc, h.realtime m hm]
  standard m hm := by
    rw [valuesOf_concat]
    refine (List.Sublist.append_left (p.generate_sublist n m v) _).trans ?_
    rw [← List.append_assoc]
    exact (h.standard m hm).append_right _
  length_le := Pending.length_generate_le h.length_le n v

theorem length_update_le (h : Accounted generated p delivered) {vs : List ν}
    (hp : p n = v :: vs) : ∀ m < SIGRTMIN, (Function.update p n vs m).length ≤ 1 := by
  intro m hm
  by_cases hmn : m = n
  · subst hmn
    have hle := h.length_le m hm
    rw [hp, List.length_cons] at hle
    rw [Function.update_self]
    omega
  · rw [Function.update_of_ne hmn]
    exact h.length_le m hm

/-- **A delivery moves a signal from the pending ones to the delivered ones.** -/
theorem deliver (h : Accounted generated p delivered) (htake : p.take n = some (v, p')) :
    Accounted generated p' (delivered ++ [(n, v)]) := by
  obtain ⟨vs, hp, rfl⟩ := Pending.take_eq_some htake
  have hsame : ∀ m, valuesOf m (delivered ++ [(n, v)]) ++ Function.update p n vs m =
      valuesOf m delivered ++ p m := by
    intro m
    rw [valuesOf_concat]
    by_cases hmn : m = n
    · subst hmn
      rw [if_pos rfl, Function.update_self, hp, List.append_assoc, List.singleton_append]
    · rw [if_neg hmn, Function.update_of_ne hmn, List.append_nil]
  refine ⟨fun m hm => ?_, fun m hm => ?_, h.length_update_le hp⟩
  · rw [hsame]
    exact h.realtime m hm
  · rw [hsame]
    exact h.standard m hm

/-- A standard signal is taken away and nothing is done about it. -/
theorem discard (h : Accounted generated p delivered) (hn : n < SIGRTMIN)
    (htake : p.take n = some (v, p')) : Accounted generated p' delivered := by
  obtain ⟨vs, hp, rfl⟩ := Pending.take_eq_some htake
  refine ⟨fun m hm => ?_, fun m hm => ?_, h.length_update_le hp⟩
  · rw [Function.update_of_ne (by omega)]
    exact h.realtime m hm
  · refine List.Sublist.trans (List.Sublist.append_left ?_ _) (h.standard m hm)
    by_cases hmn : m = n
    · subst hmn
      rw [Function.update_self, hp]
      exact List.sublist_cons_self v vs
    · rw [Function.update_of_ne hmn]

end Accounted

end Signals
end Foundation
end CodeStrudy
