import CodeStrudy.Foundation.FdTable
import Mathlib.Tactic.IntervalCases

/-!
# Two pipes as standard input and output

`practice/44.1/main.c`: the program makes two pipes and forks.  The child makes the reading end of
`toChild` its standard input and the writing end of `toParent` its standard output, the parent takes
the other two ends, and both close all the descriptors that they do not need.  The numbers that
`pipe` returns are whatever is free.

## What is proved

* `Piped.of_open`, `Piped.apart`: when descriptor 0 is open at the start, the four numbers are apart
  from each other and from 0; a number 1 can only be the first of them.
* `Piped.parent`, `Piped.child`: what the two processes have of the pipes after each of their
  calls, and that 0 and 1 are the right ends after the last one.
* `not_plumbed`: when descriptor 0 is free at the start, the child reads from an end for writing.
-/

namespace CodeStrudy
namespace TwoPipes

open Foundation

/-- `toChild` and `toParent`. -/
inductive Pipe where
  | toChild
  | toParent
  deriving DecidableEq

/-- What a descriptor refers to: an end of a pipe, or what was open before. -/
inductive File where
  | readEnd (p : Pipe)
  | writeEnd (p : Pipe)
  | other (n : ℕ)
  deriving DecidableEq

/-- The descriptors of one of the two processes. -/
abbrev Fds := FdTable File

/-- `int toChild[2]` and `int toParent[2]`. -/
structure Ends where
  toChild : ℕ × ℕ
  toParent : ℕ × ℕ

def STDIN_FILENO : ℕ := 0
def STDOUT_FILENO : ℕ := 1

/-- `pipe`: the numbers of the two ends, and the descriptors with them. -/
def pipe (p : Pipe) (t : Fds) : (ℕ × ℕ) × Fds :=
  let t₁ := t.alloc (.readEnd p)
  ((t.lowestFree, t₁.lowestFree), t₁.alloc (.writeEnd p))

/-- A call by which a process arranges its descriptors. -/
inductive Call where
  | close (fd : ℕ)
  | dup2 (old new : ℕ)
  /-- `if (dup(old) != new) dup2(old, new);` -/
  | dupTo (old new : ℕ)

/-- The descriptors after the call; calls that fail are not noticed. -/
def Call.run : Call → Fds → Fds
  | .close fd, t => t.close fd
  | .dup2 old new, t => t.dup2 old new
  | .dupTo old new, t =>
    match t.get old with
    | none => t
    | some file => if t.lowestFree ≠ new then (t.alloc file).dup2 old new else t.alloc file

/-- The calls of the child before its loop. -/
def childCalls (e : Ends) : List Call :=
  [.close e.toChild.2, .close STDIN_FILENO, .dup2 e.toChild.1 STDIN_FILENO, .close e.toChild.1,
    .close e.toParent.1, .close STDOUT_FILENO, .dupTo e.toParent.2 STDOUT_FILENO,
    .close e.toParent.2]

/-- The calls of the parent before its loop. -/
def parentCalls (e : Ends) : List Call :=
  [.close e.toChild.1, .close STDOUT_FILENO, .dup2 e.toChild.2 STDOUT_FILENO, .close e.toChild.2,
    .close e.toParent.2, .close STDIN_FILENO, .dup2 e.toParent.1 STDIN_FILENO,
    .close e.toParent.1]

/-- The descriptors after some calls. -/
def runCalls (calls : List Call) (t : Fds) : Fds := calls.foldl (fun t c => c.run t) t

/-! ## After the two calls of `pipe` -/

/-- What the two calls of `pipe` leave when descriptor 0 is open. -/
structure Piped (e : Ends) (t : Fds) : Prop where
  toChildRead : t.get e.toChild.1 = some (.readEnd .toChild)
  toChildWrite : t.get e.toChild.2 = some (.writeEnd .toChild)
  toParentRead : t.get e.toParent.1 = some (.readEnd .toParent)
  toParentWrite : t.get e.toParent.2 = some (.writeEnd .toParent)
  zero : ∃ n, t.get 0 = some (.other n)
  one : (∃ n, t.get 1 = some (.other n)) ∨ e.toChild.1 = 1

/-- The descriptors before the program makes the pipes. -/
def before (t : FdTable ℕ) : Fds := t.map (Option.map .other)

/-- The ends of the two pipes. -/
def pipedEnds (t : Fds) : Ends :=
  ⟨(pipe .toChild t).1, (pipe .toParent (pipe .toChild t).2).1⟩

/-- The descriptors after the two calls. -/
def pipedFds (t : Fds) : Fds := (pipe .toParent (pipe .toChild t).2).2

/-- The ends that `pipe` makes. -/
theorem pipe_get (p : Pipe) (t : Fds) :
    (pipe p t).2.get (pipe p t).1.1 = some (.readEnd p) ∧
      (pipe p t).2.get (pipe p t).1.2 = some (.writeEnd p) :=
  ⟨FdTable.get_alloc_of_eq (FdTable.get_alloc_self t _) _, FdTable.get_alloc_self _ _⟩

/-- `pipe` leaves the descriptors that are open. -/
theorem pipe_get_of_eq (p : Pipe) {t : Fds} {m : ℕ} {file : File} (h : t.get m = some file) :
    (pipe p t).2.get m = some file :=
  FdTable.get_alloc_of_eq (FdTable.get_alloc_of_eq h _) _

theorem Piped.of_open {t : FdTable ℕ} (h : t.get 0 ≠ none) :
    Piped (pipedEnds (before t)) (pipedFds (before t)) := by
  have hbefore : ∀ m, (before t).get m = (t.get m).map .other := FdTable.get_map _ t
  have hsome : ∀ {m}, t.get m ≠ none → ∃ n, (before t).get m = some (.other n) := by
    intro m hm
    obtain ⟨n, hn⟩ := Option.ne_none_iff_exists'.mp hm
    exact ⟨n, by rw [hbefore, hn]; rfl⟩
  have hkept : ∀ {m}, t.get m ≠ none → ∃ n, (pipedFds (before t)).get m = some (.other n) := by
    intro m hm
    obtain ⟨n, hn⟩ := hsome hm
    exact ⟨n, pipe_get_of_eq _ (pipe_get_of_eq _ hn)⟩
  obtain ⟨hread, hwrite⟩ := pipe_get .toChild (before t)
  obtain ⟨hread', hwrite'⟩ := pipe_get .toParent (pipe .toChild (before t)).2
  refine ⟨pipe_get_of_eq _ hread, pipe_get_of_eq _ hwrite, hread', hwrite', hkept h, ?_⟩
  by_cases hone : t.get 1 = none
  · refine .inr (FdTable.lowestFree_eq ?_ fun m hm => ?_)
    · rw [hbefore, hone]
      rfl
    · obtain rfl : m = 0 := by omega
      obtain ⟨n, hn⟩ := hsome h
      rw [hn]
      nofun
  · exact .inl (hkept hone)

/-! ## The calls of the two processes -/

namespace Piped

variable {e : Ends} {t : Fds}

/-- The four numbers and 0 are apart from each other, and from 1 but for the first. -/
theorem apart (h : Piped e t) :
    [e.toChild.1, e.toChild.2, e.toParent.1, e.toParent.2, 0].Nodup ∧
      e.toChild.2 ≠ 1 ∧ e.toParent.1 ≠ 1 ∧ e.toParent.2 ≠ 1 := by
  obtain ⟨n, hzero⟩ := h.zero
  have hne : ∀ {m m' : ℕ} {x y : File}, t.get m = some x → t.get m' = some y → x ≠ y → m ≠ m' := by
    rintro m m' x y hx hy hxy rfl
    exact hxy (Option.some.inj (hx.symm.trans hy))
  have hone : ∀ {m : ℕ} {x : File}, t.get m = some x → x ≠ .readEnd .toChild →
      (∀ n, x ≠ .other n) → m ≠ 1 := by
    rintro m x hx hread hother rfl
    rcases h.one with ⟨n, hn⟩ | ha
    · exact hother n (Option.some.inj (hx.symm.trans hn))
    · exact hread (Option.some.inj (hx.symm.trans (ha ▸ h.toChildRead)))
  refine ⟨?_, hone h.toChildWrite nofun nofun, hone h.toParentRead nofun nofun,
    hone h.toParentWrite nofun nofun⟩
  simp only [List.nodup_cons, List.mem_cons, List.not_mem_nil, or_false, not_or, not_false_eq_true,
    List.nodup_nil, and_true]
  exact ⟨⟨hne h.toChildRead h.toChildWrite nofun, hne h.toChildRead h.toParentRead (by decide),
      hne h.toChildRead h.toParentWrite nofun, hne h.toChildRead hzero nofun⟩,
    ⟨hne h.toChildWrite h.toParentRead nofun, hne h.toChildWrite h.toParentWrite (by decide),
      hne h.toChildWrite hzero nofun⟩,
    ⟨hne h.toParentRead h.toParentWrite nofun, hne h.toParentRead hzero nofun⟩,
    hne h.toParentWrite hzero nofun⟩

/-- What the child has after its call of `close(STDOUT_FILENO)`. -/
theorem get_six (h : Piped e t) (m : ℕ) :
    (runCalls ((childCalls e).take 6) t).get m =
      if m = 0 then some (.readEnd .toChild)
      else if m ∈ [1, e.toChild.1, e.toChild.2, e.toParent.1] then none else t.get m := by
  obtain ⟨hnodup, -, -, -⟩ := h.apart
  simp only [List.nodup_cons, List.mem_cons, List.not_mem_nil, or_false, not_or, not_false_eq_true,
    List.nodup_nil, and_true] at hnodup
  obtain ⟨⟨hab, hac, had, ha0⟩, ⟨hbc, hbd, hb0⟩, ⟨hcd, hc0⟩, hd0⟩ := hnodup
  simp only [runCalls, childCalls, List.take_succ_cons, List.take_zero, List.foldl_cons,
    List.foldl_nil, Call.run, FdTable.get_close, FdTable.get_dup2, STDIN_FILENO, STDOUT_FILENO,
    if_neg hab, if_neg ha0, h.toChildRead, List.mem_cons, List.not_mem_nil, or_false]
  by_cases hm : m = 0
  · subst hm
    rw [if_pos rfl, if_pos rfl, if_neg (by decide), if_neg (Ne.symm hc0), if_neg (Ne.symm ha0)]
    rfl
  · rw [if_neg hm, if_neg hm, if_neg hm]
    split_ifs <;> simp_all

/-- The child's `dup` makes descriptor 1. -/
theorem lowestFree_six (h : Piped e t) :
    (runCalls ((childCalls e).take 6) t).lowestFree = 1 := by
  refine FdTable.lowestFree_eq ?_ fun m hm => ?_
  · rw [h.get_six]
    rfl
  · obtain rfl : m = 0 := by omega
    rw [h.get_six]
    nofun

/-- What the child has after its call of `dup`. -/
theorem get_seven (h : Piped e t) (m : ℕ) :
    (runCalls ((childCalls e).take 7) t).get m =
      if m = 1 then some (.writeEnd .toParent)
      else (runCalls ((childCalls e).take 6) t).get m := by
  obtain ⟨hnodup, -, -, hd⟩ := h.apart
  simp only [List.nodup_cons, List.mem_cons, List.not_mem_nil, or_false, not_or, not_false_eq_true,
    List.nodup_nil, and_true] at hnodup
  obtain ⟨⟨-, -, had, -⟩, ⟨-, hbd, -⟩, ⟨hcd, -⟩, hd0⟩ := hnodup
  have hget : (runCalls ((childCalls e).take 6) t).get e.toParent.2 =
      some (.writeEnd .toParent) := by
    rw [h.get_six, if_neg hd0, if_neg, h.toParentWrite]
    simp only [List.mem_cons, List.not_mem_nil, or_false, not_or]
    exact ⟨hd, Ne.symm had, Ne.symm hbd, Ne.symm hcd⟩
  have hrun : runCalls ((childCalls e).take 7) t =
      Call.run (.dupTo e.toParent.2 1) (runCalls ((childCalls e).take 6) t) := rfl
  rw [hrun, Call.run, hget]
  show FdTable.get (if _ then _ else _) m = _
  rw [if_neg (not_not_intro h.lowestFree_six), FdTable.get_alloc, h.lowestFree_six]

/-- What the child has of the pipes after each of its calls. -/
theorem child (h : Piped e t) {n : ℕ} (hn : n ≤ 8) :
    (runCalls ((childCalls e).take n) t).get (if n < 3 then e.toChild.1 else 0) =
        some (.readEnd .toChild) ∧
      (runCalls ((childCalls e).take n) t).get (if n < 7 then e.toParent.2 else 1) =
        some (.writeEnd .toParent) := by
  obtain ⟨hnodup, -, -, hd⟩ := h.apart
  simp only [List.nodup_cons, List.mem_cons, List.not_mem_nil, or_false, not_or, not_false_eq_true,
    List.nodup_nil, and_true] at hnodup
  obtain ⟨⟨hab, hac, had, ha0⟩, ⟨hbc, hbd, hb0⟩, ⟨hcd, hc0⟩, hd0⟩ := hnodup
  have hread := h.toChildRead
  have hwrite := h.toParentWrite
  have h0a := Ne.symm ha0
  have h0c := Ne.symm hc0
  have h0d := Ne.symm hd0
  have hda := Ne.symm had
  have hdb := Ne.symm hbd
  have hdc := Ne.symm hcd
  rcases Nat.lt_or_ge n 7 with hlt | hge
  · interval_cases n <;>
      simp [runCalls, childCalls, Call.run, FdTable.get_close, FdTable.get_dup2, STDIN_FILENO,
        STDOUT_FILENO, *]
  · have hrun : runCalls ((childCalls e).take 8) t =
        (runCalls ((childCalls e).take 7) t).close e.toParent.2 := rfl
    rcases Nat.lt_or_eq_of_le hn with hlt | rfl
    · obtain rfl : n = 7 := by omega
      rw [if_neg (by decide), if_neg (by decide), h.get_seven, h.get_seven]
      exact ⟨(if_neg (by decide)).trans ((h.get_six 0).trans (if_pos rfl)), if_pos rfl⟩
    · rw [if_neg (by decide), if_neg (by decide), hrun, FdTable.get_close, FdTable.get_close,
        if_neg h0d, if_neg (Ne.symm hd), h.get_seven, h.get_seven]
      exact ⟨(if_neg (by decide)).trans ((h.get_six 0).trans (if_pos rfl)), if_pos rfl⟩

/-- What the parent has of the pipes after each of its calls. -/
theorem parent (h : Piped e t) {n : ℕ} (hn : n ≤ 8) :
    (runCalls ((parentCalls e).take n) t).get (if n < 3 then e.toChild.2 else 1) =
        some (.writeEnd .toChild) ∧
      (runCalls ((parentCalls e).take n) t).get (if n < 7 then e.toParent.1 else 0) =
        some (.readEnd .toParent) := by
  obtain ⟨hnodup, hb, hc, hd⟩ := h.apart
  simp only [List.nodup_cons, List.mem_cons, List.not_mem_nil, or_false, not_or, not_false_eq_true,
    List.nodup_nil, and_true] at hnodup
  obtain ⟨⟨hab, hac, had, ha0⟩, ⟨hbc, hbd, hb0⟩, ⟨hcd, hc0⟩, hd0⟩ := hnodup
  have hwrite := h.toChildWrite
  have hread := h.toParentRead
  have h0c := Ne.symm hc0
  have h1b := Ne.symm hb
  have h1c := Ne.symm hc
  have h1d := Ne.symm hd
  have hba := Ne.symm hab
  have hca := Ne.symm hac
  have hcb := Ne.symm hbc
  interval_cases n <;>
    simp [runCalls, parentCalls, Call.run, FdTable.get_close, FdTable.get_dup2, STDIN_FILENO,
      STDOUT_FILENO, *]

end Piped

/-- **Without a standard input.**  The reading end gets the number 0 itself and is closed with it;
`dup` then makes descriptor 0, and the child's standard input is the end that it writes to. -/
theorem not_plumbed {t : FdTable ℕ} (h : t.get 0 = none) :
    (runCalls (childCalls (pipedEnds (before t))) (pipedFds (before t))).get 0 =
      some (.writeEnd .toParent) := by
  have hbefore : ∀ m, (before t).get m = (t.get m).map .other := FdTable.get_map _ t
  have hfree : (before t).lowestFree = 0 :=
    FdTable.lowestFree_eq (by rw [hbefore, h]; rfl) fun m hm => absurd hm (Nat.not_lt_zero m)
  have ha : (pipedEnds (before t)).toChild.1 = 0 := hfree
  obtain ⟨hread, hwrite⟩ := pipe_get .toChild (before t)
  obtain ⟨hread', hwrite'⟩ := pipe_get .toParent (pipe .toChild (before t)).2
  have hd : (pipedFds (before t)).get (pipedEnds (before t)).toParent.2 =
      some (.writeEnd .toParent) := hwrite'
  have hne : ∀ {m : ℕ} {file : File}, (pipedFds (before t)).get m = some file →
      file ≠ .writeEnd .toParent → (pipedEnds (before t)).toParent.2 ≠ m := by
    rintro m file hm hfile rfl
    exact hfile (Option.some.inj (hm.symm.trans hd))
  have hda : (pipedEnds (before t)).toParent.2 ≠ 0 :=
    ha ▸ hne (pipe_get_of_eq _ hread) nofun
  have hdb : (pipedEnds (before t)).toParent.2 ≠ (pipedEnds (before t)).toChild.2 :=
    hne (pipe_get_of_eq _ hwrite) (by decide)
  have hdc : (pipedEnds (before t)).toParent.2 ≠ (pipedEnds (before t)).toParent.1 :=
    hne hread' nofun
  have hd1 : (pipedEnds (before t)).toParent.2 ≠ 1 := by
    cases hone : t.get 1 with
    | some n =>
      have hbefore1 : (before t).get 1 = some (.other n) := by
        rw [hbefore, hone]
        rfl
      exact hne (pipe_get_of_eq _ (pipe_get_of_eq _ hbefore1)) nofun
    | none =>
      -- then the writing end of the first pipe has got the number 1
      have hb : (pipedEnds (before t)).toChild.2 = 1 := by
        refine FdTable.lowestFree_eq ?_ fun m hm => ?_
        · rw [FdTable.get_alloc, hbefore, hone, hfree]
          rfl
        · obtain rfl : m = 0 := by omega
          rw [FdTable.get_alloc, hfree]
          nofun
      exact hb ▸ hdb
  generalize pipedEnds (before t) = e at *
  generalize pipedFds (before t) = fds at *
  have hzero : (runCalls ((childCalls e).take 6) fds).get 0 = none := by
    simp [runCalls, childCalls, Call.run, FdTable.get_close, STDIN_FILENO, STDOUT_FILENO, ha]
  have hget : (runCalls ((childCalls e).take 6) fds).get e.toParent.2 =
      some (.writeEnd .toParent) := by
    simp [runCalls, childCalls, Call.run, FdTable.get_close, FdTable.get_dup2, STDIN_FILENO,
      STDOUT_FILENO, ha, hda, hdb, hdc, hd1, hd]
  have hlowest : (runCalls ((childCalls e).take 6) fds).lowestFree = 0 :=
    FdTable.lowestFree_eq hzero fun m hm => absurd hm (Nat.not_lt_zero m)
  have hrun : runCalls (childCalls e) fds =
      (Call.run (.dupTo e.toParent.2 1) (runCalls ((childCalls e).take 6) fds)).close
        e.toParent.2 := rfl
  rw [hrun, Call.run, hget]
  show FdTable.get (FdTable.close (if _ then _ else _) _) 0 = _
  rw [hlowest, if_pos (by decide), FdTable.get_close, if_neg (Ne.symm hda), FdTable.get_dup2,
    if_neg (by decide), FdTable.get_alloc, hlowest, if_pos rfl]

end TwoPipes
end CodeStrudy
