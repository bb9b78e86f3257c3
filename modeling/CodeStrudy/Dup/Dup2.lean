import Mathlib.Data.Int.Notation
import Mathlib.Data.Nat.Notation
import Mathlib.Logic.Function.Basic

/-!
# `dup2` made from `close` and `fcntl`

`practice/5.4/mydup.c`: with two equal arguments `mydup2` asks with `F_GETFL` whether the descriptor
is open, and takes any answer but zero for a yes; otherwise it closes `newfd` and duplicates `oldfd`
to the lowest free descriptor from `newfd` on.

The system calls are given here on the table of one process: which open file description each
descriptor refers to, with its close-on-exec flag, and the status flags of each description.

## What is proved

* `dup2_get`: what every descriptor refers to after `dup2`.
* `refines_iff`: `mydup2` does what `dup2` does exactly in the cases named there.  It fails to
  when a descriptor that is not open is given twice, when the status flags are all zero, when it has
  closed a descriptor before it finds the other one not open, and when `newfd` is out of range. -/

namespace CodeStrudy
namespace Dup

/-! ## The descriptors of a process -/

/-- A descriptor: which open file description it refers to, and its close-on-exec flag. -/
structure Descriptor where
  description : ℕ
  cloexec : Bool
  deriving DecidableEq

/-- The open descriptors, the limit on new ones, and the status flags of each description. -/
structure Table where
  fd : ℕ → Option Descriptor
  limit : ℕ
  flags : ℕ → ℕ

inductive Errno where
  | EBADF
  | EINVAL
  | EMFILE
  deriving DecidableEq

/-- What a call returns, the `errno` it sets, if it sets one, and the table after it. -/
structure Result where
  ret : ℤ
  errno : Option Errno
  table : Table

/-- What a descriptor given as an `int` refers to. -/
def Table.get (t : Table) (fd : ℤ) : Option Descriptor :=
  if 0 ≤ fd then t.fd fd.toNat else none

/-- Descriptor `n` refers to `d` from now on, or to nothing. -/
def Table.set (t : Table) (n : ℕ) (d : Option Descriptor) : Table :=
  { t with fd := Function.update t.fd n d }

/-- A number that a new descriptor may have. -/
def Table.InRange (t : Table) (fd : ℤ) : Prop := 0 ≤ fd ∧ fd < t.limit

instance (t : Table) (fd : ℤ) : Decidable (t.InRange fd) := inferInstanceAs (Decidable (_ ∧ _))

/-- The lowest free descriptor from `n` on. -/
def Table.lowestFree (t : Table) (n : ℕ) : Option ℕ :=
  (List.range' n (t.limit - n)).find? fun j => (t.fd j).isNone

/-! ## The system calls -/

def close (fd : ℤ) (t : Table) : Result :=
  match t.get fd with
  | none => ⟨-1, some .EBADF, t⟩
  | some _ => ⟨0, none, t.set fd.toNat none⟩

/-- `fcntl(fd, F_GETFL)` -/
def getfl (fd : ℤ) (t : Table) : Result :=
  match t.get fd with
  | none => ⟨-1, some .EBADF, t⟩
  | some d => ⟨t.flags d.description, none, t⟩

/-- `fcntl(fd, F_DUPFD, arg)` -/
def dupfd (fd arg : ℤ) (t : Table) : Result :=
  match t.get fd with
  | none => ⟨-1, some .EBADF, t⟩
  | some d =>
    if t.InRange arg then
      match t.lowestFree arg.toNat with
      | none => ⟨-1, some .EMFILE, t⟩
      | some n => ⟨n, none, t.set n (some ⟨d.description, false⟩)⟩
    else ⟨-1, some .EINVAL, t⟩

/-- `dup2` as its manual page describes it. -/
def dup2 (oldfd newfd : ℤ) (t : Table) : Result :=
  match t.get oldfd with
  | none => ⟨-1, some .EBADF, t⟩
  | some d =>
    if oldfd = newfd then ⟨newfd, none, t⟩
    else if t.InRange newfd then ⟨newfd, none, t.set newfd.toNat (some ⟨d.description, false⟩)⟩
    else ⟨-1, some .EBADF, t⟩

/-! ## `mydup.c` -/

def mydup2 (oldfd newfd : ℤ) (t : Table) : Result :=
  if oldfd = newfd then
    if (getfl oldfd t).ret ≠ 0 then ⟨newfd, (getfl oldfd t).errno, t⟩ else ⟨-1, some .EBADF, t⟩
  else dupfd oldfd newfd (close newfd t).table

/-- Two calls come out the same: what they return, for a failure what is in `errno`, and the
table. -/
def Agree (r r' : Result) : Prop :=
  r.ret = r'.ret ∧ (r.ret = -1 → r.errno = r'.errno) ∧ r.table = r'.table

/-! ## What the calls do -/

section

variable {t : Table} {fd oldfd newfd : ℤ} {d : Descriptor}

theorem nonneg_of_get (h : t.get fd = some d) : 0 ≤ fd :=
  by_contra fun hneg => Option.some_ne_none d (h.symm.trans (if_neg hneg))

/-- A change of one descriptor leaves what the others refer to. -/
theorem get_set (t : Table) (n : ℕ) (x : Option Descriptor) (fd : ℤ) :
    (t.set n x).get fd = if fd = n then x else t.get fd := by
  unfold Table.get Table.set
  by_cases hfd : 0 ≤ fd
  · have hn : fd.toNat = n ↔ fd = n := by omega
    rw [if_pos hfd, if_pos hfd]
    simp only [Function.update_apply, hn]
  · rw [if_neg hfd, if_neg hfd, if_neg (by omega)]

theorem set_set (t : Table) (n : ℕ) (x y : Option Descriptor) :
    (t.set n x).set n y = t.set n y := by
  unfold Table.set
  rw [Function.update_idem]

/-- A descriptor that is free is the lowest free one from itself on. -/
theorem lowestFree_of_free {n : ℕ} (hfree : t.fd n = none) (hlt : n < t.limit) :
    t.lowestFree n = some n := by
  obtain ⟨k, hk⟩ : ∃ k, t.limit - n = k + 1 := ⟨t.limit - n - 1, by omega⟩
  rw [Table.lowestFree, hk, List.range'_succ, List.find?_cons_of_pos]
  rw [hfree]
  rfl

/-- `close` leaves every other descriptor, and the limit. -/
theorem get_close (hne : fd ≠ newfd) (t : Table) : (close newfd t).table.get fd = t.get fd := by
  unfold close
  split
  · rfl
  · rename_i d hd
    show (t.set newfd.toNat none).get fd = _
    rw [get_set, Int.toNat_of_nonneg (nonneg_of_get hd), if_neg hne]

theorem get_close_self (t : Table) (fd : ℤ) : (close fd t).table.get fd = none := by
  unfold close
  split
  · rename_i h
    exact h
  · rename_i d hd
    show (t.set fd.toNat none).get fd = _
    rw [get_set, Int.toNat_of_nonneg (nonneg_of_get hd), if_pos rfl]

theorem limit_close (t : Table) (fd : ℤ) : (close fd t).table.limit = t.limit := by
  unfold close
  split <;> rfl

/-- `close` changes the table unless the descriptor is not open. -/
theorem table_close_iff : (close fd t).table = t ↔ t.get fd = none := by
  refine ⟨fun h => ?_, fun h => ?_⟩
  · rw [← h]
    exact get_close_self t fd
  · rw [close, h]

/-- Setting a descriptor that was closed just before. -/
theorem set_close (fd : ℤ) (t : Table) (x : Option Descriptor) :
    (close fd t).table.set fd.toNat x = t.set fd.toNat x := by
  unfold close
  split
  · rfl
  · exact set_set t _ _ _

/-- After `dup2` the new descriptor refers to the description of the old one, and every other to
what it referred to. -/
theorem dup2_get (hne : oldfd ≠ newfd) (hold : t.get oldfd = some d) (hrange : t.InRange newfd)
    (fd : ℤ) : (dup2 oldfd newfd t).table.get fd =
      if fd = newfd then some ⟨d.description, false⟩ else t.get fd := by
  rw [dup2, hold]
  show (if oldfd = newfd then (⟨newfd, none, t⟩ : Result)
    else if t.InRange newfd then _ else _).table.get fd = _
  rw [if_neg hne, if_pos hrange]
  show (t.set newfd.toNat _).get fd = _
  rw [get_set, Int.toNat_of_nonneg hrange.1]

/-! ## The cases of `mydup2` -/

theorem dupfd_of_none (h : t.get fd = none) (arg : ℤ) :
    dupfd fd arg t = ⟨-1, some .EBADF, t⟩ := by
  rw [dupfd, h]

theorem dupfd_of_notInRange (h : t.get fd = some d) {arg : ℤ} (hrange : ¬ t.InRange arg) :
    dupfd fd arg t = ⟨-1, some .EINVAL, t⟩ := by
  simp only [dupfd, h, if_neg hrange]

theorem dupfd_of_free (h : t.get fd = some d) {arg : ℤ} (hrange : t.InRange arg)
    (hfree : t.get arg = none) :
    dupfd fd arg t = ⟨arg, none, t.set arg.toNat (some ⟨d.description, false⟩)⟩ := by
  have hfd : t.fd arg.toNat = none := (if_pos hrange.1).symm.trans hfree
  have hlt : arg.toNat < t.limit := by
    obtain ⟨hpos, hlt⟩ := hrange
    omega
  simp only [dupfd, h, if_pos hrange, lowestFree_of_free hfd hlt, Int.toNat_of_nonneg hrange.1]

/-- One descriptor given twice. -/
theorem agree_self_iff (fd : ℤ) (t : Table) : Agree (mydup2 fd fd t) (dup2 fd fd t) ↔
    fd = -1 ∨ ∃ d, t.get fd = some d ∧ t.flags d.description ≠ 0 := by
  cases hget : t.get fd with
  | none =>
    have himpl : mydup2 fd fd t = ⟨fd, some .EBADF, t⟩ := by
      simp [mydup2, getfl, hget]
    have hspec : dup2 fd fd t = ⟨-1, some .EBADF, t⟩ := by rw [dup2, hget]
    rw [himpl, hspec, or_iff_left (by rintro ⟨d, hd, -⟩; cases hd)]
    exact ⟨fun h => h.1, fun h => ⟨h, fun _ => rfl, rfl⟩⟩
  | some d =>
    have hpos := nonneg_of_get hget
    have hspec : dup2 fd fd t = ⟨fd, none, t⟩ := by simp [dup2, hget]
    rw [hspec, or_iff_right (by omega)]
    by_cases hflags : t.flags d.description = 0
    · have himpl : mydup2 fd fd t = ⟨-1, some .EBADF, t⟩ := by simp [mydup2, getfl, hget, hflags]
      rw [himpl]
      refine iff_of_false (fun h => ?_) ?_
      · have hret : -1 = fd := h.1
        omega
      · rintro ⟨d', hd', hne⟩
        exact hne (Option.some.inj hd' ▸ hflags)
    · have himpl : mydup2 fd fd t = ⟨fd, none, t⟩ := by simp [mydup2, getfl, hget, hflags]
      rw [himpl]
      exact iff_of_true ⟨rfl, fun _ => rfl, rfl⟩ ⟨d, rfl, hflags⟩

/-- Two descriptors, the old one open. -/
theorem agree_of_open_iff (hne : oldfd ≠ newfd) (hold : t.get oldfd = some d) :
    Agree (mydup2 oldfd newfd t) (dup2 oldfd newfd t) ↔ t.InRange newfd := by
  have hopen : (close newfd t).table.get oldfd = some d := (get_close hne t).trans hold
  have hlimit : (close newfd t).table.InRange newfd ↔ t.InRange newfd := by
    unfold Table.InRange
    rw [limit_close]
  rw [mydup2, if_neg hne]
  by_cases hrange : t.InRange newfd
  · have hspec : dup2 oldfd newfd t =
        ⟨newfd, none, t.set newfd.toNat (some ⟨d.description, false⟩)⟩ := by
      simp only [dup2, hold, if_neg hne, if_pos hrange]
    rw [dupfd_of_free hopen (hlimit.mpr hrange) (get_close_self t newfd), set_close, hspec]
    exact iff_of_true ⟨rfl, fun _ => rfl, rfl⟩ hrange
  · have hspec : dup2 oldfd newfd t = ⟨-1, some .EBADF, t⟩ := by
      simp only [dup2, hold, if_neg hne, if_neg hrange]
    rw [dupfd_of_notInRange hopen fun h => hrange (hlimit.mp h), hspec]
    exact iff_of_false (fun h => nomatch h.2.1 rfl) hrange

/-- Two descriptors, the old one not open. -/
theorem agree_of_closed_iff (hne : oldfd ≠ newfd) (hold : t.get oldfd = none) :
    Agree (mydup2 oldfd newfd t) (dup2 oldfd newfd t) ↔ t.get newfd = none := by
  have hspec : dup2 oldfd newfd t = ⟨-1, some .EBADF, t⟩ := by rw [dup2, hold]
  rw [mydup2, if_neg hne, dupfd_of_none ((get_close hne t).trans hold), hspec, ← table_close_iff]
  exact ⟨fun h => h.2.2, fun h => ⟨rfl, fun _ => rfl, h⟩⟩

end

/-- **When `mydup2` is `dup2`.**  With one descriptor given twice: it is open and its status flags
are not all zero, or it is -1.  With two: the old one is open and the new one in range, or neither
is open. -/
theorem refines_iff (oldfd newfd : ℤ) (t : Table) :
    Agree (mydup2 oldfd newfd t) (dup2 oldfd newfd t) ↔
      (oldfd = newfd ∧
        (oldfd = -1 ∨ ∃ d, t.get oldfd = some d ∧ t.flags d.description ≠ 0)) ∨
      (oldfd ≠ newfd ∧ (t.get oldfd).isSome ∧ t.InRange newfd) ∨
      (oldfd ≠ newfd ∧ t.get oldfd = none ∧ t.get newfd = none) := by
  by_cases heq : oldfd = newfd
  · subst heq
    simp [agree_self_iff]
  · cases hold : t.get oldfd with
    | none => simp [agree_of_closed_iff heq hold, heq]
    | some d => simp [agree_of_open_iff heq hold, heq]

/-- Descriptor 5 is not open and is given twice: `mydup2` returns it. -/
theorem not_refines : ¬ ∀ (oldfd newfd : ℤ) (t : Table),
    Agree (mydup2 oldfd newfd t) (dup2 oldfd newfd t) := by
  intro h
  have hret := (h 5 5 ⟨fun _ => none, 1024, fun _ => 0⟩).1
  revert hret
  decide

end Dup
end CodeStrudy
