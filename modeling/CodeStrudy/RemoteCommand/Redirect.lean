import CodeStrudy.Dup.Dup2
import CodeStrudy.Foundation.Loop

/-!
# The client's socket as standard input and output

Before the server's child reads a command it makes its descriptors 0 and 1 refer to the client's
socket: it closes the descriptor and duplicates the socket, and if the duplicate has another number
it calls `dup2` until that succeeds.  When the socket has the number 0 or 1 itself, the child has
closed its last descriptor for it, and `dup2` fails for ever.

## What is proved

* `not_redirected`, `exists_redirected`: when one of the two redirections comes to an end, and what
  it leaves.
* `redirects_iff`: the two of them, on every table of descriptors.
-/

namespace CodeStrudy
namespace RemoteCommand

open Foundation Dup

/-- `dup` as its manual page describes it: the lowest free descriptor. -/
def dup (oldfd : ℤ) (t : Table) : Result := dupfd oldfd 0 t

/-- `while (dup2(cfd, newfd) == -1)` -/
def retry (cfd newfd : ℤ) (t : Table) : Table ⊕ Table :=
  let call := dup2 cfd newfd t
  if call.ret = -1 then .inl call.table else .inr call.table

/-- One redirection, if its loop is left within the given number of passes. -/
def redirect (fuel : ℕ) (cfd newfd : ℤ) (t : Table) : Option Table :=
  let call := dup cfd (close newfd t).table
  if call.ret ≠ newfd then Loop.runFor (retry cfd newfd) fuel call.table else some call.table

/-- The redirection comes to an end and leaves the table `t'`. -/
def Redirected (cfd newfd : ℤ) (t t' : Table) : Prop := ∃ fuel, redirect fuel cfd newfd t = some t'

/-- The open file description that a descriptor refers to. -/
def description (t : Table) (fd : ℤ) : Option ℕ := (t.get fd).map Descriptor.description

/-- The part of `data` before it reads comes to an end, and standard input and output are the
client's socket. -/
def Redirects (cfd : ℤ) (t : Table) : Prop :=
  ∃ t₁ t₂, Redirected cfd 0 t t₁ ∧ Redirected cfd 1 t₁ t₂ ∧
    description t₂ 0 = description t cfd ∧ description t₂ 1 = description t cfd

variable {t : Table} {cfd newfd : ℤ} {d : Descriptor}

/-- `dup` fails and changes nothing, or takes a free descriptor. -/
theorem dup_cases (h : t.get cfd = some d) :
    ((dup cfd t).ret = -1 ∧ (dup cfd t).table = t) ∨
      ∃ n : ℕ, n < t.limit ∧ t.get n = none ∧ (dup cfd t).ret = n ∧
        (dup cfd t).table = t.set n (some ⟨d.description, false⟩) := by
  unfold dup
  by_cases hrange : t.InRange 0
  · cases hfree : t.lowestFree 0 with
    | none =>
      have hdup : dupfd cfd 0 t = ⟨-1, some .EMFILE, t⟩ := by
        simp only [dupfd, h, if_pos hrange, Int.toNat_zero, hfree]
      rw [hdup]
      exact .inl ⟨rfl, rfl⟩
    | some n =>
      have hdup : dupfd cfd 0 t = ⟨n, none, t.set n (some ⟨d.description, false⟩)⟩ := by
        simp only [dupfd, h, if_pos hrange, Int.toNat_zero, hfree]
      have hmem := List.mem_range'_1.mp (List.mem_of_find?_eq_some hfree)
      have hnone := List.find?_some hfree
      rw [hdup]
      refine .inr ⟨n, by omega, ?_, rfl, rfl⟩
      rw [Table.get, if_pos (Int.natCast_nonneg n), Int.toNat_natCast]
      exact Option.isNone_iff_eq_none.mp hnone
  · rw [dupfd_of_notInRange h hrange]
    exact .inl ⟨rfl, rfl⟩

theorem limit_dup (h : t.get cfd = some d) : (dup cfd t).table.limit = t.limit := by
  rcases dup_cases h with ⟨-, ht⟩ | ⟨n, -, -, -, ht⟩
  · rw [ht]
  · rw [ht]
    rfl

/-- `dup` leaves the descriptors that are open. -/
theorem get_dup (h : t.get cfd = some d) {fd : ℤ} (hfd : t.get fd ≠ none) :
    (dup cfd t).table.get fd = t.get fd := by
  rcases dup_cases h with ⟨-, ht⟩ | ⟨n, -, hfree, -, ht⟩
  · rw [ht]
  · rw [ht, get_set, if_neg]
    rintro rfl
    exact hfd hfree

/-! ## One redirection -/

/-- When `dup2` fails, the loop around it is never left. -/
theorem runFor_retry_of_fails (h : dup2 cfd newfd t = ⟨-1, some .EBADF, t⟩) (fuel : ℕ) :
    Loop.runFor (retry cfd newfd) fuel t = none := by
  have hfixed : retry cfd newfd t = .inl t := by
    rw [retry, h]
    rfl
  exact Option.eq_none_iff_forall_ne_some.mpr fun r hr =>
    Loop.not_returns_of_fixed hfixed ⟨r, fuel, hr⟩

/-- The socket has the number that is to be redirected: its last descriptor is closed. -/
theorem redirect_self (t : Table) (cfd : ℤ) (h : 0 ≤ cfd) (fuel : ℕ) :
    redirect fuel cfd cfd t = none := by
  have hclosed := get_close_self t cfd
  have hdup : dup cfd (close cfd t).table = ⟨-1, some .EBADF, (close cfd t).table⟩ :=
    dupfd_of_none hclosed 0
  have hfails : dup2 cfd cfd (close cfd t).table = ⟨-1, some .EBADF, (close cfd t).table⟩ := by
    rw [dup2, hclosed]
  rw [redirect, hdup]
  show (if (-1 : ℤ) ≠ cfd then _ else _) = none
  rw [if_pos (by omega)]
  exact runFor_retry_of_fails hfails fuel

/-- The number is out of range. -/
theorem redirect_of_notInRange (h : t.get cfd = some d) (hne : cfd ≠ newfd) (hpos : 0 ≤ newfd)
    (hrange : ¬ t.InRange newfd) (fuel : ℕ) : redirect fuel cfd newfd t = none := by
  have hopen : (close newfd t).table.get cfd = some d := (get_close hne t).trans h
  have hfails : dup2 cfd newfd (dup cfd (close newfd t).table).table =
      ⟨-1, some .EBADF, (dup cfd (close newfd t).table).table⟩ := by
    have hkept := (get_dup hopen (hopen ▸ Option.some_ne_none d)).trans hopen
    have hout : ¬ (dup cfd (close newfd t).table).table.InRange newfd := by
      rwa [Table.InRange, limit_dup hopen, limit_close]
    simp only [dup2, hkept, if_neg hne, if_neg hout]
  have hret : (dup cfd (close newfd t).table).ret ≠ newfd := by
    rcases dup_cases hopen with ⟨hret, -⟩ | ⟨n, hlt, -, hret, -⟩
    · omega
    · rw [hret]
      rintro rfl
      rw [limit_close] at hlt
      exact hrange ⟨hpos, by omega⟩
  rw [redirect, if_pos hret]
  exact runFor_retry_of_fails hfails fuel

/-- In neither case the redirection comes to an end. -/
theorem not_redirected (h : t.get cfd = some d) (hpos : 0 ≤ newfd)
    (hnot : cfd = newfd ∨ ¬ t.InRange newfd) (t' : Table) : ¬ Redirected cfd newfd t t' := by
  rintro ⟨fuel, hrun⟩
  have hnone : redirect fuel cfd newfd t = none := by
    by_cases hne : cfd = newfd
    · exact hne ▸ redirect_self t cfd (hne ▸ hpos) fuel
    · exact redirect_of_notInRange h hne hpos (hnot.resolve_left hne) fuel
  rw [hnone] at hrun
  cases hrun

/-- Otherwise it comes to an end: the number refers to the socket, and the other descriptors that
were open to what they referred to. -/
theorem exists_redirected (h : t.get cfd = some d) (hne : cfd ≠ newfd) (hrange : t.InRange newfd) :
    ∃ t', (∀ r, Redirected cfd newfd t r ↔ r = t') ∧ t'.limit = t.limit ∧
      description t' newfd = some d.description ∧
      ∀ fd, fd ≠ newfd → t.get fd ≠ none → t'.get fd = t.get fd := by
  have hopen : (close newfd t).table.get cfd = some d := (get_close hne t).trans h
  have hkeeps : ∀ fd, fd ≠ newfd → t.get fd ≠ none →
      (dup cfd (close newfd t).table).table.get fd = t.get fd := by
    intro fd hfd hfd'
    rw [← get_close hfd t] at hfd' ⊢
    exact get_dup hopen hfd'
  have hlimit : (dup cfd (close newfd t).table).table.limit = t.limit := by
    rw [limit_dup hopen, limit_close]
  by_cases hret : (dup cfd (close newfd t).table).ret = newfd
  · -- the duplicate has the right number
    refine ⟨(dup cfd (close newfd t).table).table, fun r => ?_, hlimit, ?_, hkeeps⟩
    · simp only [Redirected, redirect, if_neg (not_not_intro hret)]
      exact exists_const ℕ |>.trans (Option.some_inj.trans eq_comm)
    · rcases dup_cases hopen with ⟨hfails, -⟩ | ⟨n, -, -, hn, ht⟩
      · have hpos := hrange.1
        omega
      · rw [description, ht, get_set, if_pos (hret.symm.trans hn)]
        rfl
  · -- `dup2` gives it the right number
    have hkept := (hkeeps cfd hne (h ▸ Option.some_ne_none d)).trans h
    have hin : (dup cfd (close newfd t).table).table.InRange newfd := by
      rwa [Table.InRange, hlimit]
    refine ⟨(dup2 cfd newfd (dup cfd (close newfd t).table).table).table, fun r => ?_, ?_, ?_, ?_⟩
    · simp only [Redirected, redirect, if_pos hret]
      refine Loop.returns_inr_iff ?_
      have hsucceeds : (dup2 cfd newfd (dup cfd (close newfd t).table).table).ret ≠ -1 := by
        have hpos := hrange.1
        simp only [dup2, hkept, if_neg hne, if_pos hin]
        omega
      rw [retry, if_neg hsucceeds]
    · rw [← hlimit]
      simp only [dup2, hkept, if_neg hne, if_pos hin]
      rfl
    · rw [description, dup2_get hne hkept hin, if_pos rfl]
      rfl
    · intro fd hfd hfd'
      rw [dup2_get hne hkept hin, if_neg hfd]
      exact hkeeps fd hfd hfd'

/-! ## Both redirections -/

/-- **The redirection to the client's socket.**  The child comes to its `read` with the socket as
standard input and output exactly if the socket is neither 0 nor 1, and the process may have two
descriptors. -/
theorem redirects_iff (h : t.get cfd = some d) :
    Redirects cfd t ↔ cfd ≠ 0 ∧ cfd ≠ 1 ∧ 2 ≤ t.limit := by
  by_cases hzero : cfd = 0 ∨ ¬ t.InRange 0
  · refine iff_of_false ?_ ?_
    · rintro ⟨t₁, t₂, hrun, -⟩
      exact not_redirected h (Int.le_refl 0) hzero t₁ hrun
    · rintro ⟨hne, -, hlimit⟩
      exact hzero.elim hne fun hrange => hrange ⟨Int.le_refl 0, by omega⟩
  · rw [not_or, not_not] at hzero
    obtain ⟨t₁, hrun₁, hlimit₁, hstdin, hkeeps₁⟩ := exists_redirected h hzero.1 hzero.2
    have h₁ : t₁.get cfd = some d :=
      (hkeeps₁ cfd hzero.1 (h ▸ Option.some_ne_none d)).trans h
    by_cases hone : cfd = 1 ∨ ¬ t₁.InRange 1
    · refine iff_of_false ?_ ?_
      · rintro ⟨t', t₂, hfirst, hsecond, -⟩
        rw [(hrun₁ t').mp hfirst] at hsecond
        exact not_redirected h₁ (by omega) hone t₂ hsecond
      · rintro ⟨-, hne, hlimit⟩
        exact hone.elim hne fun hrange => hrange ⟨by omega, by omega⟩
    · rw [not_or, not_not] at hone
      obtain ⟨t₂, hrun₂, -, hstdout, hkeeps₂⟩ := exists_redirected h₁ hone.1 hone.2
      have hlimit : 2 ≤ t.limit := by
        have := hone.2.2
        omega
      have hsocket : description t cfd = some d.description := by
        rw [description, h]
        rfl
      refine iff_of_true ⟨t₁, t₂, (hrun₁ t₁).mpr rfl, (hrun₂ t₂).mpr rfl, ?_, ?_⟩
        ⟨hzero.1, hone.1, hlimit⟩
      · -- the second redirection leaves standard input
        have hopen : t₁.get 0 ≠ none := by
          intro hnone
          rw [description, hnone] at hstdin
          cases hstdin
        rw [hsocket, ← hstdin, description, hkeeps₂ 0 (by omega) hopen]
        rfl
      · rw [hsocket, hstdout]

/-- With the descriptors 1, 2 and 5 open the socket 5 is redirected. -/
theorem redirects_five :
    Redirects 5 ⟨fun n => if n = 1 ∨ n = 2 ∨ n = 5 then some ⟨n, false⟩ else none, 1024,
      fun _ => 0⟩ :=
  (redirects_iff (d := ⟨5, false⟩) (by decide)).mpr (by decide)

/-- A socket that got the number 0, because standard input was closed. -/
theorem not_redirects : ¬ ∀ (cfd : ℤ) (t : Table), t.get cfd ≠ none → Redirects cfd t := by
  intro h
  have hget : (⟨fun n => if n = 0 then some ⟨7, false⟩ else none, 1024, fun _ => 0⟩ : Table).get 0 =
      some ⟨7, false⟩ := by decide
  obtain ⟨t₁, -, hrun, -⟩ := h 0 _ (hget ▸ Option.some_ne_none _)
  exact not_redirected hget (Int.le_refl 0) (.inl rfl) t₁ hrun

end RemoteCommand
end CodeStrudy
