import CodeStrudy.Environ.Env

/-!
# `myunsetenv`

`practice/6.3/env.c`: the loop looks at each entry and removes it in place if
`(strncmp(*ep, name, len) != 0) && (*ep)[len == '=']`.  The comparison is the wrong way round, so it
is the entries that do not begin with the name that go; and the index is the truth value of
`len == '='`, so the second half only asks whether the entry has a first character, or for a name of
as many characters as the code of `=`, a second one.

## What is proved

* `entries_myunsetenv`: what is left after a call.
* `unset_iff`: this is what should be left exactly if there is no entry for the name and all entries
  begin with the name or are too short for the index.
-/

namespace CodeStrudy
namespace Environ

open Foundation

/-- What a call returns, whether it sets `errno` to `EINVAL`, and the environment after it. -/
structure Result where
  ret : ℤ
  einval : Bool
  environ : PtrArray Entry

/-- The truth value `len == '='`. -/
def index (name : CStr) : ℕ := if name.chars.length = equals.toNat then 1 else 0

/-- `(strncmp(*ep, name, len) != 0) && (*ep)[len == '=']`. -/
def removes (name : CStr) (e : Entry) : Bool :=
  !strncmpEq e.str.chars name.chars name.chars.length && e.charAt (index name) != 0

def myunsetenv (name : Option CStr) (env : PtrArray Entry) : Result :=
  match name with
  | none => ⟨-1, true, env⟩
  | some name =>
    if equals ∈ name.chars then ⟨-1, true, env⟩ else ⟨0, false, env.remove (removes name)⟩

/-- A successful call leaves exactly the entries that are not for the name, in their order. -/
def Unset (name : CStr) (env : PtrArray Entry) (r : Result) : Prop :=
  r.ret = 0 → r.environ.entries = env.entries.filter fun e => e.varName ≠ some name.chars

/-- An entry that the loop goes past. -/
def Spared (name : CStr) (e : Entry) : Prop :=
  name.chars <+: e.str.chars ∨ e.charAt (index name) = 0

instance (name : CStr) (e : Entry) : Decidable (Spared name e) :=
  inferInstanceAs (Decidable (_ ∨ _))

theorem removes_eq_false_iff {name : CStr} {e : Entry} :
    removes name e = false ↔ Spared name e := by
  rw [removes, Bool.and_eq_false_iff, Bool.not_eq_false', strncmpEq_iff, bne_eq_false_iff_eq]
  rfl

/-- The loop removes no entry for the name. -/
theorem spared_of_varName {name : CStr} (h : equals ∉ name.chars) {e : Entry}
    (hvar : e.varName = some name.chars) : Spared name e :=
  .inl ((List.prefix_append _ _).trans ((varName_eq_some_iff h e).mp hvar))

theorem myunsetenv_some {name : CStr} (h : equals ∉ name.chars) (env : PtrArray Entry) :
    myunsetenv (some name) env = ⟨0, false, env.remove (removes name)⟩ :=
  if_neg h

/-- What the loop leaves. -/
theorem entries_myunsetenv {name : CStr} (h : equals ∉ name.chars) (env : PtrArray Entry) :
    (myunsetenv (some name) env).environ.entries =
      env.entries.filter fun e => Spared name e := by
  rw [myunsetenv_some h]
  show (env.remove (removes name)).entries = _
  rw [PtrArray.entries_remove]
  refine List.filter_congr fun e _ => ?_
  rw [Bool.eq_iff_iff, Bool.not_eq_true', removes_eq_false_iff, decide_eq_true_iff]

/-- What the loop leaves is what should be left exactly if nothing should go and nothing does. -/
theorem filter_spared_iff {name : CStr} (h : equals ∉ name.chars) (es : List Entry) :
    (es.filter fun e => Spared name e) = (es.filter fun e => e.varName ≠ some name.chars) ↔
      ∀ e ∈ es, e.varName ≠ some name.chars ∧ Spared name e := by
  rw [filter_eq_filter_iff]
  refine forall₂_congr fun e _ => ?_
  rw [Bool.eq_iff_iff, decide_eq_true_iff, decide_eq_true_iff]
  constructor
  · intro hiff
    have hvar : e.varName ≠ some name.chars := fun hvar =>
      hiff.mp (spared_of_varName h hvar) hvar
    exact ⟨hvar, hiff.mpr hvar⟩
  · exact fun ⟨hvar, hspared⟩ => iff_of_true hspared hvar

/-- **What `myunsetenv` removes.**  A call removes the entries for the name and no others exactly if
the environment has none for it and the loop goes past all that it has. -/
theorem unset_iff {name : CStr} (h : equals ∉ name.chars) (env : PtrArray Entry) :
    Unset name env (myunsetenv (some name) env) ↔
      ∀ e ∈ env.entries, e.varName ≠ some name.chars ∧ Spared name e := by
  rw [← filter_spared_iff h, ← entries_myunsetenv h]
  refine ⟨fun hunset => hunset ?_, fun heq _ => heq⟩
  rw [myunsetenv_some h]

/-- The name `A` and an environment that holds only `AB=1`. -/
theorem unset_of_extension :
    let name : CStr := ⟨[0x41], by decide⟩
    let env : PtrArray Entry := .ofList [⟨⟨[0x41, 0x42, 0x3d, 0x31], by decide⟩, 0⟩]
    Unset name env (myunsetenv (some name) env) ↔
      ∀ e ∈ env.entries, e.varName ≠ some name.chars ∧ Spared name e :=
  unset_iff (by decide) _

/-- The name `A` and an environment that holds only `B=1`, which the call removes. -/
theorem unset_removes_other : ¬ ∀ (name : CStr) (env : PtrArray Entry), equals ∉ name.chars →
    Unset name env (myunsetenv (some name) env) := by
  intro h
  have hname : equals ∉ (⟨[0x41], by decide⟩ : CStr).chars := by decide
  have heq := h ⟨[0x41], by decide⟩ (.ofList [⟨⟨[0x42, 0x3d, 0x31], by decide⟩, 0⟩]) hname
    (by rw [myunsetenv_some hname])
  rw [entries_myunsetenv hname, filter_spared_iff hname] at heq
  revert heq
  decide

end Environ
end CodeStrudy
