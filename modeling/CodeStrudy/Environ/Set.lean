import CodeStrudy.Environ.Unset
import CodeStrudy.Foundation.CInt

/-!
# `mysetenv`

`practice/6.3/env.c`: unless the variable is set and is not to be overwritten, the old definitions
are removed with `myunsetenv`, and then the new one is built and put in.  What `myunsetenv` does to
the entries of other variables it does before the call can still fail.

## What is proved

* `sets_iff`: a successful call sets the variable and leaves the others exactly if nothing is to be
  done or every other variable that is set has a name that begins with this one.
* `atomic_iff`: a failed call leaves the environment exactly if it failed before `myunsetenv`, or
  `myunsetenv` had nothing to remove.
-/

namespace CodeStrudy
namespace Environ

open Foundation

/-- The string `name=value`, in the block that `malloc` returned. -/
def newEntry (name value : CStr) (next : UInt8) : Entry where
  str :=
    { chars := name.chars ++ equals :: value.chars
      zero_notMem := by
        rw [List.mem_append, List.mem_cons, not_or, not_or]
        exact ⟨name.zero_notMem, by decide, value.zero_notMem⟩ }
  next := next

/-- The variable is set and is not to be overwritten: the call has nothing to do. -/
def Keeps (name : CStr) (overwrite : CInt) (env : PtrArray Entry) : Prop :=
  getenv env name.chars ≠ none ∧ overwrite = 0

instance (name : CStr) (overwrite : CInt) (env : PtrArray Entry) :
    Decidable (Keeps name overwrite env) :=
  inferInstanceAs (Decidable (_ ∧ _))

/-- A call, and how `malloc` and `putenv` come out if they are called; `next` is the byte behind the
block. -/
def mysetenv (name value : Option CStr) (overwrite : CInt) (mallocOk putenvOk : Bool)
    (next : UInt8) (env : PtrArray Entry) : Result :=
  match name, value with
  | some name, some value =>
    if equals ∈ name.chars then ⟨-1, true, env⟩
    else if Keeps name overwrite env then ⟨0, false, env⟩
    else if !mallocOk then ⟨-1, false, (myunsetenv (some name) env).environ⟩
    else if putenvOk then
      ⟨0, false, putenv (newEntry name value next) (myunsetenv (some name) env).environ⟩
    else ⟨-1, false, (myunsetenv (some name) env).environ⟩
  | _, _ => ⟨-1, true, env⟩

/-- After a successful call the variable has the value it should have, and every other has the value
it had. -/
def Sets (name value : CStr) (overwrite : CInt) (env : PtrArray Entry) (r : Result) : Prop :=
  r.ret = 0 →
    getenv r.environ name.chars =
      (if overwrite ≠ 0 ∨ getenv env name.chars = none then some value.chars
        else getenv env name.chars) ∧
    ∀ n, IsName n → n ≠ name.chars → getenv r.environ n = getenv env n

/-- After a failed call the environment is what it was. -/
def Atomic (env : PtrArray Entry) (r : Result) : Prop := r.ret = -1 → r.environ = env

/-! ## The variables after `myunsetenv` -/

/-- An entry for another name is gone past exactly if that name begins with the name. -/
theorem spared_iff_of_varName {name : CStr} (h : equals ∉ name.chars) {n : List UInt8}
    (hn : IsName n) {e : Entry} (hvar : e.varName = some n) :
    Spared name e ↔ name.chars <+: n := by
  rw [Spared, isPrefix_iff_of_varName h hn.2 hvar]
  refine or_iff_left fun hzero => ?_
  -- the name and its `=` are at least two characters
  have hle := ((varName_eq_some_iff hn.2 e).mp hvar).length_le
  have hpos : 0 < n.length := List.length_pos_iff.mpr hn.1
  have hindex : index name ≤ 1 := by
    unfold index
    split <;> omega
  rw [List.length_append, List.length_singleton] at hle
  exact absurd hzero (e.charAt_ne_zero (by omega))

theorem getenv_myunsetenv_of_isPrefix {name : CStr} (h : equals ∉ name.chars) {n : List UInt8}
    (hn : IsName n) (hle : name.chars <+: n) (env : PtrArray Entry) :
    getenv (myunsetenv (some name) env).environ n = getenv env n := by
  rw [getenv, getenv, if_neg hn.1, if_neg hn.1, entries_myunsetenv h]
  refine lookup_filter hn.2 fun e _ hvar => ?_
  exact decide_eq_true ((spared_iff_of_varName h hn hvar).mpr hle)

theorem getenv_myunsetenv_eq_none {name : CStr} (h : equals ∉ name.chars) {n : List UInt8}
    (hn : IsName n) (hle : ¬ name.chars <+: n) (env : PtrArray Entry) :
    getenv (myunsetenv (some name) env).environ n = none := by
  rw [getenv, if_neg hn.1, entries_myunsetenv h, lookup_eq_none_iff hn.2]
  intro e he hvar
  exact hle ((spared_iff_of_varName h hn hvar).mp (of_decide_eq_true (List.mem_filter.mp he).2))

/-- A variable is still what it was exactly if it was unset or its name begins with the name. -/
theorem getenv_myunsetenv_iff {name : CStr} (h : equals ∉ name.chars) {n : List UInt8}
    (hn : IsName n) (env : PtrArray Entry) :
    getenv (myunsetenv (some name) env).environ n = getenv env n ↔
      (getenv env n ≠ none → name.chars <+: n) := by
  by_cases hle : name.chars <+: n
  · exact iff_of_true (getenv_myunsetenv_of_isPrefix h hn hle env) fun _ => hle
  · rw [getenv_myunsetenv_eq_none h hn hle, eq_comm]
    exact ⟨fun hnone hset => absurd hnone hset, fun himp => by_contra fun hset => hle (himp hset)⟩

/-! ## What a call does -/

section Call

variable {name value : CStr} {overwrite : CInt} {mallocOk putenvOk : Bool} {next : UInt8}
  {env : PtrArray Entry}

theorem mysetenv_of_keeps (h : equals ∉ name.chars) (hkeep : Keeps name overwrite env) :
    mysetenv (some name) (some value) overwrite mallocOk putenvOk next env = ⟨0, false, env⟩ := by
  rw [mysetenv, if_neg h, if_pos hkeep]

theorem mysetenv_of_fail (h : equals ∉ name.chars) (hkeep : ¬ Keeps name overwrite env)
    (hfail : (mallocOk && putenvOk) = false) :
    mysetenv (some name) (some value) overwrite mallocOk putenvOk next env =
      ⟨-1, false, (myunsetenv (some name) env).environ⟩ := by
  rw [mysetenv, if_neg h, if_neg hkeep]
  cases mallocOk with
  | false => rfl
  | true =>
    obtain rfl : putenvOk = false := hfail
    rfl

theorem mysetenv_of_ok (h : equals ∉ name.chars) (hkeep : ¬ Keeps name overwrite env)
    (hok : (mallocOk && putenvOk) = true) :
    mysetenv (some name) (some value) overwrite mallocOk putenvOk next env =
      ⟨0, false, putenv (newEntry name value next) (myunsetenv (some name) env).environ⟩ := by
  obtain ⟨rfl, rfl⟩ := Bool.and_eq_true_iff.mp hok
  rw [mysetenv, if_neg h, if_neg hkeep]
  rfl

theorem varName_newEntry (h : equals ∉ name.chars) :
    (newEntry name value next).varName = some name.chars := by
  rw [varName_eq_some_iff h]
  exact ⟨value.chars, by rw [List.append_assoc, List.singleton_append]; rfl⟩

theorem getenv_newEntry (hname : IsName name.chars) (env : PtrArray Entry) :
    getenv (putenv (newEntry name value next) env) name.chars = some value.chars := by
  rw [getenv_putenv_self hname (varName_newEntry hname.2)]
  show some ((name.chars ++ equals :: value.chars).drop (name.chars.length + 1)) = _
  rw [List.drop_length_add_append]
  rfl

/-- When nothing fails the variable comes out right, and the others do exactly if `myunsetenv`
leaves them. -/
theorem sets_of_ok_iff (hname : IsName name.chars) (hkeep : ¬ Keeps name overwrite env) :
    Sets name value overwrite env
        (mysetenv (some name) (some value) overwrite true true next env) ↔
      ∀ n, IsName n → n ≠ name.chars → getenv env n ≠ none → name.chars <+: n := by
  have h : equals ∉ name.chars := hname.2
  have hself : overwrite ≠ 0 ∨ getenv env name.chars = none := by
    rcases not_and_or.mp hkeep with hnone | hne
    · exact .inr (not_not.mp hnone)
    · exact .inl hne
  have hother : ∀ n, IsName n → n ≠ name.chars →
      (getenv (putenv (newEntry name value next) (myunsetenv (some name) env).environ) n =
        getenv env n ↔ (getenv env n ≠ none → name.chars <+: n)) := by
    intro n hn hne
    rw [getenv_putenv_of_ne hn hne (varName_newEntry h), getenv_myunsetenv_iff h hn]
  rw [mysetenv_of_ok h hkeep rfl, Sets, if_pos hself, forall_prop_of_true rfl]
  constructor
  · exact fun hsets n hn hne => (hother n hn hne).mp (hsets.2 n hn hne)
  · exact fun hall =>
      ⟨getenv_newEntry hname _, fun n hn hne => (hother n hn hne).mpr (hall n hn hne)⟩

/-- **What a successful call does to the variables.**  It sets the one and leaves the others exactly
if nothing is to be done, or every other variable that is set has a name that begins with the
name. -/
theorem sets_iff (hname : IsName name.chars) :
    Sets name value overwrite env
        (mysetenv (some name) (some value) overwrite mallocOk putenvOk next env) ↔
      Keeps name overwrite env ∨ mallocOk = false ∨ putenvOk = false ∨
        ∀ n, IsName n → n ≠ name.chars → getenv env n ≠ none → name.chars <+: n := by
  by_cases hkeep : Keeps name overwrite env
  · refine iff_of_true (fun _ => ?_) (.inl hkeep)
    rw [mysetenv_of_keeps hname.2 hkeep, if_neg]
    · exact ⟨rfl, fun _ _ _ => rfl⟩
    · rw [not_or]
      exact ⟨not_not_intro hkeep.2, hkeep.1⟩
  cases hok : mallocOk && putenvOk with
  | false =>
    refine iff_of_true (fun hret => ?_) (.inr ?_)
    · rw [mysetenv_of_fail hname.2 hkeep hok] at hret
      cases hret
    · rcases Bool.and_eq_false_iff.mp hok with hmalloc | hputenv
      · exact .inl hmalloc
      · exact .inr (.inl hputenv)
  | true =>
    obtain ⟨rfl, rfl⟩ := Bool.and_eq_true_iff.mp hok
    rw [sets_of_ok_iff hname hkeep]
    simp only [hkeep, Bool.true_eq_false, false_or]

/-- A call that fails after `myunsetenv` leaves the environment exactly if that does. -/
theorem atomic_of_fail_iff (h : equals ∉ name.chars) (hkeep : ¬ Keeps name overwrite env)
    (hfail : (mallocOk && putenvOk) = false) :
    Atomic env (mysetenv (some name) (some value) overwrite mallocOk putenvOk next env) ↔
      ∀ e ∈ env.entries, Spared name e := by
  rw [mysetenv_of_fail h hkeep hfail, Atomic, forall_prop_of_true rfl, myunsetenv_some h]
  show env.remove (removes name) = env ↔ _
  rw [PtrArray.remove_eq_self_iff]
  exact forall₂_congr fun e _ => removes_eq_false_iff

/-- **What a failed call does to the environment.**  It leaves it exactly if it failed before
`myunsetenv`, or `myunsetenv` had nothing to remove. -/
theorem atomic_iff (name value : Option CStr) (overwrite : CInt) (mallocOk putenvOk : Bool)
    (next : UInt8) (env : PtrArray Entry) :
    Atomic env (mysetenv name value overwrite mallocOk putenvOk next env) ↔
      value = none ∨ (mallocOk && putenvOk) = true ∨
        ∀ n, name = some n → equals ∈ n.chars ∨ Keeps n overwrite env ∨
          ∀ e ∈ env.entries, Spared n e := by
  cases name with
  | none => exact iff_of_true (fun _ => rfl) (.inr (.inr fun n hn => nomatch hn))
  | some n =>
    cases value with
    | none => exact iff_of_true (fun _ => rfl) (.inl rfl)
    | some v =>
      simp only [reduceCtorEq, false_or, Option.some.injEq, forall_eq']
      by_cases h : equals ∈ n.chars
      · refine iff_of_true ?_ (.inr (.inl h))
        rw [mysetenv, if_pos h]
        exact fun _ => rfl
      by_cases hkeep : Keeps n overwrite env
      · refine iff_of_true ?_ (.inr (.inr (.inl hkeep)))
        rw [mysetenv_of_keeps h hkeep]
        exact fun _ => rfl
      cases hok : mallocOk && putenvOk with
      | true =>
        refine iff_of_true (fun hret => ?_) (.inl rfl)
        rw [mysetenv_of_ok h hkeep hok] at hret
        cases hret
      | false =>
        rw [atomic_of_fail_iff h hkeep hok]
        simp only [h, hkeep, Bool.false_eq_true, false_or]

end Call

/-- The variable `A` is set in an environment that holds `A=1` and `AB=1`. -/
theorem sets_of_extension :
    let name : CStr := ⟨[0x41], by decide⟩
    let env : PtrArray Entry :=
      .ofList [⟨⟨[0x41, 0x3d, 0x31], by decide⟩, 0⟩, ⟨⟨[0x41, 0x42, 0x3d, 0x31], by decide⟩, 0⟩]
    Sets name ⟨[0x32], by decide⟩ 1 env
        (mysetenv (some name) (some ⟨[0x32], by decide⟩) 1 true true 0 env) ↔
      Keeps name 1 env ∨ true = false ∨ true = false ∨
        ∀ n, IsName n → n ≠ name.chars → getenv env n ≠ none → name.chars <+: n :=
  sets_iff (by decide)

/-- The variable `A` is set in an environment that holds only `B=1`, which is lost. -/
theorem set_loses_other : ¬ ∀ (name value : CStr) (overwrite : CInt) (next : UInt8)
    (env : PtrArray Entry), IsName name.chars →
    Sets name value overwrite env
      (mysetenv (some name) (some value) overwrite true true next env) := by
  intro h
  have hname : IsName (⟨[0x41], by decide⟩ : CStr).chars := by decide
  have hother := (h ⟨[0x41], by decide⟩ ⟨[0x32], by decide⟩ 1 0
    (.ofList [⟨⟨[0x42, 0x3d, 0x31], by decide⟩, 0⟩]) hname
    (by rw [mysetenv_of_ok hname.2 (by decide) rfl])).2 [0x42] (by decide) (by decide)
  rw [mysetenv_of_ok hname.2 (by decide) rfl, getenv_putenv_of_ne (by decide) (by decide)
    (varName_newEntry hname.2), getenv_myunsetenv_iff hname.2 (by decide)] at hother
  exact absurd (hother (by decide)) (by decide)

/-- `malloc` fails when the variable `A` is to be set in an environment that holds only `B=1`. -/
theorem failed_set_loses_other : ¬ ∀ (name value : Option CStr) (overwrite : CInt)
    (mallocOk putenvOk : Bool) (next : UInt8) (env : PtrArray Entry),
    Atomic env (mysetenv name value overwrite mallocOk putenvOk next env) := by
  intro h
  have hname : equals ∉ (⟨[0x41], by decide⟩ : CStr).chars := by decide
  have heq := h (some ⟨[0x41], by decide⟩) (some ⟨[0x32], by decide⟩) 1 false true 0
    (.ofList [⟨⟨[0x42, 0x3d, 0x31], by decide⟩, 0⟩])
  rw [mysetenv_of_fail hname (by decide) rfl, Atomic, forall_prop_of_true rfl,
    myunsetenv_some hname, PtrArray.remove_eq_self_iff] at heq
  revert heq
  decide

end Environ
end CodeStrudy
