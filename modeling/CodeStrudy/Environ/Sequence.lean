import CodeStrudy.Environ.Set
import CodeStrudy.GetNum.GetNum

/-!
# Sequences of changes to the environment

What a program sees of its environment is a partial map from names to values.  Each of the functions
that change the environment changes this map in a way that depends on the map alone, whatever the
entries are: how many there are for one name, in which order, and what is left of older ones.  So a
whole sequence of calls can be followed on the map.

## What is proved

* `vars_run`: after any sequence of `mysetenv`, `myunsetenv` and `putenv`, with any failures of
  `malloc` and `putenv`, the variables are those that the sequence on the map gives.
* `main_vars`: whatever the environment was, the `main` of `practice/6.3` leaves exactly the
  variables that it sets after `name`: `test5`, and those of `test1`, `test2` and `test3` whose
  `putenv` has succeeded.
-/

namespace CodeStrudy
namespace Environ

open Foundation GetNum

/-- A name that a variable can have. -/
abbrev Name := { name : List UInt8 // IsName name }

/-- The variables that are set, and their values. -/
abbrev Vars := Name → Option (List UInt8)

/-- The variables of an environment. -/
def vars (env : PtrArray Entry) : Vars := fun n => getenv env n

namespace Vars

/-- The variable of the name, if it is one, is set to a value or taken away. -/
def assign (name : List UInt8) (value : Option (List UInt8)) (m : Vars) : Vars :=
  fun n => if n.val = name then value else m n

/-- What `myunsetenv` leaves: the variables whose names begin with the name. -/
def keepExtensions (name : List UInt8) (m : Vars) : Vars :=
  fun n => if name <+: n.val then m n else none

/-- The variable is set. -/
def IsSet (name : List UInt8) (m : Vars) : Prop := ∃ h : IsName name, m ⟨name, h⟩ ≠ none

instance (name : List UInt8) (m : Vars) : Decidable (m.IsSet name) :=
  inferInstanceAs (Decidable (∃ h : IsName name, m ⟨name, h⟩ ≠ none))

theorem assign_of_ne {name : List UInt8} {n : Name} {value : Option (List UInt8)} {m : Vars}
    (h : n.val ≠ name) : m.assign name value n = m n := if_neg h

end Vars

/-! ## The calls -/

/-- A call that changes the environment; for `mysetenv` with how `malloc` and `putenv` come out if
they are called, and the byte behind the block. -/
inductive Call where
  | mysetenv (name value : Option CStr) (overwrite : CInt) (mallocOk putenvOk : Bool) (next : UInt8)
  | myunsetenv (name : Option CStr)
  | putenv (new : Entry)

namespace Call

/-- What a call does to the environment. -/
def run (env : PtrArray Entry) : Call → PtrArray Entry
  | .mysetenv name value overwrite mallocOk putenvOk next =>
    (Environ.mysetenv name value overwrite mallocOk putenvOk next env).environ
  | .myunsetenv name => (Environ.myunsetenv name env).environ
  | .putenv new => Environ.putenv new env

/-- What a call does to the variables. -/
def runVars (m : Vars) : Call → Vars
  | .mysetenv (some name) (some value) overwrite mallocOk putenvOk _ =>
    if equals ∈ name.chars ∨ m.IsSet name.chars ∧ overwrite = 0 then m
    else if (mallocOk && putenvOk) = true then
      (m.keepExtensions name.chars).assign name.chars (some value.chars)
    else m.keepExtensions name.chars
  | .mysetenv _ _ _ _ _ _ => m
  | .myunsetenv (some name) => if equals ∈ name.chars then m else m.keepExtensions name.chars
  | .myunsetenv none => m
  | .putenv new =>
    match new.varName with
    | some name => m.assign name (some (new.str.chars.drop (name.length + 1)))
    | none => m.assign new.str.chars none

end Call

/-! ## What the calls do to the variables -/

section Vars

variable {name value : CStr} {overwrite : CInt} {env : PtrArray Entry}

theorem isSet_vars_iff (name : List UInt8) (hname : equals ∉ name) (env : PtrArray Entry) :
    (vars env).IsSet name ↔ getenv env name ≠ none := by
  refine ⟨fun ⟨_, hset⟩ => hset, fun hset => ⟨⟨fun hnil => hset ?_, hname⟩, hset⟩⟩
  rw [getenv, if_pos hnil]

theorem vars_myunsetenv (h : equals ∉ name.chars) (env : PtrArray Entry) :
    vars (myunsetenv (some name) env).environ = (vars env).keepExtensions name.chars := by
  funext n
  by_cases hle : name.chars <+: n.val
  · exact (getenv_myunsetenv_of_isPrefix h n.property hle env).trans (if_pos hle).symm
  · exact (getenv_myunsetenv_eq_none h n.property hle env).trans (if_neg hle).symm

theorem vars_putenv_of_varName {new : Entry} {name : List UInt8} (hnew : new.varName = some name)
    (env : PtrArray Entry) :
    vars (putenv new env) =
      (vars env).assign name (some (new.str.chars.drop (name.length + 1))) := by
  funext n
  by_cases hn : n.val = name
  · subst hn
    exact (getenv_putenv_self n.property hnew env).trans (if_pos rfl).symm
  · exact (getenv_putenv_of_ne n.property hn hnew env).trans (if_neg hn).symm

/-- `putenv` of a string without `=`. -/
theorem vars_putenv_of_none {new : Entry} (hnew : new.varName = none) (env : PtrArray Entry) :
    vars (putenv new env) = (vars env).assign new.str.chars none := by
  funext n
  have hn := n.property
  show getenv (putenv new env) n = _
  rw [getenv, if_neg hn.1, putenv, hnew, PtrArray.entries_ofList]
  by_cases hself : n.val = new.str.chars
  · rw [Vars.assign, if_pos hself, lookup_eq_none_iff hn.2]
    intro e he hvar
    rcases of_decide_eq_true (List.mem_filter.mp he).2 with hempty | hne
    · exact hn.1 (hself.trans hempty)
    · exact hne (hvar.trans (congrArg some hself))
  · rw [Vars.assign_of_ne hself, lookup_filter hn.2]
    · exact (if_neg hn.1).symm
    · intro e _ hvar
      exact decide_eq_true (.inr fun heq => hself (Option.some.inj (hvar.symm.trans heq)))

theorem vars_mysetenv {mallocOk putenvOk : Bool} {next : UInt8} (env : PtrArray Entry) :
    vars (mysetenv (some name) (some value) overwrite mallocOk putenvOk next env).environ =
      Call.runVars (vars env)
        (.mysetenv (some name) (some value) overwrite mallocOk putenvOk next) := by
  rw [Call.runVars]
  by_cases h : equals ∈ name.chars
  · rw [if_pos (.inl h), mysetenv, if_pos h]
  have hset := isSet_vars_iff name.chars h env
  by_cases hkeep : Keeps name overwrite env
  · rw [if_pos (.inr ⟨hset.mpr hkeep.1, hkeep.2⟩), mysetenv_of_keeps h hkeep]
  rw [if_neg (not_or.mpr ⟨h, fun hboth => hkeep ⟨hset.mp hboth.1, hboth.2⟩⟩)]
  cases hok : mallocOk && putenvOk with
  | false =>
    rw [mysetenv_of_fail h hkeep hok, if_neg Bool.false_ne_true]
    exact vars_myunsetenv h env
  | true =>
    rw [mysetenv_of_ok h hkeep hok, if_pos rfl, vars_putenv_of_varName (varName_newEntry h),
      vars_myunsetenv h]
    refine congrArg (fun v => Vars.assign name.chars (some v) _) ?_
    show (name.chars ++ equals :: value.chars).drop (name.chars.length + 1) = value.chars
    rw [List.drop_length_add_append]
    rfl

/-- **What a call does to the variables depends on them alone.** -/
theorem vars_runCall (c : Call) (env : PtrArray Entry) :
    vars (c.run env) = c.runVars (vars env) := by
  cases c with
  | mysetenv name value overwrite mallocOk putenvOk next =>
    rcases name with - | name
    · rfl
    rcases value with - | value
    · rfl
    exact vars_mysetenv env
  | myunsetenv name =>
    rcases name with - | name
    · rfl
    rw [Call.runVars, Call.run]
    by_cases h : equals ∈ name.chars
    · rw [if_pos h, myunsetenv, if_pos h]
    · rw [if_neg h, vars_myunsetenv h]
  | putenv new =>
    rw [Call.runVars, Call.run]
    cases hnew : new.varName with
    | some name => exact vars_putenv_of_varName hnew env
    | none => exact vars_putenv_of_none hnew env

/-- **Sequences of calls.**  Whatever the entries of the environment are, the variables after any
calls are what the calls make of the variables before. -/
theorem vars_run (calls : List Call) (env : PtrArray Entry) :
    vars (calls.foldl Call.run env) = calls.foldl Call.runVars (vars env) := by
  induction calls generalizing env with
  | nil => rfl
  | cons c calls ih => rw [List.foldl_cons, List.foldl_cons, ih, vars_runCall]

end Vars

/-! ## The test program -/

/-- What the calls of one `mysetenv` come to, and the byte behind its block. -/
structure Memory where
  mallocOk : Bool
  putenvOk : Bool
  next : UInt8

/-- The block is there and in the environment. -/
def Memory.suffices (mem : Memory) : Bool := mem.mallocOk && mem.putenvOk

def nameStr : CStr := ⟨ascii "name", by decide⟩

def test5Str : CStr := ⟨ascii "test5", by decide⟩

/-- A `mysetenv` of `main`, which exits when it fails. -/
def setOrExit (name value : CStr) (overwrite : CInt) (mem : Memory) (env : PtrArray Entry) :
    Option (PtrArray Entry) :=
  let r := mysetenv (some name) (some value) overwrite mem.mallocOk mem.putenvOk mem.next env
  if r.ret = 0 then some r.environ else none

/-- How the last three calls of `main` come out, in their order. -/
structure Puts where
  test2 : Bool
  test1 : Bool
  test3 : Bool

/-- A `putenv` of `main`, which does not look at its result; a call that fails changes nothing. -/
def tryPutenv (ok : Bool) (new : Entry) (env : PtrArray Entry) : PtrArray Entry :=
  if ok then putenv new env else env

/-- The last three calls. -/
def mainPuts (puts : Puts) (env : PtrArray Entry) : PtrArray Entry :=
  tryPutenv puts.test3 ⟨⟨ascii "test3=teste", by decide⟩, 0⟩ <|
    tryPutenv puts.test1 ⟨⟨ascii "test1=teste", by decide⟩, 0⟩ <|
      tryPutenv puts.test2 ⟨⟨ascii "test2=teste", by decide⟩, 0⟩ env

/-- `main` of `practice/6.3`; `none` is `EXIT_FAILURE`. -/
def main (first second third : Memory) (puts : Puts) (env : PtrArray Entry) :
    Option (PtrArray Entry) := do
  let env ← setOrExit nameStr ⟨ascii "xxxxxx", by decide⟩ 0 first env
  let env ← setOrExit nameStr ⟨ascii "xxxxx1", by decide⟩ 1 second env
  let env ← setOrExit test5Str ⟨ascii "1234", by decide⟩ 0 third env
  some (mainPuts puts env)

/-- The variables that `main` leaves. -/
def mainVars (puts : Puts) : Vars := fun n =>
  if n.val = ascii "test5" then some (ascii "1234")
  else if n.val = ascii "test1" ∧ puts.test1 ∨ n.val = ascii "test2" ∧ puts.test2 ∨
      n.val = ascii "test3" ∧ puts.test3 then some (ascii "teste")
  else none

/-- What such a call does to the variables.  It fails exactly if it has something to do and no
memory. -/
def setOrExitVars (name value : CStr) (overwrite : CInt) (mem : Memory) (m : Vars) : Option Vars :=
  if m.IsSet name.chars ∧ overwrite = 0 then some m
  else if mem.suffices = true then
    some ((m.keepExtensions name.chars).assign name.chars (some value.chars))
  else none

theorem vars_setOrExit {name : CStr} (h : equals ∉ name.chars) (value : CStr) (overwrite : CInt)
    (mem : Memory) (env : PtrArray Entry) :
    (setOrExit name value overwrite mem env).map vars =
      setOrExitVars name value overwrite mem (vars env) := by
  have hvars : vars (mysetenv (some name) (some value) overwrite mem.mallocOk mem.putenvOk mem.next
      env).environ = _ := vars_mysetenv env
  rw [Call.runVars] at hvars
  have hset := isSet_vars_iff name.chars h env
  unfold setOrExit setOrExitVars
  by_cases hkeep : Keeps name overwrite env
  · rw [mysetenv_of_keeps h hkeep]
    exact (if_pos ⟨hset.mpr hkeep.1, hkeep.2⟩).symm
  have hnot : ¬ ((vars env).IsSet name.chars ∧ overwrite = 0) :=
    fun hboth => hkeep ⟨hset.mp hboth.1, hboth.2⟩
  rw [if_neg (not_or.mpr ⟨h, hnot⟩)] at hvars
  rw [if_neg hnot]
  cases hok : mem.suffices with
  | false =>
    rw [mysetenv_of_fail h hkeep hok]
    rfl
  | true =>
    have hboth : (mem.mallocOk && mem.putenvOk) = true := hok
    rw [if_pos hboth] at hvars
    rw [mysetenv_of_ok h hkeep hok] at hvars ⊢
    exact congrArg some hvars

theorem map_vars_bind {x : Option (PtrArray Entry)} {y : Option Vars}
    {f : PtrArray Entry → Option (PtrArray Entry)} {g : Vars → Option Vars}
    (hx : x.map vars = y) (hf : ∀ env, (f env).map vars = g (vars env)) :
    (x.bind f).map vars = y.bind g := by
  subst hx
  cases x with
  | none => rfl
  | some env => exact hf env

/-- `putenv` of a string that sets a variable. -/
theorem vars_putenv_of_chars {new : Entry} {name value : List UInt8} (h : equals ∉ name)
    (hchars : new.str.chars = name ++ equals :: value) (env : PtrArray Entry) :
    vars (putenv new env) = (vars env).assign name (some value) := by
  have hvar : new.varName = some name :=
    (varName_eq_some_iff h new).mpr ⟨value, by simp [hchars]⟩
  rw [vars_putenv_of_varName hvar, hchars, List.drop_length_add_append]
  rfl

/-- A variable that is set if the call for it has succeeded. -/
def Vars.tryAssign (ok : Bool) (name : List UInt8) (value : Option (List UInt8)) (m : Vars) :
    Vars :=
  if ok then m.assign name value else m

theorem Vars.tryAssign_apply (ok : Bool) (name : List UInt8) (value : Option (List UInt8))
    (m : Vars) (n : Name) :
    m.tryAssign ok name value n = if n.val = name ∧ ok then value else m n := by
  cases ok with
  | false => exact (if_neg fun h => Bool.false_ne_true h.2).symm
  | true => exact if_congr (and_iff_left rfl).symm rfl rfl

theorem vars_tryPutenv {new : Entry} {name value : List UInt8} (ok : Bool) (h : equals ∉ name)
    (hchars : new.str.chars = name ++ equals :: value) (env : PtrArray Entry) :
    vars (tryPutenv ok new env) = (vars env).tryAssign ok name (some value) := by
  cases ok with
  | false => rfl
  | true => exact vars_putenv_of_chars h hchars env

/-- What the last three calls of `main` do to the variables. -/
def mainPutsVars (puts : Puts) (m : Vars) : Vars :=
  ((m.tryAssign puts.test2 (ascii "test2") (some (ascii "teste"))).tryAssign puts.test1
    (ascii "test1") (some (ascii "teste"))).tryAssign puts.test3 (ascii "test3")
      (some (ascii "teste"))

theorem vars_mainPuts (puts : Puts) (env : PtrArray Entry) :
    vars (mainPuts puts env) = mainPutsVars puts (vars env) := by
  rw [mainPuts, @vars_tryPutenv _ (ascii "test3") (ascii "teste") _ (by decide) (by decide),
    @vars_tryPutenv _ (ascii "test1") (ascii "teste") _ (by decide) (by decide),
    @vars_tryPutenv _ (ascii "test2") (ascii "teste") _ (by decide) (by decide)]
  rfl

/-- What `main` does to the variables. -/
def runMainVars (first second third : Memory) (puts : Puts) (m : Vars) : Option Vars := do
  let m ← setOrExitVars nameStr ⟨ascii "xxxxxx", by decide⟩ 0 first m
  let m ← setOrExitVars nameStr ⟨ascii "xxxxx1", by decide⟩ 1 second m
  let m ← setOrExitVars test5Str ⟨ascii "1234", by decide⟩ 0 third m
  some (mainPutsVars puts m)

theorem vars_main (first second third : Memory) (puts : Puts) (env : PtrArray Entry) :
    (main first second third puts env).map vars =
      runMainVars first second third puts (vars env) := by
  have hname : equals ∉ nameStr.chars := by decide
  have hfive : equals ∉ test5Str.chars := by decide
  exact map_vars_bind (vars_setOrExit hname _ 0 first env) fun env =>
    map_vars_bind (vars_setOrExit hname _ 1 second env) fun env =>
      map_vars_bind (vars_setOrExit hfive _ 0 third env) fun env =>
        congrArg some (vars_mainPuts puts env)

/-- The names of `main` do not begin alike. -/
theorem not_isPrefix_both {n : List UInt8} (h : test5Str.chars <+: n) : ¬ nameStr.chars <+: n :=
  fun hname => absurd (List.prefix_of_prefix_length_le hname h (by decide)) (by decide)

/-- Nothing is left of the variables that `main` has found. -/
theorem keepExtensions_both (value : List UInt8) (m : Vars) :
    ((m.keepExtensions nameStr.chars).assign nameStr.chars (some value)).keepExtensions
      test5Str.chars = fun _ => none := by
  funext n
  by_cases hext : test5Str.chars <+: n.val
  · have hname := not_isPrefix_both hext
    have hne : n.val ≠ nameStr.chars := fun heq => hname (heq ▸ List.prefix_rfl)
    exact (if_pos hext).trans ((if_neg hne).trans (if_neg hname))
  · exact if_neg hext

/-- `test5` is not set any more when it is set. -/
theorem not_isSet_test5 (value : List UInt8) (m : Vars) :
    ¬ ((m.keepExtensions nameStr.chars).assign nameStr.chars (some value)).IsSet
      test5Str.chars := by
  rintro ⟨hname, hset⟩
  have hext := congrFun (keepExtensions_both value m) ⟨test5Str.chars, hname⟩
  exact hset ((if_pos List.prefix_rfl).symm.trans hext)

/-- One variable set, and then three others tried, all to one value. -/
theorem tryAssign_three {t₁ t₂ t₃ t₅ : List UInt8} (h₁ : t₁ ≠ t₅) (h₂ : t₂ ≠ t₅) (h₃ : t₃ ≠ t₅)
    (ok₁ ok₂ ok₃ : Bool) (x y : Option (List UInt8)) (n : Name) :
    ((((Vars.assign t₅ y fun _ => none).tryAssign ok₂ t₂ x).tryAssign ok₁ t₁ x).tryAssign ok₃
      t₃ x) n =
      if n.val = t₅ then y
      else if n.val = t₁ ∧ ok₁ ∨ n.val = t₂ ∧ ok₂ ∨ n.val = t₃ ∧ ok₃ then x else none := by
  simp only [Vars.tryAssign_apply, Vars.assign]
  by_cases h₅ : n.val = t₅
  · simp [h₅, h₁.symm, h₂.symm, h₃.symm]
  · simp only [h₅, if_false]
    by_cases h : n.val = t₁ ∧ ok₁ ∨ n.val = t₂ ∧ ok₂ ∨ n.val = t₃ ∧ ok₃
    · rw [if_pos h]
      rcases h with h | h | h <;> simp [h]
    · obtain ⟨hone, htwo, hthree⟩ := not_or.mp h |>.imp_right not_or.mp
      rw [if_neg h, if_neg hthree, if_neg hone, if_neg htwo]

theorem mainPutsVars_assign (puts : Puts) :
    mainPutsVars puts (Vars.assign test5Str.chars (some (ascii "1234")) fun _ => none) =
      mainVars puts :=
  funext fun n => tryAssign_three (by decide) (by decide) (by decide) _ _ _ _ _ n

/-- From its second call on, `main` does the same to any variables. -/
theorem runMainVars_tail (second third : Memory) (puts : Puts) (m : Vars) :
    (do
      let m ← setOrExitVars nameStr ⟨ascii "xxxxx1", by decide⟩ 1 second m
      let m ← setOrExitVars test5Str ⟨ascii "1234", by decide⟩ 0 third m
      some (mainPutsVars puts m)) =
      if second.suffices = true ∧ third.suffices = true then some (mainVars puts) else none := by
  have hone : ¬ (m.IsSet nameStr.chars ∧ (1 : CInt) = 0) := fun h => absurd h.2 (by decide)
  rw [setOrExitVars, if_neg hone]
  cases second.suffices with
  | false => rfl
  | true =>
    show Option.bind (setOrExitVars _ _ _ _ _) _ = _
    rw [setOrExitVars, if_neg fun h => not_isSet_test5 _ _ h.1, keepExtensions_both]
    cases third.suffices with
    | false => rfl
    | true => exact congrArg some (mainPutsVars_assign puts)

/-- **`main` leaves its own variables, and no others.**  It comes to its end exactly if there is
memory for what its three `mysetenv` set, where `name` may be set already when it begins; and then
the variables are `test5` and those whose `putenv` has succeeded, whatever the environment was. -/
theorem main_vars (first second third : Memory) (puts : Puts) (env : PtrArray Entry) :
    (main first second third puts env).map vars =
      if ((vars env).IsSet nameStr.chars ∨ first.suffices = true) ∧ second.suffices = true ∧
          third.suffices = true
      then some (mainVars puts) else none := by
  rw [vars_main, runMainVars, setOrExitVars]
  by_cases hset : (vars env).IsSet nameStr.chars
  · rw [if_pos ⟨hset, rfl⟩]
    refine (runMainVars_tail second third puts (vars env)).trans (if_congr ?_ rfl rfl)
    exact (and_iff_right (.inl hset)).symm
  · rw [if_neg fun h => hset h.1]
    cases hfirst : first.suffices with
    | false => exact (if_neg fun h => h.1.elim hset Bool.false_ne_true).symm
    | true =>
      refine (runMainVars_tail second third puts _).trans (if_congr ?_ rfl rfl)
      exact (and_iff_right (.inr rfl)).symm

end Environ
end CodeStrudy
