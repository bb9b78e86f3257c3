import CodeStrudy.Environ.Sequence

/-!
# `modify_env`

`routines/6.4.modify_env`: the environment is cleared, every argument is given to `putenv`, `GREET`
is set if no argument has set it, `BYE` is taken away, and what is left is printed, one entry a
line.  An argument without `=` takes its variable away again.  `argc` is a `char`, so of 127 and
more arguments the loop does not get to all.  A `putenv` or a `setenv` that fails ends the program.

## What is proved

* `seen_eq_tail_iff`: how many arguments are too many.
* `isSome_modifyEnv`: when the program comes to its end.
* `modifyEnv_lines`: the lines that it prints then for a name are one `name=value`, with the value
  that the last argument about the name gives it, or none; with the two exceptions of `GREET` and
  `BYE`.
-/

namespace CodeStrudy
namespace Environ

open Foundation GetNum

/-! ## The program -/

def greetStr : CStr := ⟨ascii "GREET", by decide⟩

def helloStr : CStr := ⟨ascii "Hello World", by decide⟩

def byeStr : CStr := ⟨ascii "BYE", by decide⟩

/-- The library's `clearenv`. -/
def clearenv : PtrArray Entry := .ofList []

/-- The library's `setenv` with `overwrite` zero; `ok` is its result if there is something to do,
and `none` a failure. -/
def setenvKeep (name value : CStr) (ok : Bool) (env : PtrArray Entry) : Option (PtrArray Entry) :=
  if getenv env name.chars ≠ none then some env
  else if ok then some (.ofList (put name.chars (newEntry name value 0) env.entries))
  else none

/-- The library's `unsetenv`. -/
def unsetenv (name : CStr) (env : PtrArray Entry) : PtrArray Entry :=
  .ofList (env.entries.filter fun e => e.varName ≠ some name.chars)

/-- The arguments that the loop of `main` gets to. -/
def seen (argv : List Entry) : List Entry := (argv.take (charArgc argv.length).toNat).drop 1

/-- One pass of the loop; `ok i` is the result of `putenv` for argument `i`. -/
def putArg (ok : ℕ → Bool) (env : PtrArray Entry) (arg : Entry × ℕ) : Option (PtrArray Entry) :=
  if ok arg.2 then some (putenv arg.1 env) else none

/-- The environment that `main` prints; `none` is `EXIT_FAILURE`. -/
def modifyEnv (putenvOk : ℕ → Bool) (setenvOk : Bool) (argv : List Entry) :
    Option (PtrArray Entry) := do
  let env ← ((seen argv).zipIdx 1).foldlM (putArg putenvOk) clearenv
  let env ← setenvKeep greetStr helloStr setenvOk env
  some (unsetenv byeStr env)

/-! ## The property -/

/-- What an argument says about a name: nothing, or that it has a value, or that it has none. -/
def said (n : Name) (arg : Entry) : Option (Option (List UInt8)) :=
  match arg.varName with
  | some name => if n.val = name then some (some (arg.str.chars.drop (name.length + 1))) else none
  | none => if n.val = arg.str.chars then some none else none

/-- The value that the last argument about a name gives it. -/
def argValue (args : List Entry) : Vars := fun n => (args.reverse.findSome? (said n)).join

/-- The value of a variable in the end. -/
def lastValue (args : List Entry) : Vars := fun n =>
  if n.val = byeStr.chars then none
  else
    match argValue args n with
    | some value => some value
    | none => if n.val = greetStr.chars then some helloStr.chars else none

/-- The line of a variable. -/
def line (n : Name) (value : List UInt8) : List UInt8 := n.val ++ equals :: value

/-- The entries for a name. -/
def entriesOf (n : List UInt8) (es : List Entry) : List Entry :=
  es.filter fun e => e.varName = some n

/-! ## One entry for each name -/

/-- No name has two entries. -/
def Single (env : PtrArray Entry) : Prop := ∀ n : Name, (entriesOf n env.entries).length ≤ 1

theorem entriesOf_put_self {name : List UInt8} {new : Entry} (hnew : new.varName = some name)
    (es : List Entry) : entriesOf name (put name new es) = new :: (entriesOf name es).tail := by
  induction es with
  | nil => exact List.filter_cons_of_pos (by simpa using hnew)
  | cons e es ih =>
    unfold entriesOf at ih ⊢
    by_cases he : e.varName = some name
    · rw [put, if_pos he, List.filter_cons_of_pos (by simpa using hnew),
        List.filter_cons_of_pos (by simpa using he), List.tail_cons]
    · rw [put, if_neg he, List.filter_cons_of_neg (by simpa using he),
        List.filter_cons_of_neg (by simpa using he), ih]

theorem entriesOf_put_of_ne {name n : List UInt8} (hne : n ≠ name) {new : Entry}
    (hnew : new.varName = some name) (es : List Entry) :
    entriesOf n (put name new es) = entriesOf n es := by
  have hother : ∀ e : Entry, e.varName = some name → ¬ e.varName = some n := fun e he h =>
    hne (Option.some.inj (h.symm.trans he))
  induction es with
  | nil => exact List.filter_cons_of_neg (by simpa using hother new hnew)
  | cons e es ih =>
    unfold entriesOf at ih ⊢
    by_cases he : e.varName = some name
    · rw [put, if_pos he, List.filter_cons_of_neg (by simpa using hother new hnew),
        List.filter_cons_of_neg (by simpa using hother e he)]
    · rw [put, if_neg he, List.filter_cons, List.filter_cons, ih]

theorem length_entriesOf_filter_le (n : List UInt8) (keep : Entry → Bool) (es : List Entry) :
    (entriesOf n (es.filter keep)).length ≤ (entriesOf n es).length :=
  ((List.filter_sublist (p := keep)).filter _).length_le

theorem Single.put {env : PtrArray Entry} (h : Single env) {name : List UInt8} {new : Entry}
    (hnew : new.varName = some name) : Single (.ofList (put name new env.entries)) := by
  intro n
  rw [PtrArray.entries_ofList]
  by_cases hn : n.val = name
  · rw [hn, entriesOf_put_self hnew, List.length_cons, List.length_tail, ← hn]
    exact Nat.succ_le_succ (by have := h n; omega)
  · rw [entriesOf_put_of_ne hn hnew]
    exact h n

theorem Single.filter {env : PtrArray Entry} (h : Single env) (keep : Entry → Bool) :
    Single (.ofList (env.entries.filter keep)) := by
  intro n
  rw [PtrArray.entries_ofList]
  exact (length_entriesOf_filter_le n keep _).trans (h n)

theorem Single.putenv {env : PtrArray Entry} (h : Single env) (arg : Entry) :
    Single (putenv arg env) := by
  unfold Environ.putenv
  cases hvar : arg.varName with
  | some name => exact h.put hvar
  | none => exact h.filter _

theorem Single.setenvKeep {env env' : PtrArray Entry} (h : Single env) {name value : CStr}
    {ok : Bool} (hname : equals ∉ name.chars) (hset : setenvKeep name value ok env = some env') :
    Single env' := by
  unfold Environ.setenvKeep at hset
  split at hset
  · exact Option.some.inj hset ▸ h
  · obtain ⟨-, hput⟩ := Option.ite_none_right_eq_some.mp hset
    exact Option.some.inj hput ▸ h.put (varName_newEntry hname)

/-- With one entry for each name, what is printed for a name is the line of its value. -/
theorem Single.lines {env : PtrArray Entry} (h : Single env) (n : Name) :
    (entriesOf n env.entries).map (fun e => e.str.chars) = ((vars env n).map (line n)).toList := by
  have hn := n.property
  have hlook : vars env n = lookup (entriesOf n env.entries) n := by
    rw [entriesOf, lookup_filter hn.2 fun e _ hvar => decide_eq_true hvar]
    exact if_neg hn.1
  rw [hlook]
  cases hes : entriesOf n env.entries with
  | nil => rfl
  | cons e es =>
    have hlen := h n
    rw [hes, List.length_cons] at hlen
    obtain rfl : es = [] := List.eq_nil_of_length_eq_zero (by omega)
    have hmem : e ∈ entriesOf n env.entries := hes ▸ List.mem_cons_self
    have hvar : e.varName = some n.val := of_decide_eq_true (List.mem_filter.mp hmem).2
    obtain ⟨value, hvalue⟩ := (varName_eq_some_iff hn.2 e).mp hvar
    have hval : valueOf n e = some value := by
      rw [valueOf, if_pos ⟨value, hvalue⟩, ← hvalue, List.drop_left' (by simp)]
    rw [lookup, List.findSome?_cons, hval, List.map_singleton, ← hvalue]
    simp [line]

/-! ## The values -/

theorem vars_clearenv (n : Name) : vars clearenv n = none := by
  show getenv clearenv n = none
  rw [getenv, if_neg n.property.1, clearenv, PtrArray.entries_ofList]
  rfl

theorem vars_putenv (arg : Entry) (env : PtrArray Entry) (n : Name) :
    vars (putenv arg env) n = (said n arg).getD (vars env n) := by
  unfold said
  cases hvar : arg.varName with
  | some name =>
    rw [vars_putenv_of_varName hvar, Vars.assign]
    show _ = Option.getD (if n.val = name then _ else _) _
    split <;> rfl
  | none =>
    rw [vars_putenv_of_none hvar, Vars.assign]
    show _ = Option.getD (if n.val = arg.str.chars then _ else _) _
    split <;> rfl

/-- The last argument about a name decides. -/
theorem vars_putArgs (args : List Entry) :
    vars (args.foldl (fun env arg => putenv arg env) clearenv) = argValue args := by
  funext n
  unfold argValue
  induction args using List.reverseRecOn with
  | nil => exact vars_clearenv n
  | append_singleton args arg ih =>
    rw [List.foldl_append, List.foldl_cons, List.foldl_nil, vars_putenv, List.reverse_append,
      List.reverse_singleton, List.singleton_append, List.findSome?_cons, ih]
    cases said n arg <;> rfl

theorem vars_setenvKeep {name : CStr} (hname : IsName name.chars) {value : CStr} {ok : Bool}
    {env env' : PtrArray Entry} (h : setenvKeep name value ok env = some env') (n : Name) :
    vars env' n =
      match vars env n with
      | some v => some v
      | none => if n.val = name.chars then some value.chars else none := by
  have hnew : (newEntry name value 0).varName = some name.chars := varName_newEntry hname.2
  have hput : PtrArray.ofList (put name.chars (newEntry name value 0) env.entries) =
      putenv (newEntry name value 0) env := by
    rw [Environ.putenv, hnew]
  rw [Environ.setenvKeep, hput] at h
  by_cases hset : getenv env name.chars = none
  · rw [if_neg (not_not_intro hset)] at h
    obtain ⟨-, heq⟩ := Option.ite_none_right_eq_some.mp h
    obtain rfl := Option.some.inj heq
    by_cases hn : n.val = name.chars
    · have hnone : vars env n = none := by
        rw [← hn] at hset
        exact hset
      have hself : getenv (putenv (newEntry name value 0) env) name.chars = some value.chars :=
        getenv_newEntry hname env
      rw [hnone, if_pos hn]
      rw [← hn] at hself
      exact hself
    · have hother : vars (putenv (newEntry name value 0) env) n = vars env n :=
        getenv_putenv_of_ne n.property hn hnew env
      rw [if_neg hn, hother]
      cases vars env n <;> rfl
  · rw [if_pos hset] at h
    obtain rfl := Option.some.inj h
    by_cases hn : n.val = name.chars
    · rw [← hn] at hset
      obtain ⟨v, hv⟩ := Option.ne_none_iff_exists'.mp hset
      rw [show vars env n = some v from hv]
    · rw [if_neg hn]
      cases vars env n <;> rfl

theorem vars_unsetenv {name : CStr} (env : PtrArray Entry) (n : Name) :
    vars (unsetenv name env) n = if n.val = name.chars then none else vars env n := by
  have hn := n.property
  show getenv (unsetenv name env) n = _
  rw [getenv, if_neg hn.1, unsetenv, PtrArray.entries_ofList]
  split
  · rename_i hself
    rw [lookup_eq_none_iff hn.2]
    intro e he hvar
    have hkept := of_decide_eq_true (List.mem_filter.mp he).2
    exact hkept (hvar.trans (congrArg some hself))
  · rename_i hne
    have hkept : ∀ e ∈ env.entries, e.varName = some n.val →
        decide (e.varName ≠ some name.chars) = true := fun e _ hvar =>
      decide_eq_true fun heq => hne (Option.some.inj (hvar.symm.trans heq))
    exact (lookup_filter hn.2 hkept).trans (if_neg hn.1).symm

/-! ## The end of the program -/

/-- The loop gets to all arguments exactly if there are at most 126. -/
theorem seen_eq_tail_iff {argv : List Entry} : seen argv = argv.tail ↔ argv.length ≤ 127 := by
  rw [seen, List.drop_one]
  constructor
  · intro h
    by_contra hlong
    have hcut := charArgc_add_le (not_le.mp hlong)
    have hlen := congrArg List.length h
    rw [List.length_tail, List.length_tail, List.length_take] at hlen
    omega
  · intro h
    rw [charArgc_of_le h, Int.toNat_natCast, List.take_length]

/-- The loop comes to its end exactly if no call fails. -/
theorem foldlM_putArg (ok : ℕ → Bool) (args : List Entry) (k : ℕ) (env : PtrArray Entry) :
    (args.zipIdx k).foldlM (putArg ok) env =
      if ∀ i < args.length, ok (k + i) then
        some (args.foldl (fun env arg => putenv arg env) env)
      else none := by
  induction args generalizing k env with
  | nil => exact (if_pos fun i hi => absurd hi (Nat.not_lt_zero i)).symm
  | cons arg args ih =>
    have hshift : ∀ i, k + 1 + i = k + (i + 1) := fun i => by omega
    rw [List.zipIdx_cons, List.foldlM_cons, putArg]
    by_cases hk : ok k = true
    · rw [if_pos hk]
      refine (ih (k + 1) _).trans (if_congr ?_ rfl rfl)
      constructor
      · rintro hrest (- | i) hi
        · exact hk
        · exact hshift i ▸ hrest i (Nat.lt_of_succ_lt_succ hi)
      · exact fun hall i hi => (hshift i).symm ▸ hall (i + 1) (Nat.succ_lt_succ hi)
    · rw [if_neg hk, if_neg fun hall => hk (hall 0 (Nat.succ_pos _))]
      rfl

theorem isSome_setenvKeep {name : CStr} (value : CStr) {ok : Bool} {env : PtrArray Entry} :
    (setenvKeep name value ok env).isSome ↔ getenv env name.chars ≠ none ∨ ok = true := by
  unfold setenvKeep
  by_cases hset : getenv env name.chars = none
  · rw [if_neg (not_not_intro hset), Option.isSome_ite]
    exact (or_iff_right (not_not_intro hset)).symm
  · rw [if_pos hset]
    exact iff_of_true rfl (.inl hset)

/-- No `putenv` fails, and `setenv` does not fail either, or has nothing to do. -/
def Goes (putenvOk : ℕ → Bool) (setenvOk : Bool) (args : List Entry) : Prop :=
  (∀ i < args.length, putenvOk (1 + i)) ∧
    (argValue args ⟨greetStr.chars, by decide⟩ ≠ none ∨ setenvOk = true)

instance (putenvOk : ℕ → Bool) (setenvOk : Bool) (args : List Entry) :
    Decidable (Goes putenvOk setenvOk args) :=
  instDecidableAnd

/-- How the program comes to its end. -/
theorem modifyEnv_eq_some_iff {putenvOk : ℕ → Bool} {setenvOk : Bool} {argv : List Entry}
    {env : PtrArray Entry} :
    modifyEnv putenvOk setenvOk argv = some env ↔
      (∀ i < (seen argv).length, putenvOk (1 + i)) ∧
        ∃ env', setenvKeep greetStr helloStr setenvOk
            ((seen argv).foldl (fun env arg => putenv arg env) clearenv) = some env' ∧
          unsetenv byeStr env' = env := by
  unfold modifyEnv
  rw [foldlM_putArg]
  by_cases hputs : ∀ i < (seen argv).length, putenvOk (1 + i) = true
  · rw [if_pos hputs, and_iff_right hputs]
    show (setenvKeep greetStr helloStr setenvOk _).bind _ = _ ↔ _
    refine Option.bind_eq_some_iff.trans (exists_congr fun env' => ?_)
    rw [Option.some_inj]
  · rw [if_neg hputs]
    exact iff_of_false (fun h => by cases h) fun h => hputs h.1

theorem isSome_modifyEnv (putenvOk : ℕ → Bool) (setenvOk : Bool) (argv : List Entry) :
    (modifyEnv putenvOk setenvOk argv).isSome ↔ Goes putenvOk setenvOk (seen argv) := by
  have hgreet : getenv ((seen argv).foldl (fun env arg => putenv arg env) clearenv)
      greetStr.chars = argValue (seen argv) ⟨greetStr.chars, by decide⟩ :=
    congrFun (vars_putArgs (seen argv)) ⟨greetStr.chars, by decide⟩
  rw [Goes, ← hgreet, ← isSome_setenvKeep helloStr, Option.isSome_iff_exists,
    Option.isSome_iff_exists]
  simp only [modifyEnv_eq_some_iff]
  constructor
  · exact fun ⟨_, hputs, env', hset, _⟩ => ⟨hputs, env', hset⟩
  · exact fun ⟨hputs, env', hset⟩ => ⟨_, hputs, env', hset, rfl⟩

/-- What a program that comes to its end prints. -/
theorem lines_of_modifyEnv {putenvOk : ℕ → Bool} {setenvOk : Bool} {argv : List Entry}
    {env : PtrArray Entry} (h : modifyEnv putenvOk setenvOk argv = some env) (n : Name) :
    (entriesOf n env.entries).map (fun e => e.str.chars) =
      ((lastValue (seen argv) n).map (line n)).toList := by
  obtain ⟨-, env', hset, rfl⟩ := modifyEnv_eq_some_iff.mp h
  have hempty : Single clearenv := fun _ => by
    rw [clearenv, PtrArray.entries_ofList]
    exact Nat.zero_le 1
  have hargs : Single ((seen argv).foldl (fun env arg => putenv arg env) clearenv) :=
    List.foldlRecOn (seen argv) _ hempty fun env henv arg _ => henv.putenv arg
  have hsingle : Single (unsetenv byeStr env') :=
    (hargs.setenvKeep (by decide) hset).filter _
  rw [hsingle.lines]
  refine congrArg (fun v => (Option.map (line n) v).toList) ?_
  rw [vars_unsetenv, vars_setenvKeep (by decide) hset, vars_putArgs]
  rfl

/-- **What `modify_env` prints.**  For any arguments and any results of its calls the program comes
to its end exactly if no call fails that it makes; and then the lines for a name are the one line of
the value that the name has in the end, or none. -/
theorem modifyEnv_lines (putenvOk : ℕ → Bool) (setenvOk : Bool) (argv : List Entry) :
    (modifyEnv putenvOk setenvOk argv).map
        (fun env (n : Name) => (entriesOf n env.entries).map fun e => e.str.chars) =
      if Goes putenvOk setenvOk (seen argv) then
        some fun n : Name => ((lastValue (seen argv) n).map (line n)).toList
      else none := by
  have hiff := isSome_modifyEnv putenvOk setenvOk argv
  cases hrun : modifyEnv putenvOk setenvOk argv with
  | none =>
    rw [hrun] at hiff
    exact (if_neg fun h => Bool.false_ne_true (hiff.mpr h)).symm
  | some env =>
    rw [hrun] at hiff
    rw [if_pos (hiff.mp rfl), Option.map_some]
    exact congrArg some (funext fun n => lines_of_modifyEnv hrun n)

end Environ
end CodeStrudy
