import CodeStrudy.Foundation.HeapBlock
import CodeStrudy.Foundation.Loop

/-!
# The vectors for `execve`

`practice/27.2/main.c`: `myExeclp` copies its arguments to an array that it makes larger when it is
nearly full, and copies the environment to an array of its own.  The larger array is asked for with
`realloc(argv, sizeof(char *))`, which leaves one cell, and the array for the environment with
`calloc(i = 1, sizeof(char *))`, which gives one cell whatever was counted before.

## What is proved

* `vectors_iff`: the vectors are those that `execve` should get, and no index leaves its array,
  exactly for at most 98 arguments and an empty environment.
-/

namespace CodeStrudy
namespace Execlp

open Foundation Loop

variable {α : Type*}

/-! ## The argument vector -/

/-- The array with its size as the function counts it, and what `va_arg` has not yet delivered. -/
structure ArgState (α : Type*) where
  argv : List (Option α)
  argvSize : ℕ
  argc : ℕ
  argList : List α

/-- One test and pass of `while (argv[argc - 1] != NULL)`; the loop has no result when an index
leaves the array. -/
def argPass (s : ArgState α) : ArgState α ⊕ Option (ArgState α) :=
  match s.argv[s.argc - 1]? with
  | none => .inr none
  | some none => .inr (some s)
  | some (some _) =>
    let argvSize := if s.argvSize ≤ s.argc + 1 then s.argvSize + 100 else s.argvSize
    let argv := if s.argvSize ≤ s.argc + 1 then s.argv.take 1 else s.argv
    match store? argv s.argc s.argList.head? with
    | none => .inr none
    | some argv => .inl ⟨argv, argvSize, s.argc + 1, s.argList.tail⟩

/-- `calloc(argvSize, sizeof(char *))`, `argv[0] = arg` and `argc = 1`. -/
def argInit (args : List α) : ArgState α where
  argv := (List.replicate 100 none).set 0 args.head?
  argvSize := 100
  argc := 1
  argList := args.tail

/-! ## The environment -/

/-- `for (i = 0; environ[i] != NULL; i++) envp[i] = strdup(environ[i]);` and `envp[i] = NULL`. -/
def copyEnviron : List α → ℕ → List (Option α) → Option (List (Option α))
  | [], i, envp => store? envp i none
  | e :: environ, i, envp => (store? envp i (some e)).bind (copyEnviron environ (i + 1))

/-- What is handed to `execve`, with the count that the function keeps of its arguments. -/
structure Vectors (α : Type*) where
  argv : List (Option α)
  argc : ℕ
  envp : List (Option α)

/-- The first two parts of `myExeclp`, if the loop over the arguments ends within the given number
of passes.  `calloc(i = 1, sizeof(char *))` gives one cell. -/
def buildVectors (fuel : ℕ) (args environ : List α) : Option (Option (Vectors α)) :=
  (runFor argPass fuel (argInit args)).map fun r =>
    r.bind fun s =>
      (copyEnviron environ 0 (List.replicate 1 none)).map fun envp => ⟨s.argv, s.argc, envp⟩

/-! ## The passes of the loop -/

section

variable {args : List α}

/-- The state before pass `k`: the first `k + 1` cells are those of the finished array. -/
structure ArgStage (args : List α) (k : ℕ) (s : ArgState α) : Prop where
  argc : s.argc = k + 1
  argvSize : s.argvSize = 100
  argList : s.argList = args.drop (k + 1)
  argv : s.argv = (args.map some ++ [none]).take (k + 1) ++ List.replicate (99 - k) none
  le_length : k ≤ args.length
  le : k ≤ 98

theorem argStage_init (args : List α) : ArgStage args 0 (argInit args) := by
  refine ⟨rfl, rfl, ?_, ?_, Nat.zero_le _, by decide⟩
  · cases args <;> rfl
  · cases args <;> rfl

/-- The cells of the finished array, the null pointer included. -/
theorem getElem?_cells {k : ℕ} (h : k ≤ args.length) :
    (args.map some ++ [none])[k]? = some args[k]? := by
  rcases Nat.lt_or_eq_of_le h with hlt | rfl
  · rw [List.getElem?_append_left (by simpa using hlt), List.getElem?_map,
      List.getElem?_eq_getElem hlt]
    rfl
  · rw [List.getElem?_append_right (by simp), List.length_map, Nat.sub_self,
      List.getElem?_eq_none (Nat.le_refl _)]
    rfl

theorem length_take_cells {k : ℕ} (h : k ≤ args.length) :
    ((args.map some ++ [none]).take (k + 1)).length = k + 1 := by
  rw [List.length_take, List.length_append, List.length_map, List.length_singleton]
  omega

/-- What the test of pass `k` reads. -/
theorem ArgStage.getElem? {k : ℕ} {s : ArgState α} (hs : ArgStage args k s) :
    s.argv[s.argc - 1]? = some args[k]? := by
  have hlen := length_take_cells hs.le_length
  rw [hs.argc, Nat.add_sub_cancel, hs.argv, List.getElem?_append_left (by omega),
    List.getElem?_take_of_lt (Nat.lt_succ_self k), getElem?_cells hs.le_length]

theorem argPass_of_lt {k : ℕ} {s : ArgState α} (hs : ArgStage args k s)
    (hlt : k < args.length) (h98 : k < 98) :
    ∃ t, argPass s = .inl t ∧ ArgStage args (k + 1) t := by
  have hlen := length_take_cells hs.le_length
  have hgrow : ¬ s.argvSize ≤ s.argc + 1 := by
    rw [hs.argvSize, hs.argc]
    omega
  have hhead : s.argList.head? = args[k + 1]? := by rw [hs.argList, List.head?_drop]
  -- the cell stored to is the one behind the finished ones
  have hstore : store? s.argv s.argc s.argList.head? = some
      ((args.map some ++ [none]).take (k + 1 + 1) ++ List.replicate (99 - (k + 1)) none) := by
    have hnone : 99 - k = 99 - (k + 1) + 1 := by omega
    have h := store?_length ((args.map some ++ [none]).take (k + 1))
      (List.replicate (99 - (k + 1)) none) args[k + 1]? none
    rw [hlen] at h
    rw [hhead, hs.argc, hs.argv, hnone, List.replicate_succ, h, List.take_add_one (i := k + 1),
      getElem?_cells hlt, List.append_assoc]
    rfl
  unfold argPass
  rw [hs.getElem?, List.getElem?_eq_getElem hlt]
  simp only [if_neg hgrow, hstore]
  refine ⟨_, rfl, by rw [hs.argc], hs.argvSize, ?_, rfl, hlt, h98⟩
  show s.argList.tail = _
  rw [hs.argList, List.tail_drop]

/-- The loop is left at the null pointer. -/
theorem argPass_of_eq {s : ArgState α} (hs : ArgStage args args.length s) :
    argPass s = .inr (some s) := by
  unfold argPass
  rw [hs.getElem?, List.getElem?_eq_none (Nat.le_refl _)]

/-- Before the hundredth cell is stored to, the array is cut to one cell. -/
theorem argPass_of_full {s : ArgState α} (hs : ArgStage args 98 s) (hlt : 98 < args.length) :
    argPass s = .inr none := by
  have hgrow : s.argvSize ≤ s.argc + 1 := by
    rw [hs.argvSize, hs.argc]
  unfold argPass
  rw [hs.getElem?, List.getElem?_eq_getElem hlt]
  simp only [if_pos hgrow]
  rw [store?_of_le]
  rw [List.length_take, hs.argc]
  omega

/-- The array that the loop leaves behind is the finished one. -/
theorem ArgStage.terminated {s : ArgState α} (hs : ArgStage args args.length s) :
    Terminated s.argv args := by
  refine ⟨List.replicate (99 - args.length) none, ?_⟩
  rw [hs.argv, List.take_of_length_le (by simp), List.append_assoc]
  rfl

/-- What the loop leaves behind, if no index leaves the array. -/
theorem terminated_of_returns {s : ArgState α}
    (h : Returns argPass (argInit args) (some s)) :
    Terminated s.argv args ∧ s.argc = args.length + 1 := by
  refine Returns.invariant (fun s => ∃ k, ArgStage args k s)
    (fun r => ∀ s, r = some s → Terminated s.argv args ∧ s.argc = args.length + 1)
    ?_ ?_ ⟨0, argStage_init args⟩ h s rfl
  · rintro s t ⟨k, hs⟩ hbody
    rcases Nat.lt_or_eq_of_le hs.le_length with hlt | rfl
    · rcases Nat.lt_or_eq_of_le hs.le with h98 | rfl
      · obtain ⟨t', ht', hstage⟩ := argPass_of_lt hs hlt h98
        obtain rfl := Sum.inl.inj (hbody.symm.trans ht')
        exact ⟨k + 1, hstage⟩
      · exact absurd (hbody.symm.trans (argPass_of_full hs hlt)) Sum.inl_ne_inr
    · exact absurd (hbody.symm.trans (argPass_of_eq hs)) Sum.inl_ne_inr
  · rintro s _ ⟨k, hs⟩ hbody s' rfl
    rcases Nat.lt_or_eq_of_le hs.le_length with hlt | rfl
    · rcases Nat.lt_or_eq_of_le hs.le with h98 | rfl
      · obtain ⟨t', ht', -⟩ := argPass_of_lt hs hlt h98
        exact absurd (ht'.symm.trans hbody) Sum.inl_ne_inr
      · cases Sum.inr.inj (hbody.symm.trans (argPass_of_full hs hlt))
    · obtain rfl := Option.some.inj (Sum.inr.inj (hbody.symm.trans (argPass_of_eq hs)))
      exact ⟨hs.terminated, hs.argc⟩

/-- **The argument vector.**  The loop ends without an index that leaves the array exactly for at
most 98 arguments. -/
theorem exists_returns_argPass_iff :
    (∃ s, Returns argPass (argInit args) (some s)) ↔ args.length ≤ 98 := by
  have hloop := returns_iff_of_stages (ArgStage args)
    (fun k => k = args.length ∨ k = 98) (fun k => k = args.length) (fun r => ∃ s, r = some s)
    (fun k s hs hstop => argPass_of_lt hs
      (Nat.lt_of_le_of_ne hs.le_length fun h => hstop (Or.inl h))
      (Nat.lt_of_le_of_ne hs.le fun h => hstop (Or.inr h)))
    (fun k s hs hstop => by
      by_cases hk : k = args.length
      · subst hk
        exact ⟨some s, argPass_of_eq hs, iff_of_true ⟨s, rfl⟩ rfl⟩
      · obtain rfl : k = 98 := hstop.resolve_left hk
        have hlt : 98 < args.length := Nat.lt_of_le_of_ne hs.le_length hk
        refine ⟨none, argPass_of_full hs hlt, iff_of_false ?_ hk⟩
        rintro ⟨s', hs'⟩
        cases hs')
    (argStage_init args)
  constructor
  · rintro ⟨s, hs⟩
    obtain ⟨j, -, hfirst, -, rfl⟩ := hloop.mp ⟨some s, hs, s, rfl⟩
    by_contra hlt
    exact hfirst 98 (Nat.zero_le _) (by omega) (Or.inr rfl)
  · intro hle
    obtain ⟨_, hs, s, rfl⟩ := hloop.mpr ⟨args.length, Nat.zero_le _, fun i _ hi => by omega,
      Or.inl rfl, rfl⟩
    exact ⟨s, hs⟩

end

/-! ## The two vectors -/

section

variable {environ : List α}

theorem copyEnviron_of_le {i : ℕ} {envp : List (Option α)} (h : envp.length ≤ i) :
    copyEnviron environ i envp = none := by
  cases environ with
  | nil => exact store?_of_le h none
  | cons e environ => rw [copyEnviron, store?_of_le h, Option.bind_none]

/-- The copy of an environment that is not empty leaves the one cell there is for it. -/
theorem copyEnviron_one_cell :
    copyEnviron environ 0 (List.replicate 1 none) =
      if environ = [] then some [none] else none := by
  cases environ with
  | nil => rfl
  | cons e environ =>
    rw [if_neg (List.cons_ne_nil e environ), copyEnviron]
    exact copyEnviron_of_le (Nat.le_refl 1)

end

/-- What is built without leaving an array. -/
theorem terminated_of_buildVectors {args environ : List α} {fuel : ℕ} {v : Vectors α}
    (h : buildVectors fuel args environ = some (some v)) :
    (Terminated v.argv args ∧ v.argc = args.length + 1) ∧ environ = [] ∧ v.envp = [none] := by
  obtain ⟨r, hrun, hr⟩ := Option.map_eq_some_iff.mp h
  obtain ⟨s, rfl, hs⟩ := Option.bind_eq_some_iff.mp hr
  obtain ⟨envp, henvp, rfl⟩ := Option.map_eq_some_iff.mp hs
  rw [copyEnviron_one_cell, Option.ite_none_right_eq_some] at henvp
  exact ⟨terminated_of_returns ⟨fuel, hrun⟩, henvp.1, (Option.some.inj henvp.2).symm⟩

theorem le_of_buildVectors {args environ : List α} {fuel : ℕ} {v : Vectors α}
    (h : buildVectors fuel args environ = some (some v)) : args.length ≤ 98 ∧ environ = [] := by
  obtain ⟨r, hrun, hr⟩ := Option.map_eq_some_iff.mp h
  obtain ⟨s, rfl, -⟩ := Option.bind_eq_some_iff.mp hr
  exact ⟨exists_returns_argPass_iff.mp ⟨s, fuel, hrun⟩, (terminated_of_buildVectors h).2.1⟩

theorem exists_buildVectors {args : List α} (h : args.length ≤ 98) :
    ∃ fuel v, buildVectors fuel args [] = some (some v) := by
  obtain ⟨s, fuel, hrun⟩ := exists_returns_argPass_iff.mpr h
  refine ⟨fuel, ⟨s.argv, s.argc, [none]⟩, ?_⟩
  rw [buildVectors, hrun]
  rfl

theorem buildVectors_of_le {args environ : List α} {fuel fuel' : ℕ} {r : Option (Vectors α)}
    (h : buildVectors fuel args environ = some r) (hle : fuel ≤ fuel') :
    buildVectors fuel' args environ = some r := by
  obtain ⟨r', hrun, rfl⟩ := Option.map_eq_some_iff.mp h
  rw [buildVectors, runFor_of_le hrun hle]
  rfl

/-- **When the vectors are right**: there are at most 98 arguments, and the environment is empty. -/
theorem vectors_iff (args environ : List α) :
    (∃ fuel v, buildVectors fuel args environ = some (some v) ∧
        Terminated v.argv args ∧ Terminated v.envp environ) ↔
      args.length ≤ 98 ∧ environ = [] := by
  constructor
  · rintro ⟨fuel, v, hbuild, -, -⟩
    exact le_of_buildVectors hbuild
  · rintro ⟨hlen, rfl⟩
    obtain ⟨fuel, v, hbuild⟩ := exists_buildVectors hlen
    obtain ⟨⟨hargv, -⟩, -, henvp⟩ := terminated_of_buildVectors hbuild
    exact ⟨fuel, v, hbuild, hargv, [], henvp⟩

/-- One string in the environment is one too many. -/
theorem not_vectors : ¬ ∀ args environ : List ℕ, ∃ fuel v,
    buildVectors fuel args environ = some (some v) ∧
      Terminated v.argv args ∧ Terminated v.envp environ := by
  intro h
  obtain ⟨fuel, v, hbuild, -⟩ := h [] [0]
  cases (terminated_of_buildVectors hbuild).2.1

end Execlp
end CodeStrudy
