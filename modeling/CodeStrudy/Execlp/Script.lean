import CodeStrudy.Execlp.Search

/-!
# Scripts

When `execve` fails with `ENOEXEC`, the file found is taken for a script and the shell is executed.
`execShScrip` puts the pathname of the shell before the arguments, and leaves the arguments as they
are: the first of them, which the caller chooses, stands where the shell looks for its script.

## What is proved

* `followed_search`: in every run, a pathname that fails with `ENOEXEC` is followed by the shell
  with the arguments behind its own pathname.
* `shell_runs_script_iff`: the shell is given the pathname found exactly if this is the first
  argument, there are at most 98 arguments, and the environment is empty.
-/

namespace CodeStrudy
namespace Execlp

open Foundation Loop

/-- Every pathname that fails with `ENOEXEC` is followed by the shell with the given vector. -/
def Followed (shArg : List (Option (List UInt8))) (execs : List Event) : Prop :=
  ∀ i path, execs[i]? = some (.tried path (some ENOEXEC)) →
    ∃ err, execs[i + 1]? = some (.shell shArg err)

theorem Followed.append {shArg : List (Option (List UInt8))} {xs ys : List Event}
    (hxs : Followed shArg xs) (hys : Followed shArg ys) : Followed shArg (xs ++ ys) := by
  intro i path h
  by_cases hi : i < xs.length
  · rw [List.getElem?_append_left hi] at h
    obtain ⟨err, herr⟩ := hxs i path h
    have hlt := (List.getElem?_eq_some_iff.mp herr).1
    exact ⟨err, by rw [List.getElem?_append_left hlt, herr]⟩
  · rw [List.getElem?_append_right (by omega)] at h
    obtain ⟨err, herr⟩ := hys _ path h
    refine ⟨err, ?_⟩
    rw [List.getElem?_append_right (by omega), show i + 1 - xs.length = i - xs.length + 1 by omega,
      herr]

theorem followed_nil (shArg : List (Option (List UInt8))) : Followed shArg [] :=
  fun _ _ h => nomatch h

theorem followed_tried {shArg : List (Option (List UInt8))} {path : List UInt8} {err : Option ℤ}
    (h : err ≠ some ENOEXEC) : Followed shArg [.tried path err] := by
  intro i path' hget
  cases i with
  | zero => exact absurd (Event.tried.inj (Option.some.inj hget)).2 h
  | succ i => cases hget

theorem followed_shell (shArg : List (Option (List UInt8))) (path : List UInt8)
    (err err' : Option ℤ) : Followed shArg [.tried path err, .shell shArg err'] := by
  intro i path' hget
  match i with
  | 0 => exact ⟨err', rfl⟩
  | 1 => cases hget
  | i + 2 => cases hget

section

variable {c : Prepared}

/-- The vector that the shell gets in this call. -/
def Prepared.shArg (c : Prepared) : List (Option (List UInt8)) :=
  some SHELL_PATH :: c.args.map some ++ [none]

/-- An attempt adds to the calls what keeps this. -/
theorem followed_attempt (path : List UInt8) {execs : List Event}
    (h : Followed c.shArg execs) : Followed c.shArg (c.attempt path execs).2 := by
  unfold Prepared.attempt
  rw [c.execShScrip_eq]
  cases c.exec execs.length path with
  | none => exact h.append (followed_tried (Option.some_ne_none _).symm)
  | some err =>
    simp only
    split
    · cases c.exec (execs.length + 1) SHELL_PATH with
      | none => exact h.append (followed_shell _ _ _ _)
      | some err' => exact h.append (followed_shell _ _ _ _)
    · rename_i herr
      exact h.append (followed_tried fun heq => herr (Option.some.inj heq))

/-- What one pass does to the calls made so far, and what it leaves them as when the loop ends. -/
theorem pass_execs {s : SearchState} (h : Followed c.shArg s.execs) :
    (∀ t, c.pass s = .inl t → Followed c.shArg t.execs) ∧
      ∀ o, c.pass s = .inr o → Followed c.shArg o.execs := by
  unfold Prepared.pass
  split
  · exact ⟨fun _ ht => (nomatch ht), fun _ ho => Sum.inr.inj ho ▸ h⟩
  simp only
  split
  · exact ⟨fun _ ht => (nomatch ht), fun _ ho => Sum.inr.inj ho ▸ h⟩
  rename_i pathName _
  have hattempt := followed_attempt (cstr pathName) h
  split
  all_goals
    rename_i heq
    rw [heq] at hattempt
  · exact ⟨fun _ ht => (nomatch ht), fun _ ho => Sum.inr.inj ho ▸ hattempt⟩
  · exact ⟨fun _ ht => (nomatch ht), fun _ ho => Sum.inr.inj ho ▸ hattempt⟩
  · exact ⟨fun _ ht => Sum.inl.inj ht ▸ hattempt, fun _ ho => nomatch ho⟩

/-- **In every run** the shell follows on a pathname that fails with `ENOEXEC`. -/
theorem followed_search {fuel : ℕ} {o : Outcome} (h : c.search fuel = some o) :
    Followed c.shArg o.execs := by
  unfold Prepared.search at h
  split at h
  · have hattempt := followed_attempt (c := c) c.filename.chars (followed_nil _)
    split at h
    all_goals
      rename_i heq
      rw [heq] at hattempt
      cases h
      exact hattempt
  · exact Returns.invariant (fun s => Followed c.shArg s.execs)
      (fun o => Followed c.shArg o.execs)
      (fun s t hs ht => (pass_execs hs).1 t ht) (fun s r hs hr => (pass_execs hs).2 r hr)
      (followed_nil _) ⟨fuel, h⟩

end

/-- The shell gets the pathname where its script should stand exactly if that is the first
argument. -/
theorem search_runs_script_iff {c : Prepared} {fuel : ℕ} {o : Outcome}
    (hrun : c.search fuel = some o) {i : ℕ} {path : List UInt8}
    (hpath : o.execs[i]? = some (.tried path (some ENOEXEC))) :
    (∃ err, o.execs[i + 1]? = some
        (.shell (some SHELL_PATH :: some path :: c.args.tail.map some ++ [none]) err)) ↔
      c.args.head? = some path := by
  obtain ⟨err, hshell⟩ := followed_search hrun i path hpath
  rw [hshell]
  unfold Prepared.shArg
  cases c.args with
  | nil => simp
  | cons a args => simp

/-! ## The whole call -/

/-- The `i`-th call of `execve`, with the vectors it should get, is for this pathname and fails with
`ENOEXEC`. -/
def Call.Resolves (c : Call) (i : ℕ) (path : List UInt8) : Prop :=
  ∃ fuel o, c.ideal.search fuel = some o ∧ o.execs[i]? = some (.tried path (some ENOEXEC))

/-- The call gets there, and then gives the shell the pathname and the arguments behind the
first. -/
def Call.RunsScript (c : Call) (i : ℕ) (path : List UInt8) : Prop :=
  ∃ fuel o err, c.myExeclp fuel = some o ∧ o.execs[i]? = some (.tried path (some ENOEXEC)) ∧
    o.execs[i + 1]? = some
      (.shell (some SHELL_PATH :: some path :: c.args.tail.map some ++ [none]) err)

/-- **When the shell runs the script.**  There are at most 98 arguments and the environment is
empty, so that the call gets to `execve` at all, and the first argument is the pathname. -/
theorem shell_runs_script_iff (c : Call) (i : ℕ) (path : List UInt8) (h : c.Resolves i path) :
    c.RunsScript i path ↔
      c.args.length ≤ 98 ∧ c.environ = [] ∧ c.args.head? = some path := by
  constructor
  · rintro ⟨fuel, o, err, hrun, hpath, hshell⟩
    by_cases hbuilt : c.args.length ≤ 98 ∧ c.environ = []
    · obtain ⟨fuel', hrun'⟩ := (c.exists_myExeclp_iff hbuilt.1 hbuilt.2 o).mp ⟨fuel, hrun⟩
      exact ⟨hbuilt.1, hbuilt.2, (search_runs_script_iff hrun' hpath).mp ⟨err, hshell⟩⟩
    · rw [c.eq_undefined_of_not_vectors hbuilt hrun] at hpath
      cases hpath
  · rintro ⟨hlen, henv, hhead⟩
    obtain ⟨fuel, o, hrun, hpath⟩ := h
    obtain ⟨fuel', hrun'⟩ := (c.exists_myExeclp_iff hlen henv o).mpr ⟨fuel, hrun⟩
    obtain ⟨err, hshell⟩ := (search_runs_script_iff hrun hpath).mpr hhead
    exact ⟨fuel', o, err, hrun', hpath, hshell⟩

/-- `myExeclp("./s", ..., NULL)` where the first `execve` fails with `ENOEXEC` and the shell cannot
be executed either. -/
def scriptCall (args : List (List UInt8)) : Call where
  filename := ⟨[dot, slash, 0x73], by decide⟩
  args
  environ := []
  exec k _ := some (if k = 0 then ENOEXEC else 2)
  garbage _ _ := 0
  morePrefixes := 0
  saveError := 0

/-- With the pathname as the first argument the shell runs the script. -/
theorem shell_runs_script_itself :
    (scriptCall [[dot, slash, 0x73]]).RunsScript 0 [dot, slash, 0x73] :=
  (shell_runs_script_iff (scriptCall [[dot, slash, 0x73]]) 0 [dot, slash, 0x73]
    ⟨0, _, rfl, rfl⟩).mpr ⟨by decide, rfl, rfl⟩

/-- With any other first argument it runs that. -/
theorem not_shell_runs_script : ¬ ∀ (c : Call) (i : ℕ) (path : List UInt8), c.args ≠ [] →
    c.Resolves i path → c.RunsScript i path := by
  intro h
  obtain ⟨fuel, o, err, hrun, -, hshell⟩ := h (scriptCall [[0x78]]) 0 [dot, slash, 0x73]
    (List.cons_ne_nil _ _) ⟨0, _, rfl, rfl⟩
  obtain ⟨fuel', hrun'⟩ := ((scriptCall [[0x78]]).exists_myExeclp_iff (by decide) rfl o).mp
    ⟨fuel, hrun⟩
  have hsearch : (scriptCall [[0x78]]).ideal.search fuel' = some (.returned ENOEXEC
      [.tried [dot, slash, 0x73] (some ENOEXEC),
        .shell [some SHELL_PATH, some [0x78], none] (some 2)]) := rfl
  rw [← Option.some.inj (hsearch.symm.trans hrun')] at hshell
  cases hshell

end Execlp
end CodeStrudy
