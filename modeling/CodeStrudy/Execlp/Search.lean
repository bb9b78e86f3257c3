import CodeStrudy.Execlp.Vectors
import CodeStrudy.Foundation.Separator
import Mathlib.Data.Int.Notation

/-!
# Looking for the program

`practice/27.2/main.c`: a file name with a slash is executed as it is given; any other is looked for
in the directories of `PATH`.  Whatever `execve` fails with, the call goes on, and when it fails
with `ENOEXEC` the shell is tried in between (`execShScrip`).

A call of `myExeclp` builds the vectors, looks for the program, and frees what it has allocated.
Three things are read before they are set: `morePrefixes`, `saveError`, and each block that `malloc`
gives for a pathname, to which `strcat` appends.  They are parameters.  A store outside of an array
or a block ends the run here, with no result.

## What is proved

* `pass_init`: what the first pass over the segments of `PATH` does.
* `search_iff`: when what follows the vectors tries what it should and reports the error it should.
* `searches_iff`: when the whole call does.  It needs an empty environment, in which there is no
  `PATH`.
-/

namespace CodeStrudy
namespace Execlp

open Foundation Loop

/-- The byte `/`. -/
def slash : UInt8 := 0x2f

/-- The byte `.`. -/
def dot : UInt8 := 0x2e

/-- The byte `:`. -/
def colon : UInt8 := 0x3a

/-- The byte `=`. -/
def equals : UInt8 := 0x3d

/-- `"PATH"` -/
def PATH : List UInt8 := [0x50, 0x41, 0x54, 0x48]

def ENOEXEC : ℤ := 8

def EACCES : ℤ := 13

/-- `"/bin/sh"` -/
def SHELL_PATH : List UInt8 := [slash, 0x62, 0x69, 0x6e, slash, 0x73, 0x68]

/-! ## The calls of `execve` -/

/-- A call of `execve`: for a pathname of the search, or for the shell with the vector it gets.  It
fails with an error, or does not return. -/
inductive Event where
  | tried (path : List UInt8) (err : Option ℤ)
  | shell (argv : List (Option (List UInt8))) (err : Option ℤ)
  deriving DecidableEq

/-- A call of `myExeclp`: the file name, the arguments, the environment, what the `k`-th call of
`execve` fails with, and what is found in memory before it is set. -/
structure Call where
  filename : CStr
  args : List (List UInt8)
  environ : List CStr
  exec : ℕ → List UInt8 → Option ℤ
  /-- The byte at an offset of the `k`-th block that `malloc` gives. -/
  garbage : ℕ → ℕ → UInt8
  morePrefixes : UInt8
  saveError : ℤ

/-- A call whose vectors have been built. -/
structure Prepared where
  filename : CStr
  /-- What `getenv("PATH")` returns. -/
  path : Option CStr
  args : List (List UInt8)
  argv : List (Option (List UInt8))
  /-- The array has the arguments and a null pointer behind them. -/
  terminated : Terminated argv args
  exec : ℕ → List UInt8 → Option ℤ
  garbage : ℕ → ℕ → UInt8
  morePrefixes : UInt8
  saveError : ℤ

/-- `argc` counts the null pointer. -/
def Prepared.argc (c : Prepared) : ℕ := c.args.length + 1

/-- The value of the first string that defines the variable. -/
def getenv (environ : List CStr) (name : List UInt8) : Option CStr :=
  environ.findSome? fun e =>
    if name ++ [equals] <+: e.chars then
      some ⟨e.chars.drop (name.length + 1), fun h => e.zero_notMem (List.mem_of_mem_drop h)⟩
    else none

/-- The call goes on with its arguments in this array. -/
def Call.prepare (c : Call) (argv : List (Option (List UInt8)))
    (terminated : Terminated argv c.args) : Prepared :=
  { c with path := getenv c.environ PATH, argv, terminated }

/-- The call with the array that `execve` should get. -/
def Call.ideal (c : Call) : Prepared := c.prepare (c.args.map some ++ [none]) ⟨[], rfl⟩

/-! ## `execShScrip` -/

/-- `for (int i = 0; i < argc; i++) shArg[i + 1] = argv[i];` from a given `i` on, with the number of
passes to come. -/
def shLoop (argv : List (Option (List UInt8))) :
    ℕ → ℕ → List (Option (List UInt8)) → Option (List (Option (List UInt8)))
  | 0, _, shArg => some shArg
  | more + 1, i, shArg =>
    argv[i]?.bind fun a => (store? shArg (i + 1) a).bind (shLoop argv more (i + 1))

/-- The vector that `execShScrip` makes for the shell. -/
def execShScrip (argc : ℕ) (argv : List (Option (List UInt8))) :
    Option (List (Option (List UInt8))) :=
  (store? (List.replicate (argc + 1) none) 0 (some SHELL_PATH)).bind (shLoop argv argc 0)

/-- How an attempt at a pathname ends. -/
inductive Attempt where
  | failed (err : ℤ)
  | replaced
  | undefined
  deriving DecidableEq

/-- `execve(pathname, argv, envp)`, and the shell if that fails with `ENOEXEC`: how it ends, and the
calls with those before. -/
def Prepared.attempt (c : Prepared) (pathname : List UInt8) (execs : List Event) :
    Attempt × List Event :=
  match c.exec execs.length pathname with
  | none => (.replaced, execs ++ [.tried pathname none])
  | some err =>
    if err = ENOEXEC then
      match execShScrip c.argc c.argv with
      | none => (.undefined, execs ++ [.tried pathname (some err)])
      | some shArg =>
        match c.exec (execs.length + 1) SHELL_PATH with
        | none => (.replaced, execs ++ [.tried pathname (some err), .shell shArg none])
        | some err' =>
          (.failed err, execs ++ [.tried pathname (some err), .shell shArg (some err')])
    else (.failed err, execs ++ [.tried pathname (some err)])

/-! ## The search -/

/-- The variables of the loop, with the number of blocks allocated and the calls made so far. -/
structure SearchState where
  pStart : List UInt8
  morePrefixes : UInt8
  fndEACCES : Bool
  saveError : ℤ
  mallocs : ℕ
  execs : List Event

/-- How the call ends: it returns -1 with an error, the process is replaced, or it stores outside of
a block. -/
inductive Outcome where
  | returned (errno : ℤ) (execs : List Event)
  | replaced (execs : List Event)
  | undefined (execs : List Event)
  deriving DecidableEq

def Outcome.execs : Outcome → List Event
  | .returned _ execs => execs
  | .replaced execs => execs
  | .undefined execs => execs

/-- The `k`-th block that `malloc` gives. -/
def Prepared.malloc (c : Prepared) (k size : ℕ) : List UInt8 := (List.range size).map (c.garbage k)

/-- The pathname for a segment, put together in a block. -/
def buildName (block segment filename : List UInt8) : Option (List UInt8) :=
  (strcat? block (if segment = [] then [dot] else segment)).bind fun b =>
    (strcat? b [slash]).bind fun b => strcat? b filename

/-- One test and pass of `while (morePrefixes)`. -/
def Prepared.pass (c : Prepared) (s : SearchState) : SearchState ⊕ Outcome :=
  if s.morePrefixes = 0 then .inr (.returned (if s.fndEACCES then EACCES else s.saveError) s.execs)
  else
    let segment := s.pStart.takeWhile (· ≠ colon)
    let pEnd := s.pStart.dropWhile (· ≠ colon)
    match buildName (c.malloc s.mallocs (segment.length + c.filename.chars.length + 2)) segment
        c.filename.chars with
    | none => .inr (.undefined s.execs)
    | some pathName =>
      match c.attempt (cstr pathName) s.execs with
      | (.undefined, execs) => .inr (.undefined execs)
      | (.replaced, execs) => .inr (.replaced execs)
      | (.failed err, execs) =>
        .inl {
          pStart := if pEnd = [] then s.pStart else pEnd.tail
          morePrefixes := if pEnd = [] then 0 else s.morePrefixes
          fndEACCES := s.fndEACCES || err = EACCES
          saveError := err
          mallocs := s.mallocs + 1
          execs }

/-- The directories that are searched:
`(p == NULL || strlen(p)) ? strdup(".") : strdup(p)`. -/
def Prepared.searched (c : Prepared) : List UInt8 :=
  match c.path with
  | none => [dot]
  | some p => if p.chars.length ≠ 0 then [dot] else p.chars

def Prepared.init (c : Prepared) : SearchState :=
  ⟨c.searched, c.morePrefixes, false, c.saveError, 0, []⟩

/-- `myExeclp` from the end of the vectors to the clean-up, if its loop ends within the given number
of passes. -/
def Prepared.search (c : Prepared) (fuel : ℕ) : Option Outcome :=
  if slash ∈ c.filename.chars then
    match c.attempt c.filename.chars [] with
    | (.undefined, execs) => some (.undefined execs)
    | (.replaced, execs) => some (.replaced execs)
    | (.failed err, execs) => some (.returned err execs)
  else runFor c.pass fuel c.init

/-- `for (int j = 0; envp[j] != NULL; j++) free(envp[j]);`: whether it stays in the array. -/
def freeEnvp {α : Type*} : List (Option α) → Bool
  | [] => false
  | none :: _ => true
  | some _ :: envp => freeEnvp envp

/-- What is freed at the end of a call that returns. -/
def Vectors.cleanUp {α : Type*} (v : Vectors α) : Outcome → Outcome
  | .returned errno execs => if freeEnvp v.envp then .returned errno execs else .undefined execs
  | .replaced execs => .replaced execs
  | .undefined execs => .undefined execs

/-- `myExeclp`, if each of its loops ends within the given number of passes. -/
def Call.myExeclp (c : Call) (fuel : ℕ) : Option Outcome :=
  match h : buildVectors fuel c.args (c.environ.map CStr.chars) with
  | none => none
  | some none => some (.undefined [])
  | some (some v) =>
    ((c.prepare v.argv (terminated_of_buildVectors h).1.1).search fuel).map v.cleanUp

/-! ## What it should do -/

/-- The pathnames that were tried and the errors they failed with. -/
def failures (execs : List Event) : List (List UInt8 × ℤ) :=
  execs.filterMap fun
    | .tried path (some err) => some (path, err)
    | _ => none

/-- The pathnames to be tried: one for each segment of `PATH`, where no value is the empty one. -/
def Prepared.candidates (c : Prepared) : List (List UInt8) :=
  (((c.path.map CStr.chars).getD []).splitOn colon).map fun segment =>
    (if segment = [] then [dot] else segment) ++ slash :: c.filename.chars

/-- The error to be reported. -/
def reported (errs : List ℤ) : Option ℤ := if EACCES ∈ errs then some EACCES else errs.getLast?

/-- It returns, having tried the pathnames it should in order, with the error it should report. -/
def Prepared.Searches (c : Prepared) : Prop :=
  ∃ fuel errno execs, c.search fuel = some (.returned errno execs) ∧
    (failures execs).map Prod.fst = c.candidates ∧
    some errno = reported ((failures execs).map Prod.snd)

/-- The same of the whole call. -/
def Call.Searches (c : Call) : Prop :=
  ∃ fuel errno execs, c.myExeclp fuel = some (.returned errno execs) ∧
    (failures execs).map Prod.fst = c.ideal.candidates ∧
    some errno = reported ((failures execs).map Prod.snd)

/-! ## The shell's vector -/

/-- The loop fills the cells behind those that are filled. -/
theorem shLoop_eq {argv : List (Option (List UInt8))} (xs rest pre : List (Option (List UInt8)))
    {i : ℕ} (hdrop : argv.drop i = xs ++ rest) (hpre : pre.length = i + 1) :
    shLoop argv xs.length i (pre ++ List.replicate xs.length none) = some (pre ++ xs) := by
  induction xs generalizing i pre with
  | nil => rfl
  | cons x xs ih =>
    have hget : argv[i]? = some x := by
      rw [← List.head?_drop, hdrop]
      rfl
    have htail : argv.drop (i + 1) = xs ++ rest := by
      rw [← List.tail_drop, hdrop]
      rfl
    rw [List.length_cons, shLoop, hget, Option.bind_some, List.replicate_succ, ← hpre,
      store?_length, Option.bind_some, hpre]
    have hnext := ih (pre ++ [x]) htail (by rw [List.length_append, hpre]; rfl)
    rwa [List.append_assoc, List.append_assoc, List.singleton_append, List.singleton_append]
      at hnext

/-- **What the shell gets**: its own pathname, and then all the arguments as they are. -/
theorem Prepared.execShScrip_eq (c : Prepared) :
    execShScrip c.argc c.argv = some (some SHELL_PATH :: c.args.map some ++ [none]) := by
  obtain ⟨junk, hargv⟩ := c.terminated
  have hlen : (c.args.map some ++ [none]).length = c.argc := by
    rw [List.length_append, List.length_map]
    rfl
  have hstore := store?_length [] (List.replicate c.argc (none : Option (List UInt8)))
    (some SHELL_PATH) none
  rw [List.nil_append, List.nil_append, ← List.replicate_succ, List.length_nil] at hstore
  have hloop := shLoop_eq (c.args.map some ++ [none]) junk [some SHELL_PATH] (i := 0)
    (show c.argv.drop 0 = _ by simpa using hargv) rfl
  rw [hlen] at hloop
  rw [execShScrip, hstore, Option.bind_some]
  exact hloop

/-! ## Failing attempts -/

section

variable {c : Prepared}

theorem failures_append (xs ys : List Event) :
    failures (xs ++ ys) = failures xs ++ failures ys :=
  List.filterMap_append

/-- An attempt that fails is recorded once, with its error. -/
theorem attempt_of_fails (hfail : ∀ k p, c.exec k p ≠ none) (pathname : List UInt8)
    (execs : List Event) :
    ∃ err execs', c.attempt pathname execs = (.failed err, execs') ∧
      failures execs' = failures execs ++ [(pathname, err)] := by
  obtain ⟨err, herr⟩ := Option.ne_none_iff_exists'.mp (hfail execs.length pathname)
  obtain ⟨err', herr'⟩ := Option.ne_none_iff_exists'.mp (hfail (execs.length + 1) SHELL_PATH)
  unfold Prepared.attempt
  rw [herr, c.execShScrip_eq]
  simp only [herr']
  split
  · exact ⟨err, _, rfl, failures_append _ _⟩
  · exact ⟨err, _, rfl, failures_append _ _⟩

/-! ## The pathname -/

theorem cstr_eq_nil_iff {block : List UInt8} (h : block ≠ []) :
    cstr block = [] ↔ block.head? = some 0 := by
  cases block with
  | nil => exact absurd rfl h
  | cons x block => by_cases hx : x = 0 <;> simp [cstr, hx]

/-- **When a pathname can be put together**: the segment is not empty, and the block begins with a
zero byte.  For an empty segment the block is one byte too short. -/
theorem exists_buildName_iff {block segment filename : List UInt8}
    (hlen : block.length = segment.length + filename.length + 2) (hseg : 0 ∉ segment)
    (hfile : 0 ∉ filename) :
    (∃ b, buildName block segment filename = some b) ↔
      segment ≠ [] ∧ block.head? = some 0 := by
  have hblock : block ≠ [] := by
    rintro rfl
    cases hlen
  constructor
  · rintro ⟨b, hb⟩
    obtain ⟨b₁, h₁, hb⟩ := Option.bind_eq_some_iff.mp hb
    obtain ⟨b₂, h₂, h₃⟩ := Option.bind_eq_some_iff.mp hb
    have hpart : 0 ∉ (if segment = [] then [dot] else segment) := by
      split
      · decide
      · exact hseg
    obtain ⟨hstr₁, hlen₁, -⟩ := cstr_strcat? hpart h₁
    obtain ⟨hstr₂, hlen₂, -⟩ := cstr_strcat? (by decide) h₂
    obtain ⟨-, -, hroom⟩ := cstr_strcat? hfile h₃
    rw [hstr₂, hstr₁, hlen₂, hlen₁, hlen, List.length_append, List.length_append,
      List.length_singleton] at hroom
    by_cases hnil : segment = []
    · rw [if_pos hnil, hnil, List.length_singleton, List.length_nil] at hroom
      omega
    · rw [if_neg hnil] at hroom
      refine ⟨hnil, (cstr_eq_nil_iff hblock).mp (List.length_eq_zero_iff.mp ?_)⟩
      omega
  · rintro ⟨hne, hhead⟩
    have hstr := (cstr_eq_nil_iff hblock).mpr hhead
    obtain ⟨b₁, h₁⟩ := strcat?_of_lt (s := segment)
      (List.mem_of_mem_head? hhead) (by rw [hstr, List.length_nil]; omega)
    obtain ⟨hstr₁, hlen₁, -⟩ := cstr_strcat? hseg h₁
    rw [hstr, List.nil_append] at hstr₁
    obtain ⟨b₂, h₂⟩ := strcat?_of_lt (s := [slash]) (zero_mem_of_strcat? h₁)
      (by rw [hstr₁, hlen₁, hlen, List.length_singleton]; omega)
    obtain ⟨hstr₂, hlen₂, -⟩ := cstr_strcat? (by decide) h₂
    obtain ⟨b₃, h₃⟩ := strcat?_of_lt (s := filename) (zero_mem_of_strcat? h₂)
      (by rw [hstr₂, hstr₁, hlen₂, hlen₁, hlen, List.length_append, List.length_singleton]; omega)
    refine ⟨b₃, ?_⟩
    rw [buildName, if_neg hne, h₁, Option.bind_some, h₂, Option.bind_some, h₃]

theorem cstr_buildName {block segment filename b : List UInt8} (hseg : 0 ∉ segment)
    (hfile : 0 ∉ filename) (hne : segment ≠ []) (hstr : cstr block = [])
    (h : buildName block segment filename = some b) :
    cstr b = segment ++ slash :: filename := by
  rw [buildName, if_neg hne] at h
  obtain ⟨b₁, h₁, h⟩ := Option.bind_eq_some_iff.mp h
  obtain ⟨b₂, h₂, h₃⟩ := Option.bind_eq_some_iff.mp h
  rw [(cstr_strcat? hfile h₃).1, (cstr_strcat? (by decide) h₂).1, (cstr_strcat? hseg h₁).1, hstr,
    List.nil_append, List.append_assoc, List.singleton_append]

/-! ## The passes of the search -/

/-- What is searched is the current directory, or nothing when `PATH` is empty. -/
theorem searched_eq (c : Prepared) : c.searched = [dot] ∨
    c.searched = [] ∧ ∃ p, c.path = some p ∧ p.chars = [] := by
  unfold Prepared.searched
  cases c.path with
  | none => exact Or.inl rfl
  | some p =>
    by_cases hp : p.chars.length = 0
    · have hnil := List.length_eq_zero_iff.mp hp
      simp only [hnil]
      exact Or.inr ⟨rfl, p, rfl, hnil⟩
    · exact Or.inl (if_pos hp)

/-- There is nothing but a dot in what is searched. -/
theorem notMem_searched (c : Prepared) {b : UInt8} (hb : b ≠ dot) : b ∉ c.searched := by
  rcases searched_eq c with h | ⟨h, -⟩
  · rw [h, List.mem_singleton]
    exact hb
  · rw [h]
    exact List.not_mem_nil

/-- The one segment of what is searched. -/
theorem takeWhile_searched (c : Prepared) :
    c.searched.takeWhile (· ≠ colon) = c.searched ∧ c.searched.dropWhile (· ≠ colon) = [] := by
  have hall := decide_ne_of_notMem (notMem_searched c (b := colon) (by decide))
  exact ⟨List.takeWhile_eq_self_iff.mpr hall, List.dropWhile_eq_nil_iff.mpr hall⟩

/-- The block for the first pathname. -/
def Prepared.firstBlock (c : Prepared) : List UInt8 :=
  c.malloc 0 (c.searched.length + c.filename.chars.length + 2)

/-- The first pass puts the pathname together and is the last, or ends the run. -/
theorem pass_init (c : Prepared) (hmore : c.morePrefixes ≠ 0) :
    c.pass c.init =
      match buildName c.firstBlock c.searched c.filename.chars with
      | none => .inr (.undefined [])
      | some pathName =>
        match c.attempt (cstr pathName) [] with
        | (.undefined, execs) => .inr (.undefined execs)
        | (.replaced, execs) => .inr (.replaced execs)
        | (.failed err, execs) => .inl ⟨c.searched, 0, err = EACCES, err, 1, execs⟩ := by
  obtain ⟨htake, hdrop⟩ := takeWhile_searched c
  unfold Prepared.pass
  rw [if_neg (show ¬ c.init.morePrefixes = 0 from hmore)]
  simp only [show c.init.pStart = c.searched from rfl, htake, hdrop, if_pos,
    show c.init.fndEACCES = false from rfl, Bool.false_or]
  rfl

/-- What follows the loop. -/
theorem pass_of_zero {s : SearchState} (h : s.morePrefixes = 0) :
    c.pass s = .inr (.returned (if s.fndEACCES then EACCES else s.saveError) s.execs) :=
  if_pos h

/-- Every pass that goes on comes nearer to the end of the string, or is the last. -/
theorem pass_measure_lt {s t : SearchState} (h : c.pass s = .inl t) :
    (if t.morePrefixes = 0 then 0 else t.pStart.length + 1) <
      if s.morePrefixes = 0 then 0 else s.pStart.length + 1 := by
  unfold Prepared.pass at h
  split at h
  · cases h
  rename_i hmore
  rw [if_neg hmore]
  simp only at h
  split at h
  · cases h
  split at h
  · cases h
  · cases h
  obtain rfl := Sum.inl.inj h
  by_cases hend : s.pStart.dropWhile (· ≠ colon) = []
  · simp only [if_pos hend]
    exact Nat.succ_pos _
  · simp only [if_neg hend, if_neg hmore]
    have hle := (List.dropWhile_suffix (fun b => decide (b ≠ colon)) (l := s.pStart)).length_le
    have hpos := List.length_pos_iff.mpr hend
    rw [List.length_tail]
    omega

theorem exists_search_iff (hslash : slash ∉ c.filename.chars) (o : Outcome) :
    (∃ fuel, c.search fuel = some o) ↔ Returns c.pass c.init o :=
  exists_congr fun fuel => by rw [Prepared.search, if_neg hslash]

/-- **The search ends**, whatever `PATH` is and whatever the calls of `execve` do. -/
theorem exists_search (c : Prepared) : ∃ fuel o, c.search fuel = some o := by
  by_cases hslash : slash ∈ c.filename.chars
  · refine ⟨0, ?_⟩
    rw [Prepared.search, if_pos hslash]
    split <;> exact ⟨_, rfl⟩
  · obtain ⟨o, ho⟩ := exists_returns (fun _ => True)
      (fun s => if s.morePrefixes = 0 then 0 else s.pStart.length + 1)
      (fun s t _ hpass => ⟨trivial, pass_measure_lt (c := c) hpass⟩) (s := c.init) trivial
    obtain ⟨fuel, hfuel⟩ := (exists_search_iff hslash o).mpr ho
    exact ⟨fuel, o, hfuel⟩

/-- The call returns having tried one pathname, if one could be put together. -/
theorem returns_of_buildName (hfail : ∀ k p, c.exec k p ≠ none) (hmore : c.morePrefixes ≠ 0)
    {b : List UInt8} (hb : buildName c.firstBlock c.searched c.filename.chars = some b) :
    ∃ err execs, failures execs = [(cstr b, err)] ∧ ∀ o, Returns c.pass c.init o ↔
      o = .returned (if err = EACCES then EACCES else err) execs := by
  obtain ⟨err, execs, hattempt, hfailures⟩ := attempt_of_fails hfail (cstr b) []
  refine ⟨err, execs, hfailures, fun o => ?_⟩
  have hfirst := pass_init c hmore
  rw [hb] at hfirst
  simp only [hattempt] at hfirst
  rw [returns_inl_iff hfirst, returns_inr_iff (pass_of_zero rfl)]
  simp only [decide_eq_true_eq]

/-- **The calls of a search** in which every `execve` fails: one for the one directory searched, if
`morePrefixes` holds anything but zero and the pathname can be put together. -/
theorem searches_iff_of_candidates (hslash : slash ∉ c.filename.chars)
    (hfail : ∀ k p, c.exec k p ≠ none) :
    c.Searches ↔ c.morePrefixes ≠ 0 ∧
      ∃ b, buildName c.firstBlock c.searched c.filename.chars = some b ∧
        c.candidates = [cstr b] := by
  have hreturns : c.Searches ↔ ∃ errno execs, Returns c.pass c.init (.returned errno execs) ∧
      (failures execs).map Prod.fst = c.candidates ∧
        some errno = reported ((failures execs).map Prod.snd) := by
    constructor
    · rintro ⟨fuel, errno, execs, hrun, h⟩
      exact ⟨errno, execs, (exists_search_iff hslash _).mp ⟨fuel, hrun⟩, h⟩
    · rintro ⟨errno, execs, hrun, h⟩
      obtain ⟨fuel, hfuel⟩ := (exists_search_iff hslash _).mpr hrun
      exact ⟨fuel, errno, execs, hfuel, h⟩
  rw [hreturns]
  by_cases hmore : c.morePrefixes = 0
  · -- the loop is left at once
    refine iff_of_false ?_ fun h => h.1 hmore
    rintro ⟨errno, execs, hrun, hcand, -⟩
    obtain ⟨-, rfl⟩ := Outcome.returned.inj ((returns_inr_iff (pass_of_zero hmore)).mp hrun)
    exact List.splitOn_ne_nil colon _ (List.map_eq_nil_iff.mp hcand.symm)
  rw [and_iff_right hmore]
  cases hb : buildName c.firstBlock c.searched c.filename.chars with
  | none =>
    have hfirst := pass_init c hmore
    rw [hb] at hfirst
    refine iff_of_false ?_ fun ⟨b, h, _⟩ => nomatch h
    rintro ⟨errno, execs, hrun, -⟩
    cases (returns_inr_iff hfirst).mp hrun
  | some b =>
    obtain ⟨err, execs, hfailures, hreturned⟩ := returns_of_buildName hfail hmore hb
    constructor
    · rintro ⟨errno, execs', hrun, hcand, -⟩
      obtain ⟨-, rfl⟩ := Outcome.returned.inj ((hreturned _).mp hrun)
      rw [hfailures] at hcand
      exact ⟨b, rfl, hcand.symm⟩
    · rintro ⟨b', hb', hcand⟩
      obtain rfl := Option.some.inj hb'
      refine ⟨_, execs, (hreturned _).mpr rfl, ?_, ?_⟩
      · rw [hfailures, hcand]
        rfl
      · rw [hfailures]
        by_cases herr : err = EACCES
        · simp [reported, herr]
        · simp [reported, herr, Ne.symm herr]

/-- What should be tried is the file in the current directory alone. -/
theorem candidates_eq_iff (c : Prepared) :
    c.candidates = [dot :: slash :: c.filename.chars] ↔
      ∀ p, c.path = some p → p.chars = [] ∨ p.chars = [dot] := by
  unfold Prepared.candidates
  cases c.path with
  | none => exact iff_of_true rfl fun p hp => nomatch hp
  | some p =>
    show (p.chars.splitOn colon).map _ = _ ↔ _
    constructor
    · intro h p' hp'
      obtain rfl := Option.some.inj hp'
      obtain ⟨segment, hsplit, hname⟩ := List.map_eq_singleton_iff.mp h
      have hwhole : p.chars = segment := by
        have hjoin : [colon].intercalate (p.chars.splitOn colon) = p.chars :=
          List.intercalate_splitOn colon
        rw [hsplit] at hjoin
        simpa using hjoin.symm
      rw [hwhole]
      by_cases hnil : segment = []
      · exact Or.inl hnil
      · rw [if_neg hnil] at hname
        exact Or.inr ((List.append_left_inj (slash :: c.filename.chars)).mp hname)
    · intro h
      rcases h p rfl with hp | hp <;> rw [hp] <;> rfl

end

/-- **When the search is right.**  `morePrefixes` does not hold zero and the block for the pathname
begins with a zero byte, and `PATH` is unset or is `.`. -/
theorem search_iff (c : Prepared) (hslash : slash ∉ c.filename.chars)
    (hfail : ∀ k p, c.exec k p ≠ none) :
    c.Searches ↔ c.morePrefixes ≠ 0 ∧ c.garbage 0 0 = 0 ∧
      ∀ p, c.path = some p → p.chars = [dot] := by
  rw [searches_iff_of_candidates hslash hfail]
  refine and_congr_right fun _ => ?_
  have hlen : c.firstBlock.length = c.searched.length + c.filename.chars.length + 2 := by
    rw [Prepared.firstBlock, Prepared.malloc, List.length_map, List.length_range]
  have hhead : c.firstBlock.head? = some (c.garbage 0 0) := by
    rw [Prepared.firstBlock, Prepared.malloc, List.head?_map, List.head?_range, if_neg (by omega)]
    rfl
  have hexists := exists_buildName_iff hlen (notMem_searched c (by decide)) c.filename.zero_notMem
  rw [hhead, Option.some_inj] at hexists
  have hname : ∀ b, buildName c.firstBlock c.searched c.filename.chars = some b →
      cstr b = c.searched ++ slash :: c.filename.chars := fun b hb => by
    obtain ⟨hne, hzero⟩ := hexists.mp ⟨b, hb⟩
    refine cstr_buildName (notMem_searched c (by decide)) c.filename.zero_notMem hne ?_ hb
    rw [cstr_eq_nil_iff (List.ne_nil_of_length_pos (by omega)), hhead, hzero]
  rcases searched_eq c with hdot | ⟨hnil, p, hp, hempty⟩
  · -- one name is made, for the current directory
    have hnotEmpty : ∀ p, c.path = some p → p.chars ≠ [] := fun p hp hnil => by
      rw [Prepared.searched, hp] at hdot
      simp [hnil] at hdot
    constructor
    · rintro ⟨b, hb, hcand⟩
      rw [hname b hb, hdot] at hcand
      exact ⟨(hexists.mp ⟨b, hb⟩).2, fun p hp =>
        ((candidates_eq_iff c).mp hcand p hp).resolve_left (hnotEmpty p hp)⟩
    · rintro ⟨hzero, hpath⟩
      obtain ⟨b, hb⟩ := hexists.mpr ⟨by rw [hdot]; decide, hzero⟩
      refine ⟨b, hb, ?_⟩
      rw [hname b hb, hdot]
      exact (candidates_eq_iff c).mpr fun p hp => Or.inr (hpath p hp)
  · -- `PATH` is empty: the block is too short
    refine iff_of_false ?_ ?_
    · rintro ⟨b, hb, -⟩
      exact (hexists.mp ⟨b, hb⟩).1 hnil
    · rintro ⟨-, hpath⟩
      exact absurd (hempty.symm.trans (hpath p hp)) (List.cons_ne_nil _ _).symm

/-! ## The whole call -/

/-- Where the arguments are does not matter to what follows. -/
theorem search_prepare (c : Call) {argv : List (Option (List UInt8))} (h : Terminated argv c.args) :
    (c.prepare argv h).search = c.ideal.search := by
  have hattempt : (c.prepare argv h).attempt = c.ideal.attempt := by
    funext pathname execs
    unfold Prepared.attempt
    rw [Prepared.execShScrip_eq, Prepared.execShScrip_eq]
    rfl
  have hpass : (c.prepare argv h).pass = c.ideal.pass := by
    funext s
    unfold Prepared.pass
    rw [hattempt]
    rfl
  funext fuel
  unfold Prepared.search
  rw [hattempt, hpass]
  rfl

/-- With the vectors built, the call does what follows them: the one string pointer of `envp` is the
null pointer, so the clean-up frees no string. -/
theorem Call.myExeclp_of_vectors {c : Call} {fuel : ℕ} {v : Vectors (List UInt8)}
    (h : buildVectors fuel c.args (c.environ.map CStr.chars) = some (some v)) :
    c.myExeclp fuel = c.ideal.search fuel := by
  have hclean : v.cleanUp = id := by
    funext o
    cases o with
    | returned errno execs =>
      rw [Vectors.cleanUp, (terminated_of_buildVectors h).2.2]
      rfl
    | replaced execs => rfl
    | undefined execs => rfl
  unfold Call.myExeclp
  split
  · rename_i hnone
    cases h.symm.trans hnone
  · rename_i hnone
    cases h.symm.trans hnone
  · rename_i v' hv
    obtain rfl := Option.some.inj (Option.some.inj (h.symm.trans hv))
    rw [search_prepare, hclean, Option.map_id, id]

/-- Otherwise it stores outside of an array before it calls `execve`. -/
theorem Call.eq_undefined_of_not_vectors {c : Call} {fuel : ℕ} {o : Outcome}
    (h : ¬ (c.args.length ≤ 98 ∧ c.environ = [])) (hrun : c.myExeclp fuel = some o) :
    o = .undefined [] := by
  unfold Call.myExeclp at hrun
  split at hrun
  · cases hrun
  · exact (Option.some.inj hrun).symm
  · rename_i v hv
    obtain ⟨hlen, henv⟩ := le_of_buildVectors hv
    exact absurd ⟨hlen, List.map_eq_nil_iff.mp henv⟩ h

theorem search_of_le {c : Prepared} {fuel fuel' : ℕ} {o : Outcome} (h : c.search fuel = some o)
    (hle : fuel ≤ fuel') : c.search fuel' = some o := by
  unfold Prepared.search at h ⊢
  split at h
  · rename_i hslash
    rw [if_pos hslash]
    exact h
  · rename_i hslash
    rw [if_neg hslash]
    exact runFor_of_le h hle

/-- What becomes of a call whose vectors can be built. -/
theorem Call.exists_myExeclp_iff {c : Call} (hlen : c.args.length ≤ 98) (henv : c.environ = [])
    (o : Outcome) : (∃ fuel, c.myExeclp fuel = some o) ↔ ∃ fuel, c.ideal.search fuel = some o := by
  obtain ⟨fuel₀, v, hbuild⟩ := exists_buildVectors hlen
  replace hbuild : buildVectors fuel₀ c.args (c.environ.map CStr.chars) = some (some v) := by
    rw [henv]
    exact hbuild
  constructor
  · rintro ⟨fuel, hrun⟩
    cases hv : buildVectors fuel c.args (c.environ.map CStr.chars) with
    | none =>
      unfold Call.myExeclp at hrun
      split at hrun
      · cases hrun
      · rename_i h
        cases hv.symm.trans h
      · rename_i h
        cases hv.symm.trans h
    | some r =>
      have hmax := buildVectors_of_le hv (Nat.le_max_left fuel fuel₀)
      rw [buildVectors_of_le hbuild (Nat.le_max_right fuel fuel₀)] at hmax
      rw [← Option.some.inj hmax] at hv
      exact ⟨fuel, (Call.myExeclp_of_vectors hv).symm.trans hrun⟩
  · rintro ⟨fuel, hrun⟩
    refine ⟨max fuel₀ fuel, ?_⟩
    rw [Call.myExeclp_of_vectors (buildVectors_of_le hbuild (Nat.le_max_left fuel₀ fuel))]
    exact search_of_le hrun (Nat.le_max_right fuel₀ fuel)

/-- The whole call does what it should exactly if the vectors can be built and what follows them
does. -/
theorem Call.searches_iff_ideal (c : Call) :
    c.Searches ↔ (c.args.length ≤ 98 ∧ c.environ = []) ∧ c.ideal.Searches := by
  by_cases h : c.args.length ≤ 98 ∧ c.environ = []
  · rw [and_iff_right h]
    have hiff := c.exists_myExeclp_iff h.1 h.2
    constructor
    · rintro ⟨fuel, errno, execs, hrun, hrest⟩
      obtain ⟨fuel', hrun'⟩ := (hiff _).mp ⟨fuel, hrun⟩
      exact ⟨fuel', errno, execs, hrun', hrest⟩
    · rintro ⟨fuel, errno, execs, hrun, hrest⟩
      obtain ⟨fuel', hrun'⟩ := (hiff _).mpr ⟨fuel, hrun⟩
      exact ⟨fuel', errno, execs, hrun', hrest⟩
  · refine iff_of_false ?_ fun hc => h hc.1
    rintro ⟨fuel, errno, execs, hrun, -⟩
    cases c.eq_undefined_of_not_vectors h hrun

/-- **When the whole search is right.**  There are at most 98 arguments and the environment is
empty, `morePrefixes` does not hold zero, and the block for the pathname begins with a zero
byte. -/
theorem searches_iff (c : Call) (hslash : slash ∉ c.filename.chars)
    (hfail : ∀ k p, c.exec k p ≠ none) :
    c.Searches ↔ c.args.length ≤ 98 ∧ c.environ = [] ∧ c.morePrefixes ≠ 0 ∧
      c.garbage 0 0 = 0 := by
  rw [c.searches_iff_ideal, search_iff c.ideal hslash hfail, and_assoc]
  refine and_congr_right fun _ => and_congr_right fun henv => and_congr_right fun _ => ?_
  refine and_iff_left fun p hp => ?_
  have hpath : getenv c.environ PATH = some p := hp
  rw [henv] at hpath
  cases hpath

/-- `myExeclp("ls", "x", NULL)` where every `execve` fails with `ENOENT` and no block holds anything
but zeros. -/
def lsCall (environ : List CStr) (morePrefixes : UInt8) : Call where
  filename := ⟨[0x6c, 0x73], by decide⟩
  args := [[0x78]]
  environ
  exec _ _ := some 2
  garbage _ _ := 0
  morePrefixes
  saveError := 0

/-- Without an environment the current directory is searched, if `morePrefixes` happens to hold
1. -/
theorem searches_unset : (lsCall [] 1).Searches :=
  (searches_iff (lsCall [] 1) (by decide) (fun _ _ => Option.some_ne_none 2)).mpr
    ⟨by decide, rfl, by decide, rfl⟩

/-- If it happens to hold 0, nothing is tried. -/
theorem not_searches : ¬ ∀ c : Call, slash ∉ c.filename.chars → (∀ k p, c.exec k p ≠ none) →
    c.Searches := by
  intro h
  have hnone := h (lsCall [] 0) (by decide) fun _ _ => Option.some_ne_none 2
  obtain ⟨-, hideal⟩ := (Call.searches_iff_ideal _).mp hnone
  exact ((search_iff _ (by decide) fun _ _ => Option.some_ne_none 2).mp hideal).1 rfl

end Execlp
end CodeStrudy
