import CodeStrudy.GetNum.GetInt
import CodeStrudy.SelectPipes.Select

/-!
# Waiting for pipes with `poll`

`routines/62.3.poll_pipe` opens `num-pipes` pipes and writes to pipes chosen at random, as the
program with `select` does.  It calls `poll` once, with a time-out of zero, on all its pipes and
prints the ones that can be read.

## What is proved

* `pollMain_success_iff`: for which arguments and which answers of the system the program comes to
  its end, and what it has printed then.
* `polled_eq_selected`: it lists the pipes that the program with `select` reads from in its first
  pass.
-/

namespace CodeStrudy
namespace SelectPipes

open Foundation GetNum

/-- What the program with `poll` finds: besides what the other one does, the second array, the
writing ends of the pipes, and the answer of `poll`. -/
structure PollEnv extends Env where
  callocPollFd : Bool
  writeEnd : ℕ → ℕ
  poll : Bool

/-- A line of the output. -/
inductive Line
  | writing (writeFd readFd : ℕ)
  | returned (ready : ℕ)
  | readable (i fd : ℕ)
  deriving DecidableEq

/-- How the program ends. -/
inductive Ending
  | usage
  | failed
  | divisionByZero
  | blocked
  | success
  deriving DecidableEq

/-- The loop that writes: the lines printed and the bytes in each pipe. -/
structure Writing where
  printed : List Line
  unread : ℕ → ℕ

/-- An element of `pollFd`, with the bit `POLLIN` of its `revents`. -/
structure PollFd where
  fd : ℕ
  revents : Bool

section

variable (env : PollEnv) (n : ℕ)

/-- One pass of the loop that writes.  Nobody reads, so a write to a full pipe waits for ever. -/
def writeRandPipe (s : Writing) (i : ℕ) : Except (List Line × Ending) Writing :=
  if n = 0 then .error (s.printed, .divisionByZero)
  else
    let randPipe := randPipes env.toEnv n i
    let printed := s.printed ++ [.writing (env.writeEnd randPipe) (env.readEnd randPipe)]
    if env.capacity randPipe ≤ s.unread randPipe then .error (printed, .blocked)
    else if env.write i then
      .ok ⟨printed, Function.update s.unread randPipe (s.unread randPipe + 1)⟩
    else .error (printed, .failed)

/-- `poll` for `POLLIN` on the descriptors `fds`. -/
def pollin (unread : ℕ → ℕ) (fds : List ℕ) : List PollFd :=
  fds.map fun fd => ⟨fd, decide (∃ i < n, env.readEnd i = fd ∧ 0 < unread i)⟩

/-- The program from its call of `poll` on. -/
def reportPoll (s : Writing) : List Line × Ending :=
  if env.poll then
    let pollFd := pollin env n s.unread ((List.range n).map env.readEnd)
    (s.printed ++ .returned (pollFd.countP PollFd.revents) ::
      pollFd.zipIdx.filterMap fun p => if p.1.revents then some (.readable p.2 p.1.fd) else none,
      .success)
  else (s.printed, .failed)

/-- `main` with its two numbers.  A negative number is a size that no allocation has. -/
def pollPipes (numPipes writePipes : ℤ) : List Line × Ending :=
  if numPipes < 0 ∨ ¬ env.calloc then ([], .failed)
  else if ¬ env.callocPollFd then ([], .failed)
  else if ∃ i < numPipes.toNat, ¬ env.pipe i then ([], .failed)
  else
    match (List.range writePipes.toNat).foldlM (writeRandPipe env numPipes.toNat)
        ⟨[], fun _ => 0⟩ with
    | .ok s => reportPoll env numPipes.toNat s
    | .error r => r

/-- `numPipes` and `writePipes`, if the program is called with two arguments. -/
def numbers (argv : List CStr) : Option (ℤ × ℤ) :=
  match argv with
  | _ :: num :: writes :: _ =>
    if charArgc argv.length ≠ 3 ∨ num.chars = ascii "--help" then none
    else some (Flags.intOfLong (strtol num.chars 10).value,
      Flags.intOfLong (strtol writes.chars 10).value)
  | _ => none

def pollMain (argv : List CStr) : List Line × Ending :=
  (numbers argv).elim ([], .usage) fun (numPipes, writePipes) => pollPipes env numPipes writePipes

end

/-! ## The writing -/

/-- The lines about the first `m` writes. -/
def writingLines (env : PollEnv) (n m : ℕ) : List Line :=
  (List.range m).map fun j =>
    .writing (env.writeEnd (randPipes env.toEnv n j)) (env.readEnd (randPipes env.toEnv n j))

section

variable {env : Env} {n m : ℕ}

theorem load_le_succ (i : ℕ) : load env n m i ≤ load env n (m + 1) i := by
  rw [load, load, List.range_succ, List.countP_append]
  exact Nat.le_add_right _ _

theorem load_pos_iff {i : ℕ} : 0 < load env n m i ↔ ∃ j < m, randPipes env n j = i := by
  simp only [load, List.countP_pos_iff, List.mem_range, decide_eq_true_iff]

end

variable {env : PollEnv} {n m : ℕ}

theorem writingLines_succ {i : ℕ} (hi : randPipes env.toEnv n m = i) :
    writingLines env n (m + 1) =
      writingLines env n m ++ [.writing (env.writeEnd i) (env.readEnd i)] := by
  subst hi
  rw [writingLines, List.range_succ, List.map_append]
  rfl

theorem foldlM_range_succ_eq_ok_iff {ε σ : Type} {f : σ → ℕ → Except ε σ} {s t : σ} :
    (List.range (m + 1)).foldlM f s = .ok t ↔
      ∃ u, (List.range m).foldlM f s = .ok u ∧ f u m = .ok t := by
  rw [foldlM_range_succ]
  cases (List.range m).foldlM f s with
  | error e => exact iff_of_false nofun fun ⟨_, h, _⟩ => nomatch h
  | ok u =>
    constructor
    · exact fun h => ⟨u, rfl, h⟩
    · rintro ⟨v, hv, hf⟩
      obtain rfl := Except.ok.inj hv
      exact hf

theorem writeRandPipe_eq_ok_iff {s t : Writing} {i : ℕ} :
    writeRandPipe env n s i = .ok t ↔
      n ≠ 0 ∧
        s.unread (randPipes env.toEnv n i) < env.capacity (randPipes env.toEnv n i) ∧
        env.write i ∧
        t = ⟨s.printed ++ [.writing (env.writeEnd (randPipes env.toEnv n i))
            (env.readEnd (randPipes env.toEnv n i))],
          Function.update s.unread (randPipes env.toEnv n i)
            (s.unread (randPipes env.toEnv n i) + 1)⟩ := by
  by_cases hn : n = 0
  · simp [writeRandPipe, hn]
  by_cases hfull :
      env.capacity (randPipes env.toEnv n i) ≤ s.unread (randPipes env.toEnv n i)
  · simp [writeRandPipe, hn, hfull, not_lt.mpr hfull]
  by_cases hwrite : env.write i
  · simp [writeRandPipe, hn, hfull, hwrite, not_le.mp hfull, eq_comm]
  · simp [writeRandPipe, hn, hfull, hwrite]

theorem ending_of_writeRandPipe {s : Writing} {i : ℕ} {r : List Line × Ending}
    (h : writeRandPipe env n s i = .error r) : r.2 ≠ .success := by
  rw [writeRandPipe] at h
  dsimp only at h
  split at h
  · cases h; nofun
  split at h
  · cases h; nofun
  split at h
  · cases h
  · cases h; nofun

/-- A program that does not come behind its loop does not succeed. -/
theorem ending_of_foldlM {l : List ℕ} {s : Writing} {r : List Line × Ending}
    (h : l.foldlM (writeRandPipe env n) s = .error r) : r.2 ≠ .success := by
  induction l generalizing s with
  | nil => cases h
  | cons i l ih =>
    rw [List.foldlM_cons] at h
    cases hi : writeRandPipe env n s i with
    | error e =>
      rw [hi] at h
      obtain rfl := Except.error.inj h
      exact ending_of_writeRandPipe hi
    | ok t =>
      rw [hi] at h
      exact ih h

/-- **The writing comes to its end** exactly if there is a pipe to write to, no pipe gets more bytes
than it has room for, and the calls succeed. -/
theorem foldlM_writeRandPipe_eq_ok_iff {t : Writing} :
    (List.range m).foldlM (writeRandPipe env n) ⟨[], fun _ => 0⟩ = .ok t ↔
      ((0 < m → n ≠ 0) ∧ (∀ i, load env.toEnv n m i ≤ env.capacity i) ∧ ∀ j < m, env.write j) ∧
        t = ⟨writingLines env n m, load env.toEnv n m⟩ := by
  induction m generalizing t with
  | zero =>
    have hzero : load env.toEnv n 0 = fun _ => 0 := rfl
    simp only [hzero, List.range_zero, List.foldlM_nil, lt_irrefl, false_imp_iff, Nat.zero_le,
      Nat.not_lt_zero, implies_true, true_and]
    exact ⟨fun h => (Except.ok.inj h).symm, fun h => h ▸ rfl⟩
  | succ m ih =>
    rw [foldlM_range_succ_eq_ok_iff]
    constructor
    · rintro ⟨s, hs, ht⟩
      obtain ⟨⟨-, hroom, hwrite⟩, rfl⟩ := ih.mp hs
      obtain ⟨hn, hfree, hm, rfl⟩ := writeRandPipe_eq_ok_iff.mp ht
      refine ⟨⟨fun _ => hn, fun i => ?_, fun j hj => ?_⟩, ?_⟩
      · rw [load_succ, Function.update_apply]
        split_ifs with hi
        · exact hi ▸ hfree
        · exact hroom i
      · rcases Nat.lt_succ_iff_lt_or_eq.mp hj with hj | rfl
        · exact hwrite j hj
        · exact hm
      · rw [writingLines_succ rfl, load_succ]
    · rintro ⟨⟨hn, hroom, hwrite⟩, rfl⟩
      refine ⟨_, ih.mpr ⟨⟨fun _ => hn m.succ_pos, fun i => (load_le_succ i).trans (hroom i),
        fun j hj => hwrite j (hj.trans m.lt_succ_self)⟩, rfl⟩, writeRandPipe_eq_ok_iff.mpr
          ⟨hn m.succ_pos, ?_, hwrite m m.lt_succ_self, ?_⟩⟩
      · have := hroom (randPipes env.toEnv n m)
        rw [load_succ, Function.update_self] at this
        exact this
      · rw [writingLines_succ rfl, load_succ]

/-! ## The report -/

/-- The pipes with something to read, in their order. -/
def full (n : ℕ) (unread : ℕ → ℕ) : List ℕ := (List.range n).filter fun i => 0 < unread i

/-- What the program prints about them. -/
def pollLines (env : PollEnv) (pipes : List ℕ) : List Line :=
  .returned pipes.length :: pipes.map fun i => .readable i (env.readEnd i)

/-- `poll` answers for the pipes, one by one. -/
theorem pollin_readEnd (unread : ℕ → ℕ) :
    pollin env n unread ((List.range n).map env.readEnd) =
      (List.range n).map fun i => ⟨env.readEnd i, decide (0 < unread i)⟩ := by
  rw [pollin, List.map_map]
  refine List.map_congr_left fun i hi => ?_
  rw [Function.comp_apply]
  congr 1
  refine decide_eq_decide.mpr ⟨fun ⟨j, _, hj, hpos⟩ => env.readEnd_inj hj ▸ hpos, fun hpos => ?_⟩
  exact ⟨i, List.mem_range.mp hi, rfl, hpos⟩

theorem zipIdx_map_range {α : Type} (g : ℕ → α) :
    ((List.range n).map g).zipIdx = (List.range n).map fun i => (g i, i) :=
  List.ext_getElem (by simp) fun i _ _ => by simp

theorem reportPoll_of_poll (h : env.poll) (s : Writing) :
    reportPoll env n s = (s.printed ++ pollLines env (full n s.unread), .success) := by
  rw [reportPoll, if_pos h]
  dsimp only
  rw [pollin_readEnd, zipIdx_map_range, List.countP_map, List.filterMap_map, pollLines, full,
    List.countP_eq_length_filter]
  congr 3
  rw [← List.filterMap_eq_map, List.filterMap_filter]
  refine List.filterMap_congr fun i _ => ?_
  simp

/-! ## The program -/

/-- The arguments and the answers of the system with which the program comes to its end. -/
structure Succeeds (env : PollEnv) (numPipes writePipes : ℤ) : Prop where
  nonneg : 0 ≤ numPipes
  calloc : env.calloc
  callocPollFd : env.callocPollFd
  pipe : ∀ i < numPipes.toNat, env.pipe i
  /-- There is no division by zero. -/
  divisor : 0 < writePipes → numPipes ≠ 0
  /-- No pipe is full when it is written to. -/
  room : ∀ i, load env.toEnv numPipes.toNat writePipes.toNat i ≤ env.capacity i
  write : ∀ j < writePipes.toNat, env.write j
  poll : env.poll

theorem pollPipes_success_iff {numPipes writePipes : ℤ} {out : List Line} :
    pollPipes env numPipes writePipes = (out, .success) ↔
      Succeeds env numPipes writePipes ∧
        out = writingLines env numPipes.toNat writePipes.toNat ++
          pollLines env
            (full numPipes.toNat (load env.toEnv numPipes.toNat writePipes.toNat)) := by
  by_cases hcalloc : numPipes < 0 ∨ ¬ env.calloc
  · rw [pollPipes, if_pos hcalloc]
    exact iff_of_false nofun fun h => hcalloc.elim (not_lt.mpr h.1.nonneg) fun hc => hc h.1.calloc
  by_cases hpollFd : ¬ env.callocPollFd
  · rw [pollPipes, if_neg hcalloc, if_pos hpollFd]
    exact iff_of_false nofun fun h => hpollFd h.1.callocPollFd
  by_cases hpipe : ∃ i < numPipes.toNat, ¬ env.pipe i
  · rw [pollPipes, if_neg hcalloc, if_neg hpollFd, if_pos hpipe]
    obtain ⟨i, hi, hfails⟩ := hpipe
    exact iff_of_false nofun fun h => hfails (h.1.pipe i hi)
  rw [pollPipes, if_neg hcalloc, if_neg hpollFd, if_neg hpipe]
  cases hrun : (List.range writePipes.toNat).foldlM (writeRandPipe env numPipes.toNat)
      ⟨[], fun _ => 0⟩ with
  | error r =>
    refine iff_of_false (fun h => ending_of_foldlM hrun (congrArg Prod.snd h)) fun ⟨h, _⟩ => ?_
    have hok := foldlM_writeRandPipe_eq_ok_iff.mpr
      ⟨⟨fun hpos => ?_, h.room, h.write⟩, rfl⟩
    · cases hrun.symm.trans hok
    · have := h.divisor (by omega)
      have := h.nonneg
      omega
  | ok s =>
    obtain ⟨⟨hdivisor, hroom, hwrite⟩, rfl⟩ := foldlM_writeRandPipe_eq_ok_iff.mp hrun
    dsimp only
    by_cases hpoll : env.poll
    · rw [reportPoll_of_poll hpoll]
      push Not at hcalloc hpollFd hpipe
      have hsucceeds : Succeeds env numPipes writePipes :=
        ⟨hcalloc.1, hcalloc.2, hpollFd, hpipe, fun hpos hzero => hdivisor (by omega) (by omega),
          hroom, hwrite, hpoll⟩
      rw [Prod.mk.injEq, and_iff_left rfl, and_iff_right hsucceeds, eq_comm]
    · rw [reportPoll, if_neg hpoll]
      exact iff_of_false nofun fun h => hpoll h.1.poll

/-- **The program comes to its end** exactly for these arguments and answers; it has then printed
its writes and, in their order, the pipes that one of them has gone to. -/
theorem pollMain_success_iff (env : PollEnv) (argv : List CStr) (out : List Line) :
    pollMain env argv = (out, .success) ↔
      ∃ numPipes writePipes, numbers argv = some (numPipes, writePipes) ∧
        Succeeds env numPipes writePipes ∧
          out = writingLines env numPipes.toNat writePipes.toNat ++
            pollLines env ((List.range numPipes.toNat).filter fun i =>
              ∃ j < writePipes.toNat, randPipes env.toEnv numPipes.toNat j = i) := by
  rw [pollMain]
  cases hnumbers : numbers argv with
  | none => exact iff_of_false nofun nofun
  | some p =>
    have hfull : full p.1.toNat (load env.toEnv p.1.toNat p.2.toNat) =
        (List.range p.1.toNat).filter fun i =>
          ∃ j < p.2.toNat, randPipes env.toEnv p.1.toNat j = i :=
      List.filter_congr fun i _ => decide_eq_decide.mpr load_pos_iff
    rw [Option.elim_some, pollPipes_success_iff, hfull]
    constructor
    · exact fun h => ⟨p.1, p.2, rfl, h⟩
    · rintro ⟨numPipes, writePipes, hp, h⟩
      obtain rfl := Option.some.inj hp
      exact h

/-- The pipe that a line says is readable. -/
def Line.readable? : Line → Option (ℕ × ℕ)
  | .readable i fd => some (i, fd)
  | _ => none

/-- The pipes that a pass of the program with `select` reads from, with their descriptors. -/
def selected (env : Env) (n : ℕ) (w : Written) (unread : ℕ → ℕ) : List (ℕ × ℕ) :=
  ((List.range n).filter fun i => env.readEnd i ∈ readSet env n w unread).map fun i =>
    (i, env.readEnd i)

/-- The pipes that the lines of the program say are readable. -/
theorem filterMap_readable? (pipes : List ℕ) :
    (writingLines env n m ++ pollLines env pipes).filterMap Line.readable? =
      pipes.map fun i => (i, env.readEnd i) := by
  have hwriting : (writingLines env n m).filterMap Line.readable? = [] := by
    rw [writingLines, List.filterMap_map, List.filterMap_eq_nil_iff]
    exact fun j _ => rfl
  rw [List.filterMap_append, hwriting, List.nil_append, pollLines, List.filterMap_cons_none rfl,
    List.filterMap_map]
  exact congrFun List.filterMap_eq_map pipes

/-- **`poll` and `select` agree.**  Of the same pipes with the same random numbers, `poll` lists
those that the first pass after `select` reads from. -/
theorem polled_eq_selected {numPipes writePipes : ℤ} {out : List Line} {w : Written}
    (hpoll : pollPipes env numPipes writePipes = (out, .success))
    (hselect : setUp env.toEnv numPipes writePipes = .ok w)
    (hfits : ∀ i < numPipes.toNat, env.readEnd i < FD_SETSIZE) :
    out.filterMap Line.readable? = selected env.toEnv numPipes.toNat w w.start.unread := by
  obtain ⟨hsucceeds, rfl⟩ := pollPipes_success_iff.mp hpoll
  have hreach : Reaches env.toEnv numPipes writePipes := by
    by_contra hnot
    cases (setUp_of_not_reaches hnot).symm.trans hselect
  have hzero : numPipes = 0 → writePipes = 0 := by
    have := hreach.2.2.1
    have := hsucceeds.divisor
    omega
  rw [setUp_of_ne_zero hreach hzero, if_pos hsucceeds.write] at hselect
  split at hselect
  case isFalse => cases hselect
  obtain rfl := Except.ok.inj hselect
  have hbytes : numPipes.toNat = 0 → writePipes.toNat = 0 := by
    have := hreach.1
    omega
  rw [filterMap_readable?, selected, full]
  congr 1
  refine List.filter_congr fun i hi => decide_eq_decide.mpr ?_
  rw [readEnd_mem_readSet (watched_written hbytes hfits) (accounted_written hbytes)
    (List.mem_range.mp hi)]
  exact Iff.of_eq (by rw [← unread_written]; rfl)

/-- Two pipes with the descriptors 3 to 6, and a byte for the second one. -/
def twoPipes : PollEnv where
  nfds₀ := 0
  calloc := true
  malloc := true
  pipe _ := true
  readEnd i := 2 * i + 3
  random _ := 1
  write _ := true
  select _ := .ok
  read _ := true
  readEnd_inj i j hij := by dsimp only at hij; omega
  callocPollFd := true
  writeEnd i := 2 * i + 4
  capacity _ := 65536
  poll := true

theorem polled_eq_selected_twoPipes :
    [(1, 5)] = selected twoPipes.toEnv 2 ((noneWritten twoPipes.toEnv).add twoPipes.toEnv 2 0)
      (Function.update (fun _ => 0) 1 1) :=
  @polled_eq_selected twoPipes 2 1 [.writing 6 5, .returned 1, .readable 1 5] _ rfl rfl (by decide)

end SelectPipes
end CodeStrudy
