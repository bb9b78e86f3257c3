import CodeStrudy.Foundation.Loop
import Mathlib.Algebra.BigOperators.Fin
import Mathlib.Algebra.Order.BigOperators.Group.Finset
import Mathlib.Algebra.Order.Ring.Int
import Mathlib.Order.Bounds.Basic

/-!
# Waiting for pipes with `select`

The program opens `num-pipes` pipes, writes one byte `write-pipes` times, each time to a pipe chosen
at random, and reads the bytes back: as long as `select` finds a descriptor ready it reads one byte
from every ready pipe.  The pipe is `random() % num-pipes`, and `nfds`, the bound given to `select`,
is compared before it is first assigned.  All bytes are written before the first one is read, so the
writing never ends when a pipe gets more than it has room for.

## What is proved

* `setUp_of_zero`, `setUp_of_ne_zero`: how the program gets to its loop, and what it leaves there.
* `foldlM_writeOne`: when the writing ends, and how.
* `bound_exact_iff`: when the bound is one more than the largest descriptor written to.
* `pass_cases`, `exists_drained`: the loop reads every byte that was written and then times out.
* `meets_select_iff`: the exact condition under which the program does all that is asked of it.
-/

namespace CodeStrudy
namespace SelectPipes

open Foundation

/-- The descriptors that an `fd_set` has room for. -/
def FD_SETSIZE : ℕ := 1024

/-- What a call of `select` comes back with, apart from the set. -/
inductive Select
  | ok
  | eintr
  | error
  deriving DecidableEq

/-- What the program finds: the value `nfds` happens to have, the answers of the allocator and of
the system, the descriptors of its pipes with the bytes that each has room for, and the sequence of
random numbers. -/
structure Env where
  nfds₀ : ℤ
  calloc : Bool
  malloc : Bool
  pipe : ℕ → Bool
  readEnd : ℕ → ℕ
  capacity : ℕ → ℕ
  random : ℕ → ℕ
  write : ℕ → Bool
  select : ℕ → Select
  read : ℕ → Bool
  /-- Open descriptors are distinct. -/
  readEnd_inj : Function.Injective readEnd

/-- How the program stops. -/
inductive Stop
  | failed
  | divisionByZero
  | outsideSet
  | blocked
  | timeOut
  deriving DecidableEq

/-- What the writing leaves: the array `readyfd`, the bound, and the bytes waiting in each pipe. -/
structure Written where
  readyfd : List ℕ
  nfds : ℤ
  unread : ℕ → ℕ

/-- The state of the loop around `select`, with the number of calls so far. -/
structure Reading where
  unread : ℕ → ℕ
  bytesRead : ℕ
  selects : ℕ
  reads : ℕ

variable (env : Env) (n : ℕ) (numPipes writePipes : ℤ) (w : Written)

/-- `randPipes = random() % numPipes` -/
def randPipes (i : ℕ) : ℕ := env.random i % n

/-- The read descriptor of the pipe that byte `i` is written to. -/
def choice (i : ℕ) : ℕ := env.readEnd (randPipes env n i)

/-- One byte reaches its pipe. -/
def Written.add (i : ℕ) : Written where
  readyfd := w.readyfd ++ [choice env n i]
  nfds := if w.nfds ≤ choice env n i then choice env n i + 1 else w.nfds
  unread := Function.update w.unread (randPipes env n i) (w.unread (randPipes env n i) + 1)

/-- One pass of the loop that writes.  Nobody reads yet, so a write to a full pipe waits for
ever. -/
def writeOne (i : ℕ) : Except Stop Written :=
  if n = 0 then .error .divisionByZero
  else if env.capacity (randPipes env n i) ≤ w.unread (randPipes env n i) then .error .blocked
  else if env.write i then .ok (w.add env n i)
  else .error .failed

/-- The state before the first byte is written. -/
def noneWritten : Written := ⟨[], env.nfds₀, fun _ => 0⟩

/-- `main` before its endless loop.  A negative number is a size that no allocation has. -/
def setUp : Except Stop Written :=
  if numPipes < 0 ∨ ¬ env.calloc then .error .failed
  else if writePipes < 0 ∨ ¬ env.malloc then .error .failed
  else if ∃ i < numPipes.toNat, ¬ env.pipe i then .error .failed
  else (List.range writePipes.toNat).foldlM (writeOne env numPipes.toNat) (noneWritten env)

/-- The set that `select` leaves: of the descriptors given to it, those below its bound whose pipe
has a byte to read. -/
def readSet (unread : ℕ → ℕ) : List ℕ :=
  w.readyfd.filter fun fd =>
    (fd : ℤ) < w.nfds ∧ ∃ i < n, env.readEnd i = fd ∧ 0 < unread i

/-- `select` fails for a negative bound. -/
def select (call : ℕ) : Select := if w.nfds < 0 then .error else env.select call

/-- One pass of the loop that reads; reading from an empty pipe waits for ever. -/
def readOne (ready : List ℕ) (s : Reading) (i : ℕ) : Except Stop Reading :=
  if FD_SETSIZE ≤ env.readEnd i then .error .outsideSet
  else if env.readEnd i ∈ ready then
    if s.unread i = 0 then .error .blocked
    else if env.read s.reads then
      .ok ⟨Function.update s.unread i (s.unread i - 1), s.bytesRead + 1, s.selects, s.reads + 1⟩
    else .ok { s with reads := s.reads + 1 }
  else .ok s

/-- One pass of the endless loop. -/
def pass (s : Reading) : Reading ⊕ (Stop × Reading) :=
  if ∃ fd ∈ w.readyfd, FD_SETSIZE ≤ fd then .inr (.outsideSet, s)
  else
    match select env w s.selects with
    | .eintr => .inl { s with selects := s.selects + 1 }
    | .error => .inr (.failed, s)
    | .ok =>
      if readSet env n w s.unread = [] then .inr (.timeOut, s)
      else
        match (List.range n).foldlM (readOne env (readSet env n w s.unread))
            { s with selects := s.selects + 1 } with
        | .ok t => .inl t
        | .error stop => .inr (stop, s)

/-- The loop starts with every byte still in its pipe. -/
def Written.start : Reading := ⟨w.unread, 0, 0, 0⟩

/-- At the time-out, having read `k` bytes, with every pipe empty. -/
def Drained (k : ℤ) (r : Stop × Reading) : Prop :=
  r.1 = .timeOut ∧ r.2.bytesRead = k ∧ ∀ i < n, r.2.unread i = 0

/-- What the program is to do: it does not divide by zero and no write waits for ever, the bound for
`select` is one more than the largest read descriptor written to, and, where the sets have room for
the descriptors and all calls succeed, the bytes are read. -/
def Meets : Prop :=
  setUp env numPipes writePipes ≠ .error .divisionByZero ∧
    setUp env numPipes writePipes ≠ .error .blocked ∧
    ∀ w, setUp env numPipes writePipes = .ok w →
      (∀ m, IsGreatest {fd | fd ∈ w.readyfd} m → w.nfds = m + 1) ∧
      ((∀ i < numPipes.toNat, env.readEnd i < FD_SETSIZE) → (∀ k, select env w k = .ok) →
        (∀ k, env.read k) →
          ∃ r, Loop.Returns (pass env numPipes.toNat w) w.start r ∧
            Drained numPipes.toNat writePipes r)

/-! ## The writing -/

/-- The program gets to its first byte. -/
def Reaches : Prop :=
  0 ≤ numPipes ∧ env.calloc ∧ 0 ≤ writePipes ∧ env.malloc ∧ ∀ i < numPipes.toNat, env.pipe i

/-- The state after `m` bytes. -/
def written (m : ℕ) : Written := (List.range m).foldl (Written.add env n) (noneWritten env)

/-- The bytes that the first `m` writes put into pipe `i`. -/
def load (m i : ℕ) : ℕ := (List.range m).countP fun j => randPipes env n j = i

/-- As long as no write fails, none of the first `m` goes to a full pipe. -/
def HasRoom (m : ℕ) : Prop :=
  ∀ i < m, (∀ j < i, env.write j) →
    load env n i (randPipes env n i) < env.capacity (randPipes env n i)

instance (m : ℕ) : Decidable (HasRoom env n m) := Nat.decidableBallLT m _

variable {env n numPipes writePipes w}

theorem written_succ (m : ℕ) : written env n (m + 1) = (written env n m).add env n m := by
  rw [written, List.range_succ, List.foldl_append]
  rfl

theorem readyfd_written (m : ℕ) :
    (written env n m).readyfd = (List.range m).map (choice env n) := by
  induction m with
  | zero => rfl
  | succ m ih =>
    rw [written_succ, List.range_succ, List.map_append, ← ih]
    rfl

theorem mem_readyfd_written {m fd : ℕ} :
    fd ∈ (written env n m).readyfd ↔ ∃ i < m, choice env n i = fd := by
  simp only [readyfd_written, List.mem_map, List.mem_range]

/-- Every byte raises the bound above its descriptor, and nothing else raises it. -/
theorem nfds_written (m : ℕ) :
    (∀ i < m, (choice env n i : ℤ) < (written env n m).nfds) ∧
      env.nfds₀ ≤ (written env n m).nfds ∧
      ((written env n m).nfds = env.nfds₀ ∨
        ∃ i < m, (written env n m).nfds = choice env n i + 1) := by
  induction m with
  | zero => exact ⟨fun i hi => absurd hi (Nat.not_lt_zero i), le_rfl, .inl rfl⟩
  | succ m ih =>
    obtain ⟨habove, hstart, hcases⟩ := ih
    rw [written_succ, Written.add]
    dsimp only
    split_ifs with hle
    · refine ⟨fun i hi => ?_, by omega, .inr ⟨m, Nat.lt_succ_self m, rfl⟩⟩
      rcases Nat.lt_succ_iff_lt_or_eq.mp hi with hi | rfl
      · have := habove i hi
        omega
      · omega
    · refine ⟨fun i hi => ?_, hstart, hcases.imp_right ?_⟩
      · rcases Nat.lt_succ_iff_lt_or_eq.mp hi with hi | rfl
        · exact habove i hi
        · omega
      · rintro ⟨i, hi, hbound⟩
        exact ⟨i, Nat.lt_succ_of_lt hi, hbound⟩

/-- The bytes waiting in the pipes. -/
def total (n : ℕ) (unread : ℕ → ℕ) : ℕ := ∑ i ∈ Finset.range n, unread i

/-- A change of what one pipe holds. -/
theorem total_update {i : ℕ} (hi : i < n) (unread : ℕ → ℕ) (v : ℕ) :
    total n (Function.update unread i v) + unread i = total n unread + v := by
  have hmem := Finset.mem_range.mpr hi
  have hrest : ∑ j ∈ (Finset.range n).erase i, Function.update unread i v j =
      ∑ j ∈ (Finset.range n).erase i, unread j :=
    Finset.sum_congr rfl fun j hj => Function.update_of_ne (Finset.ne_of_mem_erase hj) _ _
  rw [total, total, ← Finset.add_sum_erase _ _ hmem, hrest, Function.update_self,
    ← Finset.add_sum_erase _ unread hmem]
  omega

/-- The pipes hold the bytes that were written. -/
theorem total_unread_written (hn : n ≠ 0) (m : ℕ) : total n (written env n m).unread = m := by
  induction m with
  | zero => exact Finset.sum_const_zero
  | succ m ih =>
    have hmem : randPipes env n m < n := Nat.mod_lt _ (Nat.pos_of_ne_zero hn)
    have hadd := total_update hmem (written env n m).unread
      ((written env n m).unread (randPipes env n m) + 1)
    rw [written_succ, Written.add]
    dsimp only
    omega

/-- A pipe that holds a byte was written to. -/
theorem readEnd_mem_of_unread {m i : ℕ} (h : 0 < (written env n m).unread i) :
    env.readEnd i ∈ (written env n m).readyfd := by
  induction m with
  | zero => exact absurd h (Nat.not_lt_zero 0)
  | succ m ih =>
    rw [written_succ] at h ⊢
    by_cases hi : i = randPipes env n m
    · rw [hi]
      exact List.mem_append_right _ (List.mem_singleton.mpr rfl)
    · have hkept : ((written env n m).add env n m).unread i = (written env n m).unread i :=
        Function.update_of_ne hi _ _
      exact List.mem_append_left _ (ih (hkept ▸ h))

theorem load_succ (m : ℕ) : load env n (m + 1) =
    Function.update (load env n m) (randPipes env n m) (load env n m (randPipes env n m) + 1) := by
  funext i
  rw [load, List.range_succ, List.countP_append, List.countP_singleton]
  by_cases hi : randPipes env n m = i
  · subst hi
    rw [Function.update_self, if_pos (decide_eq_true rfl)]
    rfl
  · rw [Function.update_of_ne (Ne.symm hi), if_neg (by simpa using hi)]
    rfl

theorem unread_written (m : ℕ) : (written env n m).unread = load env n m := by
  induction m with
  | zero => rfl
  | succ m ih =>
    rw [written_succ, load_succ, ← ih]
    rfl

/-- The last pass of a loop that can stop early. -/
theorem foldlM_range_succ {ε σ : Type} (f : σ → ℕ → Except ε σ) (s : σ) (m : ℕ) :
    (List.range (m + 1)).foldlM f s = (List.range m).foldlM f s >>= fun t => f t m := by
  rw [List.range_succ, List.foldlM_append]
  cases (List.range m).foldlM f s with
  | error e => rfl
  | ok t =>
    show (List.foldlM f t [m]) = f t m
    rw [List.foldlM_cons]
    cases f t m <;> rfl

theorem hasRoom_zero : HasRoom env n 0 := fun i hi => absurd hi (Nat.not_lt_zero i)

theorem HasRoom.of_succ {m : ℕ} (h : HasRoom env n (m + 1)) : HasRoom env n m :=
  fun i hi => h i (hi.trans m.lt_succ_self)

theorem writeOne_written (hn : n ≠ 0) (m : ℕ) :
    writeOne env n (written env n m) m =
      if load env n m (randPipes env n m) < env.capacity (randPipes env n m) then
        if env.write m then .ok (written env n (m + 1)) else .error .failed
      else .error .blocked := by
  rw [writeOne, if_neg hn, unread_written, written_succ]
  by_cases hroom : load env n m (randPipes env n m) < env.capacity (randPipes env n m)
  · rw [if_neg (not_le.mpr hroom), if_pos hroom]
  · rw [if_pos (not_lt.mp hroom), if_neg hroom]

/-- **The writing** comes to its end exactly if no write fails and none goes to a full pipe. -/
theorem foldlM_writeOne (hn : n ≠ 0) (m : ℕ) :
    (List.range m).foldlM (writeOne env n) (noneWritten env) =
      if HasRoom env n m then
        if ∀ i < m, env.write i then .ok (written env n m) else .error .failed
      else .error .blocked := by
  induction m with
  | zero =>
    have hnone : ∀ i < 0, env.write i := fun i hi => absurd hi (Nat.not_lt_zero i)
    rw [if_pos hasRoom_zero, if_pos hnone]
    rfl
  | succ m ih =>
    rw [foldlM_range_succ, ih]
    by_cases hroom : HasRoom env n m
    · rw [if_pos hroom]
      by_cases hwrite : ∀ i < m, env.write i
      · rw [if_pos hwrite]
        show writeOne env n (written env n m) m = _
        have hiff : HasRoom env n (m + 1) ↔
            load env n m (randPipes env n m) < env.capacity (randPipes env n m) := by
          refine ⟨fun h => h m m.lt_succ_self hwrite, fun h i hi => ?_⟩
          rcases Nat.lt_succ_iff_lt_or_eq.mp hi with hi | rfl
          · exact hroom i hi
          · exact fun _ => h
        rw [writeOne_written hn, if_congr hiff rfl rfl]
        refine if_congr Iff.rfl (if_congr ?_ rfl rfl) rfl
        refine ⟨fun hm i hi => ?_, fun h => h m m.lt_succ_self⟩
        rcases Nat.lt_succ_iff_lt_or_eq.mp hi with hi | rfl
        · exact hwrite i hi
        · exact hm
      · have hfails : ¬ ∀ i < m + 1, env.write i :=
          fun h => hwrite fun i hi => h i (hi.trans m.lt_succ_self)
        have hroom' : HasRoom env n (m + 1) := by
          intro i hi hbefore
          rcases Nat.lt_succ_iff_lt_or_eq.mp hi with hi | rfl
          · exact hroom i hi hbefore
          · exact absurd hbefore hwrite
        rw [if_neg hwrite, if_pos hroom', if_neg hfails]
        rfl
    · rw [if_neg hroom, if_neg (mt HasRoom.of_succ hroom)]
      rfl

theorem setUp_of_not_reaches (h : ¬ Reaches env numPipes writePipes) :
    setUp env numPipes writePipes = .error .failed := by
  unfold setUp
  by_cases hcalloc : numPipes < 0 ∨ ¬ env.calloc
  · rw [if_pos hcalloc]
  rw [if_neg hcalloc]
  by_cases hmalloc : writePipes < 0 ∨ ¬ env.malloc
  · rw [if_pos hmalloc]
  rw [if_neg hmalloc, if_pos]
  rw [not_or, not_not, not_lt] at hcalloc hmalloc
  by_contra hpipe
  refine h ⟨hcalloc.1, hcalloc.2, hmalloc.1, hmalloc.2, fun i hi => ?_⟩
  by_contra hfails
  exact hpipe ⟨i, hi, hfails⟩

theorem setUp_of_reaches (h : Reaches env numPipes writePipes) :
    setUp env numPipes writePipes =
      (List.range writePipes.toNat).foldlM (writeOne env numPipes.toNat) (noneWritten env) := by
  obtain ⟨hnum, hcalloc, hwrite, hmalloc, hpipe⟩ := h
  rw [setUp, if_neg, if_neg, if_neg]
  · rintro ⟨i, hi, hfails⟩
    exact hfails (hpipe i hi)
  · exact not_or.mpr ⟨not_lt.mpr hwrite, not_not.mpr hmalloc⟩
  · exact not_or.mpr ⟨not_lt.mpr hnum, not_not.mpr hcalloc⟩

/-- Without pipes the first byte divides by zero. -/
theorem setUp_of_zero (h : Reaches env 0 writePipes) (hwrite : 0 < writePipes) :
    setUp env 0 writePipes = .error .divisionByZero := by
  obtain ⟨m, hm⟩ : ∃ m, writePipes.toNat = m + 1 := Nat.exists_eq_succ_of_ne_zero (by omega)
  rw [setUp_of_reaches h, hm, List.range_succ_eq_map, List.foldlM_cons]
  rfl

/-- How the program gets to its loop otherwise. -/
theorem setUp_of_ne_zero (h : Reaches env numPipes writePipes)
    (hne : numPipes = 0 → writePipes = 0) :
    setUp env numPipes writePipes =
      if HasRoom env numPipes.toNat writePipes.toNat then
        if ∀ i < writePipes.toNat, env.write i then
          .ok (written env numPipes.toNat writePipes.toNat)
        else .error .failed
      else .error .blocked := by
  rw [setUp_of_reaches h]
  by_cases hnum : numPipes.toNat = 0
  · obtain rfl := hne (by have := h.1; omega)
    have hroom : HasRoom env numPipes.toNat (0 : ℤ).toNat := hasRoom_zero
    have hnone : ∀ i < (0 : ℤ).toNat, env.write i := fun i hi => absurd hi (Nat.not_lt_zero i)
    rw [if_pos hroom, if_pos hnone]
    rfl
  · exact foldlM_writeOne hnum _

/-- **The bound is right** exactly if what `nfds` happened to hold is not above it. -/
theorem bound_exact_iff {m : ℕ} (hm : 0 < m) :
    (∀ k, IsGreatest {fd | fd ∈ (written env n m).readyfd} k → (written env n m).nfds = k + 1) ↔
      ∃ i < m, env.nfds₀ ≤ choice env n i + 1 := by
  obtain ⟨habove, hstart, hcases⟩ := @nfds_written env n m
  constructor
  · intro h
    obtain ⟨j, hj, hmax⟩ := Finset.exists_max_image (Finset.range m) (choice env n)
      ⟨0, Finset.mem_range.mpr hm⟩
    rw [Finset.mem_range] at hj
    have hgreatest : IsGreatest {fd | fd ∈ (written env n m).readyfd} (choice env n j) := by
      refine ⟨mem_readyfd_written.mpr ⟨j, hj, rfl⟩, fun fd hfd => ?_⟩
      obtain ⟨i, hi, rfl⟩ := mem_readyfd_written.mp hfd
      exact hmax i (Finset.mem_range.mpr hi)
    exact ⟨j, hj, h _ hgreatest ▸ hstart⟩
  · rintro ⟨i, hi, hle⟩ k ⟨hk, hmax⟩
    obtain ⟨j, hj, rfl⟩ := mem_readyfd_written.mp hk
    have hup : ∀ i < m, choice env n i ≤ choice env n j :=
      fun i hi => hmax (mem_readyfd_written.mpr ⟨i, hi, rfl⟩)
    have hi' := hup i hi
    have hj' := habove j hj
    rcases hcases with h | ⟨i', hi'', h⟩
    · omega
    · have := hup i' hi''
      omega

/-! ## The reading -/

/-- Every descriptor given to `select` is below its bound and fits the set. -/
structure Watched (w : Written) : Prop where
  below : ∀ fd ∈ w.readyfd, (fd : ℤ) < w.nfds
  fits : ∀ fd ∈ w.readyfd, fd < FD_SETSIZE

/-- What the loop keeps: no byte is lost, and every pipe that holds one is watched. -/
structure Accounted (env : Env) (n : ℕ) (w : Written) (k : ℕ) (s : Reading) : Prop where
  count : total n s.unread + s.bytesRead = k
  watched : ∀ i < n, 0 < s.unread i → env.readEnd i ∈ w.readyfd

variable {s : Reading} {ready : List ℕ}

/-- A pipe is found ready exactly if it holds a byte. -/
theorem readEnd_mem_readSet {k : ℕ} (hw : Watched w) (hs : Accounted env n w k s) {i : ℕ}
    (hi : i < n) : env.readEnd i ∈ readSet env n w s.unread ↔ 0 < s.unread i := by
  rw [readSet, List.mem_filter, decide_eq_true_iff]
  constructor
  · rintro ⟨-, -, j, -, hj, hpos⟩
    exact env.readEnd_inj hj ▸ hpos
  · intro hpos
    have hmem := hs.watched i hi hpos
    exact ⟨hmem, hw.below _ hmem, i, hi, rfl, hpos⟩

/-- The set is empty exactly if the pipes are. -/
theorem readSet_eq_nil_iff {k : ℕ} (hw : Watched w) (hs : Accounted env n w k s) :
    readSet env n w s.unread = [] ↔ ∀ i < n, s.unread i = 0 := by
  constructor
  · intro hnil i hi
    by_contra hne
    have := (readEnd_mem_readSet hw hs hi).mpr (Nat.pos_of_ne_zero hne)
    rw [hnil] at this
    exact List.not_mem_nil this
  · intro hzero
    refine List.eq_nil_iff_forall_not_mem.mpr fun fd hfd => ?_
    obtain ⟨-, i, hi, -, hpos⟩ := decide_eq_true_iff.mp (List.mem_filter.mp hfd).2
    exact absurd (hzero i hi) hpos.ne'

/-- One byte is read from a pipe that holds one, and nothing from an empty one. -/
theorem readOne_eq {i : ℕ} (hfits : env.readEnd i < FD_SETSIZE) (hread : ∀ k, env.read k)
    (hready : env.readEnd i ∈ ready ↔ 0 < s.unread i) (hi : i < n) :
    ∃ t, readOne env ready s i = .ok t ∧
      total n t.unread + t.bytesRead = total n s.unread + s.bytesRead ∧
      t.unread = Function.update s.unread i (s.unread i - 1) := by
  rw [readOne, if_neg (not_le.mpr hfits)]
  by_cases hpos : 0 < s.unread i
  · rw [if_pos (hready.mpr hpos), if_neg hpos.ne', if_pos (hread _)]
    refine ⟨_, rfl, ?_, rfl⟩
    have htotal := total_update hi s.unread (s.unread i - 1)
    dsimp only
    omega
  · rw [if_neg (mt hready.mp hpos)]
    have hempty : s.unread i - 1 = s.unread i := by omega
    refine ⟨s, rfl, rfl, ?_⟩
    rw [hempty, Function.update_eq_self]

/-- **One pass over the pipes** takes a byte from each that is ready. -/
theorem foldlM_readOne (hfits : ∀ i < n, env.readEnd i < FD_SETSIZE) (hread : ∀ k, env.read k)
    (hready : ∀ i < n, env.readEnd i ∈ ready ↔ 0 < s.unread i) {m : ℕ} (hm : m ≤ n) :
    ∃ t, (List.range m).foldlM (readOne env ready) s = .ok t ∧
      total n t.unread + t.bytesRead = total n s.unread + s.bytesRead ∧
      ∀ i, t.unread i = if i < m then s.unread i - 1 else s.unread i := by
  induction m with
  | zero => exact ⟨s, rfl, rfl, fun i => by rw [if_neg (Nat.not_lt_zero i)]⟩
  | succ m ih =>
    obtain ⟨t, hrun, hcount, ht⟩ := ih (Nat.le_of_succ_le hm)
    have htm : t.unread m = s.unread m := by rw [ht, if_neg (lt_irrefl m)]
    obtain ⟨t', hone, hcount', ht'⟩ := readOne_eq (s := t) (hfits m hm) hread
      (htm ▸ hready m hm) (Nat.lt_of_succ_le hm)
    refine ⟨t', ?_, hcount'.trans hcount, fun i => ?_⟩
    · rw [List.range_succ, List.foldlM_append, hrun]
      show List.foldlM (readOne env ready) t [m] = _
      rw [List.foldlM_cons, hone]
      rfl
    · by_cases hi : i = m
      · rw [ht', hi, Function.update_self, if_pos (Nat.lt_succ_self m), htm]
      · rw [ht', Function.update_of_ne hi, ht]
        exact if_congr (by omega) rfl rfl

/-- One pass of the loop: it reads a byte at least, or it ends with every byte read. -/
theorem pass_cases {k : ℕ} (hw : Watched w) (hfits : ∀ i < n, env.readEnd i < FD_SETSIZE)
    (hselect : ∀ k, select env w k = .ok) (hread : ∀ k, env.read k)
    (hs : Accounted env n w k s) :
    (∃ t, pass env n w s = .inl t ∧ Accounted env n w k t ∧ total n t.unread < total n s.unread) ∨
      ∃ r, pass env n w s = .inr r ∧ Drained n k r := by
  have hinside : ¬ ∃ fd ∈ w.readyfd, FD_SETSIZE ≤ fd := by
    rintro ⟨fd, hfd, hle⟩
    exact absurd (hw.fits fd hfd) (not_lt.mpr hle)
  rw [pass, if_neg hinside, hselect]
  dsimp only
  by_cases hnil : readSet env n w s.unread = []
  · have hzero := (readSet_eq_nil_iff hw hs).mp hnil
    have hcount := hs.count
    rw [total, Finset.sum_eq_zero fun i hi => hzero i (Finset.mem_range.mp hi)] at hcount
    have hall : (s.bytesRead : ℤ) = k := by omega
    rw [if_pos hnil]
    exact .inr ⟨_, rfl, rfl, hall, hzero⟩
  · obtain ⟨t, hrun, hcount, ht⟩ := foldlM_readOne (s := { s with selects := s.selects + 1 })
      hfits hread (fun i hi => readEnd_mem_readSet hw hs hi) le_rfl
    obtain ⟨i, hi, hne⟩ : ∃ i < n, s.unread i ≠ 0 := by
      by_contra hall
      refine hnil ((readSet_eq_nil_iff hw hs).mpr fun i hi => ?_)
      by_contra hne
      exact hall ⟨i, hi, hne⟩
    have hle : ∀ j, t.unread j ≤ s.unread j := by
      intro j
      rw [ht]
      split_ifs
      · exact Nat.sub_le _ _
      · exact le_rfl
    have hlt : t.unread i < s.unread i := by
      rw [ht, if_pos hi]
      exact Nat.sub_lt (Nat.pos_of_ne_zero hne) one_pos
    rw [if_neg hnil, hrun]
    refine .inl ⟨t, rfl, ⟨hcount.trans hs.count, fun j hj hpos => ?_⟩, ?_⟩
    · exact hs.watched j hj (hpos.trans_le (hle j))
    · exact Finset.sum_lt_sum (fun j _ => hle j) ⟨i, Finset.mem_range.mpr hi, hlt⟩

/-- **The loop ends at its time-out with every byte read.** -/
theorem exists_drained {k : ℕ} (hw : Watched w) (hfits : ∀ i < n, env.readEnd i < FD_SETSIZE)
    (hselect : ∀ k, select env w k = .ok) (hread : ∀ k, env.read k)
    (hstart : Accounted env n w k w.start) :
    ∃ r, Loop.Returns (pass env n w) w.start r ∧ Drained n k r :=
  Loop.exists_returns_good (Accounted env n w k) (Drained n k) (fun s => total n s.unread)
    (fun _ hs => pass_cases hw hfits hselect hread hs) hstart

/-- The loop starts with every byte accounted for. -/
theorem accounted_written {m : ℕ} (h : n = 0 → m = 0) :
    Accounted env n (written env n m) m (written env n m).start := by
  refine ⟨?_, fun i _ hpos => readEnd_mem_of_unread hpos⟩
  show total n (written env n m).unread + 0 = m
  rw [Nat.add_zero]
  by_cases hn : n = 0
  · rw [h hn]
    exact Finset.sum_const_zero
  · exact total_unread_written hn m

theorem watched_written {m : ℕ} (h : n = 0 → m = 0) (hfits : ∀ i < n, env.readEnd i < FD_SETSIZE) :
    Watched (written env n m) where
  below fd hfd := by
    obtain ⟨i, hi, rfl⟩ := mem_readyfd_written.mp hfd
    exact (nfds_written m).1 i hi
  fits fd hfd := by
    obtain ⟨i, hi, rfl⟩ := mem_readyfd_written.mp hfd
    have hn : n ≠ 0 := fun hn => by have := h hn; omega
    exact hfits _ (Nat.mod_lt _ (Nat.pos_of_ne_zero hn))

/-! ## The program -/

variable (env numPipes writePipes)

/-- If there is a byte to write, there is a pipe for it, no pipe gets more bytes than it has room
for, and the value `nfds` happened to hold is at most the bound that one of the writes calls for. -/
def Fits : Prop :=
  Reaches env numPipes writePipes → 0 < writePipes →
    numPipes ≠ 0 ∧ HasRoom env numPipes.toNat writePipes.toNat ∧
    ((∀ i < writePipes.toNat, env.write i) →
      ∃ i < writePipes.toNat, env.nfds₀ ≤ choice env numPipes.toNat i + 1)

variable {env numPipes writePipes}

/-- A program that exits has nothing more to do. -/
theorem meets_of_failed (h : setUp env numPipes writePipes = .error .failed) :
    Meets env numPipes writePipes := by
  rw [Meets, h]
  exact ⟨fun h => (by cases h), fun h => (by cases h), fun w hw => (by cases hw)⟩

/-- What it does when all bytes are written. -/
theorem meets_of_written (hreach : Reaches env numPipes writePipes)
    (hzero : numPipes = 0 → writePipes = 0)
    (hsetUp : setUp env numPipes writePipes =
      .ok (written env numPipes.toNat writePipes.toNat))
    (hbound : 0 < writePipes.toNat →
      ∃ i < writePipes.toNat, env.nfds₀ ≤ choice env numPipes.toNat i + 1) :
    Meets env numPipes writePipes := by
  have hbytes : numPipes.toNat = 0 → writePipes.toNat = 0 := by
    have := hreach.1
    omega
  rw [Meets, hsetUp]
  refine ⟨fun h => (by cases h), fun h => (by cases h), fun w hw => ?_⟩
  obtain rfl := Except.ok.inj hw
  constructor
  · rcases Nat.eq_zero_or_pos writePipes.toNat with hnone | hsome
    · rintro m ⟨hm, -⟩
      obtain ⟨i, hi, -⟩ := mem_readyfd_written.mp hm
      omega
    · exact (bound_exact_iff hsome).mpr (hbound hsome)
  · intro hfits hselect hread
    have hdrained := exists_drained (watched_written hbytes hfits) hfits hselect hread
      (accounted_written hbytes)
    rwa [Int.toNat_of_nonneg hreach.2.2.1] at hdrained

variable (env numPipes writePipes)

/-- **The program does what it is to do** exactly if there is a pipe to write to, no pipe gets more
than it has room for, and the value that `nfds` holds before it is assigned is small enough. -/
theorem meets_select_iff : Meets env numPipes writePipes ↔ Fits env numPipes writePipes := by
  constructor
  · intro h hreach hpos
    have hne : numPipes ≠ 0 := by
      rintro rfl
      exact h.1 (setUp_of_zero hreach hpos)
    have hsetUp := setUp_of_ne_zero hreach fun hzero => absurd hzero hne
    have hroom : HasRoom env numPipes.toNat writePipes.toNat := by
      by_contra hfull
      exact h.2.1 (hsetUp.trans (if_neg hfull))
    refine ⟨hne, hroom, fun hwrite => (bound_exact_iff (by omega)).mp (h.2.2 _ ?_).1⟩
    rw [hsetUp, if_pos hroom, if_pos hwrite]
  · intro h
    by_cases hreach : Reaches env numPipes writePipes
    · have hzero : numPipes = 0 → writePipes = 0 := by
        intro hnum
        by_contra hne
        have := hreach.2.2.1
        exact (h hreach (by omega)).1 hnum
      have hroom : HasRoom env numPipes.toNat writePipes.toNat := by
        rcases Nat.eq_zero_or_pos writePipes.toNat with hnone | hsome
        · exact hnone ▸ hasRoom_zero
        · exact (h hreach (by omega)).2.1
      have hsetUp := setUp_of_ne_zero hreach hzero
      rw [if_pos hroom] at hsetUp
      by_cases hwrite : ∀ i < writePipes.toNat, env.write i
      · rw [if_pos hwrite] at hsetUp
        exact meets_of_written hreach hzero hsetUp fun hsome => (h hreach (by omega)).2.2 hwrite
      · rw [if_neg hwrite] at hsetUp
        exact meets_of_failed hsetUp
    · exact meets_of_failed (setUp_of_not_reaches hreach)

/-- One byte for no pipes. -/
theorem not_meets_select : ¬ ∀ env numPipes writePipes, Meets env numPipes writePipes := by
  intro h
  have hmeets := h ⟨0, true, true, fun _ => true, fun i => 2 * i + 3, fun _ => 65536, fun _ => 0,
    fun _ => true, fun _ => .ok, fun _ => true, fun i j hij => by dsimp only at hij; omega⟩ 0 1
  exact hmeets.1 rfl

end SelectPipes
end CodeStrudy
