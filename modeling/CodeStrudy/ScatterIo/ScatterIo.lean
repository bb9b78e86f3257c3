import CodeStrudy.Foundation.FileIO
import Mathlib.Data.List.SplitLengths

/-!
# Scattered reads and writes

`practice/5.7/scatterIO.c`: `myreadv` and `mywritev` go through a vector of buffers with one `read`
or `write` for each.  A buffer that is a null pointer makes them return -1, a call that fails makes
them exit, and the number of bytes that a call transfers is not looked at.

## What is proved

* `iovLoop_eq`: both functions transfer what stands before the first null pointer.
* `transfers_readBase`, `transfers_writeBase`: what that leaves of the stream, the buffers and the
  file.
* `readsInOrder_iff`: when the buffers that `myreadv` fills are filled without gaps.
* `readKept_iff`, `writeKept_iff`: when a result of -1 means that nothing was transferred.
-/

namespace CodeStrudy
namespace ScatterIo

open Foundation

/-! ## `scatterIO.h` -/

/-- `struct myiovec`; the base is `NULL` or the address of a buffer of the given length. -/
structure MyIovec where
  iov_len : ℕ
  iov_base : Option (CharArray iov_len)

/-- The element after bytes were read into its buffer. -/
def MyIovec.store (v : MyIovec) (data : List UInt8) : MyIovec :=
  ⟨v.iov_len, v.iov_base.map (·.write data)⟩

/-! ## `scatterIO.c` -/

/-- How a call ends. -/
inductive Outcome (σ : Type*) where
  | returned (value : ℤ) (s : σ)
  | exited

/-- The loop of both functions, for what they do with element `i`. -/
def iovLoop {σ : Type*} (transfer : ℕ → MyIovec → σ → Option σ) :
    ℕ → List MyIovec → σ → Outcome σ
  | i, [], s => .returned i s
  | i, v :: iov, s =>
    if v.iov_base = none then .returned (-1) s
    else
      match transfer i v s with
      | none => .exited
      | some s => iovLoop transfer (i + 1) iov s

/-- The stream behind the file offset and the elements as they are in memory; and, for each call of
`read` so far, what it delivered. -/
structure Reading where
  rest : List UInt8
  iov : List MyIovec
  received : List (List UInt8)

/-- `read(fd, iov[i].iov_base, iov[i].iov_len)` -/
def readBase (rd : ℕ → Option ℕ) (i : ℕ) (v : MyIovec) (s : Reading) : Option Reading :=
  (readShort (rd i) v.iov_len s.rest).map fun (data, rest) =>
    ⟨rest, s.iov.set i (v.store data), s.received ++ [data]⟩

/-- `myreadv` on a stream, when call `i` of `read` does what `rd i` says. -/
def myreadv (rd : ℕ → Option ℕ) (iov : List MyIovec) (stream : List UInt8) : Outcome Reading :=
  iovLoop (readBase rd) 0 iov ⟨stream, iov, []⟩

/-- The bytes that a `write` puts into the file; `none` if it fails. -/
def writeBytes (r : WriteResult) (bytes : List UInt8) : Option (List UInt8) :=
  match r with
  | .wrote count => some (bytes.take count)
  | .error => none

/-- `write(fd, iov[i].iov_base, iov[i].iov_len)` -/
def writeBase (wr : ℕ → WriteResult) (i : ℕ) (v : MyIovec) (f : OpenFile) : Option OpenFile :=
  v.iov_base.bind fun buf => (writeBytes (wr i) buf.bytes).map f.write

/-- `mywritev` on an open file, when call `i` of `write` does what `wr i` says. -/
def mywritev (wr : ℕ → WriteResult) (iov : List MyIovec) (f : OpenFile) : Outcome OpenFile :=
  iovLoop (writeBase wr) 0 iov f

/-! ## The loop -/

/-- What holds at all indices of a list from `i` on. -/
theorem forall_index_cons {α : Type*} (P : ℕ → Prop) (i : ℕ) (a : α) (l : List α) :
    (∀ k < (a :: l).length, P (i + k)) ↔ P i ∧ ∀ k < l.length, P (i + 1 + k) := by
  constructor
  · intro h
    refine ⟨h 0 (Nat.succ_pos _), fun k hk => ?_⟩
    rw [Nat.add_right_comm]
    exact h (k + 1) (Nat.succ_lt_succ hk)
  · rintro ⟨hzero, hsucc⟩ k hk
    cases k with
    | zero => exact hzero
    | succ k =>
      have h := hsucc k (Nat.lt_of_succ_lt_succ hk)
      rwa [Nat.add_right_comm] at h

section Loop

variable {σ : Type*} (transfer : ℕ → MyIovec → σ → Option σ)

/-- The elements before the first null pointer. -/
def beforeNull (iov : List MyIovec) : List MyIovec := iov.takeWhile (·.iov_base.isSome)

/-- The transfers for some elements, none of them a null pointer. -/
def transfers : ℕ → List MyIovec → σ → Option σ
  | _, [], s => some s
  | i, v :: iov, s => (transfer i v s).bind (transfers (i + 1) iov)

/-- Whether an element is a null pointer. -/
def HasNull (iov : List MyIovec) : Prop := ∃ v ∈ iov, v.iov_base = none

instance (iov : List MyIovec) : Decidable (HasNull iov) :=
  inferInstanceAs (Decidable (∃ v ∈ iov, v.iov_base = none))

theorem beforeNull_of_not_hasNull {iov : List MyIovec} (h : ¬ HasNull iov) :
    beforeNull iov = iov := by
  refine List.takeWhile_eq_self_iff.mpr fun v hv => ?_
  rw [Option.isSome_iff_ne_none]
  exact fun hnone => h ⟨v, hv, hnone⟩

/-- **What the loop does**: the transfers for all elements before the first null pointer. -/
theorem iovLoop_eq (i : ℕ) (iov : List MyIovec) (s : σ) :
    iovLoop transfer i iov s =
      match transfers transfer i (beforeNull iov) s with
      | none => .exited
      | some t => .returned (if HasNull iov then -1 else i + iov.length) t := by
  induction iov generalizing i s with
  | nil => simp [iovLoop, beforeNull, transfers, HasNull]
  | cons v iov ih =>
    rw [iovLoop]
    split
    · rename_i hnull
      simp [beforeNull, hnull, transfers, HasNull]
    · rename_i hbase
      have hsome : v.iov_base.isSome = true := Option.isSome_iff_ne_none.mpr hbase
      have hbefore : beforeNull (v :: iov) = v :: beforeNull iov :=
        List.takeWhile_cons_of_pos hsome
      have hnull : HasNull (v :: iov) ↔ HasNull iov := by simp [HasNull, hbase]
      have hlen : (i : ℤ) + (v :: iov).length = (i + 1 : ℕ) + iov.length := by
        rw [List.length_cons]
        omega
      rw [hbefore, transfers, hlen]
      simp only [hnull]
      cases transfer i v s with
      | none => rfl
      | some t => exact ih (i + 1) t

variable {transfer}

/-- A call that returns -1 has made the transfers before a null pointer. -/
theorem iovLoop_eq_neg_one_iff {iov : List MyIovec} {s t : σ} :
    iovLoop transfer 0 iov s = .returned (-1) t ↔
      HasNull iov ∧ transfers transfer 0 (beforeNull iov) s = some t := by
  rw [iovLoop_eq]
  cases transfers transfer 0 (beforeNull iov) s with
  | none => simp
  | some u =>
    by_cases h : HasNull iov
    · simp [h]
    · simp only [h, if_false, Outcome.returned.injEq, false_and, iff_false, not_and]
      intro hvalue
      omega

/-- A call that returns anything else has made the transfers for all elements. -/
theorem iovLoop_eq_of_ne_neg_one_iff {iov : List MyIovec} {s t : σ} :
    (∃ n, n ≠ -1 ∧ iovLoop transfer 0 iov s = .returned n t) ↔
      ¬ HasNull iov ∧ transfers transfer 0 iov s = some t := by
  simp only [iovLoop_eq]
  by_cases h : HasNull iov
  · cases transfers transfer 0 (beforeNull iov) s with
    | none => simp [h]
    | some u =>
      simp only [h, if_true, Outcome.returned.injEq, not_true, false_and, iff_false]
      rintro ⟨n, hn, hvalue, -⟩
      exact hn hvalue.symm
  · rw [beforeNull_of_not_hasNull h]
    cases transfers transfer 0 iov s with
    | none => simp
    | some u =>
      simp only [h, if_false, Outcome.returned.injEq, not_false_iff, true_and, Option.some.injEq]
      constructor
      · rintro ⟨n, -, -, rfl⟩
        rfl
      · rintro rfl
        exact ⟨_, by omega, rfl, rfl⟩

end Loop

/-! ## What `myreadv` leaves -/

/-- The bytes that the calls deliver to the elements, if the stream has as many. -/
def sizes (rd : ℕ → Option ℕ) (i : ℕ) (iov : List MyIovec) : List ℕ :=
  iov.mapIdx fun k v => readSize (rd (i + k)) v.iov_len

theorem sizes_cons (rd : ℕ → Option ℕ) (i : ℕ) (v : MyIovec) (iov : List MyIovec) :
    sizes rd i (v :: iov) = readSize (rd i) v.iov_len :: sizes rd (i + 1) iov := by
  rw [sizes, List.mapIdx_cons, sizes]
  simp only [Nat.add_zero, Nat.add_assoc, Nat.add_comm 1]

theorem readBase_of_ne_none {rd : ℕ → Option ℕ} {i : ℕ} (h : rd i ≠ none) (v : MyIovec)
    (rest : List UInt8) (iov : List MyIovec) (received : List (List UInt8)) :
    readBase rd i v ⟨rest, iov, received⟩ =
      some ⟨rest.drop (readSize (rd i) v.iov_len),
        iov.set i (v.store (rest.take (readSize (rd i) v.iov_len))),
        received ++ [rest.take (readSize (rd i) v.iov_len)]⟩ := by
  rw [readBase, readShort, if_neg h]
  rfl

theorem readBase_of_eq_none {rd : ℕ → Option ℕ} {i : ℕ} (h : rd i = none) (v : MyIovec)
    (s : Reading) : readBase rd i v s = none := by
  rw [readBase, readShort, if_pos h]
  rfl

/-- The transfers of `myreadv` cut the stream into the sizes of the calls. -/
theorem transfers_readBase (rd : ℕ → Option ℕ) (pre : List MyIovec) (done post : List MyIovec)
    (rest : List UInt8) (received : List (List UInt8)) :
    transfers (readBase rd) done.length pre ⟨rest, done ++ (pre ++ post), received⟩ =
      if ∀ k < pre.length, rd (done.length + k) ≠ none then
        some ⟨rest.drop (sizes rd done.length pre).sum,
          done ++ (List.zipWith MyIovec.store pre ((sizes rd done.length pre).splitLengths rest) ++
            post),
          received ++ (sizes rd done.length pre).splitLengths rest⟩
      else none := by
  induction pre generalizing done rest received with
  | nil => simp [transfers, sizes]
  | cons v pre ih =>
    have hlen : ∀ w : MyIovec, done.length + 1 = (done ++ [w]).length := fun w => by
      rw [List.length_append, List.length_singleton]
    have hset : ∀ w : MyIovec, (done ++ (v :: pre ++ post)).set done.length w =
        (done ++ [w]) ++ (pre ++ post) := fun w => by
      rw [List.set_append_right _ _ (Nat.le_refl _), Nat.sub_self, List.cons_append,
        List.set_cons_zero, List.append_assoc, List.singleton_append]
    have hall : (∀ k < (v :: pre).length, rd (done.length + k) ≠ none) ↔
        rd done.length ≠ none ∧ ∀ k < pre.length, rd (done.length + 1 + k) ≠ none :=
      forall_index_cons (rd · ≠ none) done.length v pre
    rw [transfers]
    by_cases hrd : rd done.length = none
    · rw [readBase_of_eq_none hrd, if_neg fun h => (hall.mp h).1 hrd]
      rfl
    · have hsplit : (sizes rd done.length (v :: pre)).splitLengths rest =
          rest.take (readSize (rd done.length) v.iov_len) ::
            (sizes rd (done.length + 1) pre).splitLengths
              (rest.drop (readSize (rd done.length) v.iov_len)) := by
        rw [sizes_cons, List.splitLengths, List.splitAt_eq]
      rw [readBase_of_ne_none hrd, Option.bind_some, hset, hlen, ih, ← hlen, hsplit, sizes_cons,
        List.sum_cons, ← List.drop_drop]
      simp only [hall, List.zipWith_cons_cons, List.append_assoc, List.nil_append,
        List.cons_append, ne_eq, hrd, not_false_iff, true_and]

theorem getElem?_splitLengths {α : Type*} (sz : List ℕ) (l : List α) (j : ℕ) :
    (sz.splitLengths l)[j]? = sz[j]?.map fun n => (l.drop (sz.take j).sum).take n := by
  induction sz generalizing l j with
  | nil => simp
  | cons n sz ih =>
    rw [List.splitLengths, List.splitAt_eq]
    cases j with
    | zero => simp
    | succ j => simp [ih, List.drop_drop]

/-- The pieces and what is behind them are the list. -/
theorem flatten_splitLengths_append_drop {α : Type*} (sz : List ℕ) (l : List α) :
    (sz.splitLengths l).flatten ++ l.drop sz.sum = l := by
  induction sz generalizing l with
  | nil => rfl
  | cons n sz ih =>
    rw [List.splitLengths, List.splitAt_eq, List.flatten_cons, List.sum_cons, ← List.drop_drop,
      List.append_assoc, ih, List.take_append_drop]

/-! ## Gaps -/

/-- If `myreadv` does not fail, every buffer begins with what was read into it, the bytes read are
the first ones of the stream, and a buffer receives data only if all buffers before it are full. -/
def ReadsInOrder (rd : ℕ → Option ℕ) (iov : List MyIovec) (stream : List UInt8) : Prop :=
  ∀ s, (∃ n, n ≠ -1 ∧ myreadv rd iov stream = .returned n s) →
    s.iov = List.zipWith MyIovec.store iov s.received ∧ s.received.flatten <+: stream ∧
      ∀ i j v, i < j → iov[i]? = some v → s.received.getD j [] ≠ [] →
        (s.received.getD i []).length = v.iov_len

/-- The call fails, or where a `read` is shorter than its buffer and is not the end of the stream,
only buffers of length zero follow. -/
def NoGap (rd : ℕ → Option ℕ) (iov : List MyIovec) (stream : List UInt8) : Prop :=
  HasNull iov ∨ (∃ k < iov.length, rd k = none) ∨
    ∀ i v, iov[i]? = some v → readSize (rd i) v.iov_len < v.iov_len →
      ((sizes rd 0 iov).take (i + 1)).sum < stream.length →
      ∀ j w, i < j → iov[j]? = some w → w.iov_len = 0

/-- A call that does not fail has read into every buffer. -/
theorem myreadv_eq_iff {rd : ℕ → Option ℕ} {iov : List MyIovec} {stream : List UInt8}
    {s : Reading} :
    (∃ n, n ≠ -1 ∧ myreadv rd iov stream = .returned n s) ↔
      ¬ HasNull iov ∧ (∀ k < iov.length, rd k ≠ none) ∧
        s = ⟨stream.drop (sizes rd 0 iov).sum,
          List.zipWith MyIovec.store iov ((sizes rd 0 iov).splitLengths stream),
          (sizes rd 0 iov).splitLengths stream⟩ := by
  have h := transfers_readBase rd iov [] [] stream []
  simp only [List.length_nil, List.nil_append, List.append_nil, Nat.zero_add] at h
  rw [myreadv, iovLoop_eq_of_ne_neg_one_iff, h, Option.ite_none_right_eq_some, Option.some.injEq,
    eq_comm (b := s)]

theorem getElem?_sizes (rd : ℕ → Option ℕ) (iov : List MyIovec) (j : ℕ) :
    (sizes rd 0 iov)[j]? = iov[j]?.map fun v => readSize (rd j) v.iov_len := by
  rw [sizes, List.getElem?_mapIdx]
  simp only [Nat.zero_add]

/-- What the call for an element delivers. -/
theorem getD_splitLengths_sizes {iov : List MyIovec} {j : ℕ} {v : MyIovec}
    (hv : iov[j]? = some v) (rd : ℕ → Option ℕ) (stream : List UInt8) :
    ((sizes rd 0 iov).splitLengths stream).getD j [] =
      (stream.drop ((sizes rd 0 iov).take j).sum).take (readSize (rd j) v.iov_len) := by
  rw [List.getD_eq_getElem?_getD, getElem?_splitLengths, getElem?_sizes, hv]
  rfl

theorem length_getD_splitLengths_sizes {iov : List MyIovec} {j : ℕ} {v : MyIovec}
    (hv : iov[j]? = some v) (rd : ℕ → Option ℕ) (stream : List UInt8) :
    (((sizes rd 0 iov).splitLengths stream).getD j []).length =
      min (readSize (rd j) v.iov_len) (stream.length - ((sizes rd 0 iov).take j).sum) := by
  rw [getD_splitLengths_sizes hv, List.length_take, List.length_drop]

/-- Behind the last element there is no call. -/
theorem getD_splitLengths_sizes_of_none {iov : List MyIovec} {j : ℕ} (hv : iov[j]? = none)
    (rd : ℕ → Option ℕ) (stream : List UInt8) :
    ((sizes rd 0 iov).splitLengths stream).getD j [] = [] := by
  rw [List.getD_eq_getElem?_getD, getElem?_splitLengths, getElem?_sizes, hv]
  rfl

theorem sum_take_sizes_succ {iov : List MyIovec} {j : ℕ} {v : MyIovec} (hv : iov[j]? = some v)
    (rd : ℕ → Option ℕ) :
    ((sizes rd 0 iov).take (j + 1)).sum =
      ((sizes rd 0 iov).take j).sum + readSize (rd j) v.iov_len := by
  rw [List.take_add_one, getElem?_sizes, hv, List.sum_append]
  rfl

theorem sum_take_le (sz : List ℕ) {i j : ℕ} (h : i ≤ j) : (sz.take i).sum ≤ (sz.take j).sum := by
  have hsplit := List.take_append_drop i (sz.take j)
  rw [List.take_take, Nat.min_eq_left h] at hsplit
  rw [← hsplit, List.sum_append]
  exact Nat.le_add_right _ _

/-- Elements of length zero take nothing from the stream. -/
theorem sum_take_eq_of_zero (rd : ℕ → Option ℕ) {iov : List MyIovec} {i j : ℕ} (hij : i ≤ j)
    (hzero : ∀ k, i ≤ k → k < j → ∀ w, iov[k]? = some w → w.iov_len = 0) :
    ((sizes rd 0 iov).take j).sum = ((sizes rd 0 iov).take i).sum := by
  induction j, hij using Nat.le_induction with
  | base => rfl
  | succ j hij ih =>
    have hj := ih fun k hk hkj => hzero k hk (Nat.lt_succ_of_lt hkj)
    cases hw : iov[j]? with
    | none =>
      have hlen : (sizes rd 0 iov).length ≤ j := by
        rw [← List.getElem?_eq_none_iff, getElem?_sizes, hw]
        rfl
      rw [← hj, List.take_of_length_le hlen, List.take_of_length_le (Nat.le_succ_of_le hlen)]
    | some w =>
      have hsize := readSize_le (rd j) w.iov_len
      have hlen := hzero j hij (Nat.lt_succ_self j) w hw
      rw [sum_take_sizes_succ hw, hj]
      omega

/-- **When the buffers are filled without gaps.**  For every stream, vector and pattern of short
reads: a call of `myreadv` that does not fail fills a buffer only if those before it are full
exactly if each `read` that is shorter than its buffer comes to the end of the stream, or only
buffers of length zero follow it. -/
theorem readsInOrder_iff (rd : ℕ → Option ℕ) (iov : List MyIovec) (stream : List UInt8) :
    ReadsInOrder rd iov stream ↔ NoGap rd iov stream := by
  constructor
  · intro h
    by_cases hnull : HasNull iov
    · exact Or.inl hnull
    by_cases hrd : ∀ k < iov.length, rd k ≠ none
    · refine Or.inr (Or.inr fun i v hv hshort hmore j w hij hw => ?_)
      obtain ⟨-, -, horder⟩ := h _ (myreadv_eq_iff.mpr ⟨hnull, hrd, rfl⟩)
      induction j using Nat.strongRecOn generalizing w with
      | _ j ih =>
        -- the buffers between the two are of length zero, so buffer `j` is the next one filled
        have hsum := sum_take_eq_of_zero rd (show i + 1 ≤ j from hij) fun k hk hkj w hw =>
          ih k hkj w hk hw
        by_contra hne
        have hj : j < iov.length := (List.getElem?_eq_some_iff.mp hw).1
        have hpos := (readSize_eq_zero_iff (hrd j hj)).not.mpr hne
        have hfull := horder i j v hij hv ?_
        · rw [length_getD_splitLengths_sizes hv] at hfull
          omega
        · rw [← List.length_pos_iff, length_getD_splitLengths_sizes hw, hsum]
          omega
    · simp only [not_forall, not_not] at hrd
      obtain ⟨k, hk, hnone⟩ := hrd
      exact Or.inr (Or.inl ⟨k, hk, hnone⟩)
  · intro h s hs
    obtain ⟨hnull, hrd, rfl⟩ := myreadv_eq_iff.mp hs
    refine ⟨rfl, ⟨_, flatten_splitLengths_append_drop _ _⟩, fun i j v hij hv hne => ?_⟩
    rcases h with h | ⟨k, hk, hnone⟩ | hgap
    · exact absurd h hnull
    · exact absurd hnone (hrd k hk)
    cases hw : iov[j]? with
    | none => exact absurd (getD_splitLengths_sizes_of_none hw rd stream) hne
    | some w =>
      have hpos := List.length_pos_iff.mpr hne
      rw [length_getD_splitLengths_sizes hw] at hpos
      have hle := sum_take_le (sizes rd 0 iov) (show i + 1 ≤ j from hij)
      have hstep := sum_take_sizes_succ hv rd
      have hsize := readSize_le (rd i) v.iov_len
      have hsize' := readSize_le (rd j) w.iov_len
      rw [length_getD_splitLengths_sizes hv]
      by_contra hshort
      have hzero := hgap i v hv (by omega) (by omega) j w hij hw
      omega

/-- Two buffers of two bytes, and a first `read` that returns one byte. -/
theorem not_readsInOrder : ¬ ∀ rd iov stream, ReadsInOrder rd iov stream := by
  intro h
  obtain ⟨-, -, horder⟩ := h (fun _ => some 0) [⟨2, some default⟩, ⟨2, some default⟩]
    [0x61, 0x62] _ ⟨2, by decide, rfl⟩
  exact absurd (horder 0 1 _ Nat.one_pos rfl (List.cons_ne_nil _ _)) (by decide)

/-! ## A result of -1 -/

/-- If `myreadv` returns -1, the stream and the buffers are as they were. -/
def ReadKept (rd : ℕ → Option ℕ) (iov : List MyIovec) (stream : List UInt8) : Prop :=
  ∀ s, myreadv rd iov stream = .returned (-1) s → s.rest = stream ∧ s.iov = iov

/-- There is no null pointer, or before it a `read` fails or all of them deliver nothing. -/
def ReadsNothing (rd : ℕ → Option ℕ) (iov : List MyIovec) (stream : List UInt8) : Prop :=
  ¬ HasNull iov ∨ (∃ k < (beforeNull iov).length, rd k = none) ∨ stream = [] ∨
    ∀ v ∈ beforeNull iov, v.iov_len = 0

/-- If `mywritev` returns -1, the file and its offset are as they were; it does not store into the
buffers. -/
def WriteKept (wr : ℕ → WriteResult) (iov : List MyIovec) (f : OpenFile) : Prop :=
  ∀ f', mywritev wr iov f = .returned (-1) f' → f' = f

/-- There is no null pointer, or before it a `write` fails or all of them write nothing. -/
def WritesNothing (wr : ℕ → WriteResult) (iov : List MyIovec) : Prop :=
  ¬ HasNull iov ∨ (∃ k < (beforeNull iov).length, wr k = .error) ∨
    ∀ k v, (beforeNull iov)[k]? = some v → wr k = .wrote 0 ∨ v.iov_len = 0

@[simp] theorem MyIovec.store_nil (v : MyIovec) : v.store [] = v := by
  obtain ⟨len, base⟩ := v
  cases base with
  | none => rfl
  | some buf => exact congrArg (fun b => MyIovec.mk len (some b)) buf.write_nil

theorem zipWith_store_of_nil {iov : List MyIovec} {ps : List (List UInt8)}
    (hlen : iov.length = ps.length) (h : ∀ p ∈ ps, p = []) :
    List.zipWith MyIovec.store iov ps = iov := by
  induction ps generalizing iov with
  | nil => rw [List.zipWith_nil_right, List.length_eq_zero_iff.mp hlen]
  | cons p ps ih =>
    cases iov with
    | nil => rfl
    | cons v iov =>
      rw [List.zipWith_cons_cons, h p List.mem_cons_self, MyIovec.store_nil,
        ih (Nat.succ.inj hlen) fun q hq => h q (List.mem_cons_of_mem _ hq)]

/-- Calls that do not fail deliver nothing exactly if they are asked for nothing. -/
theorem sum_sizes_eq_zero_iff {rd : ℕ → Option ℕ} {i : ℕ} {iov : List MyIovec}
    (hrd : ∀ k < iov.length, rd (i + k) ≠ none) :
    (sizes rd i iov).sum = 0 ↔ ∀ v ∈ iov, v.iov_len = 0 := by
  induction iov generalizing i with
  | nil => simp [sizes]
  | cons v iov ih =>
    obtain ⟨hzero, hsucc⟩ := (forall_index_cons (rd · ≠ none) i v iov).mp hrd
    rw [sizes_cons, List.sum_cons, Nat.add_eq_zero_iff, readSize_eq_zero_iff hzero, ih hsucc,
      List.forall_mem_cons]

/-- A call that returns -1 has read into the buffers before a null pointer. -/
theorem myreadv_eq_neg_one_iff {rd : ℕ → Option ℕ} {iov : List MyIovec} {stream : List UInt8}
    {s : Reading} :
    myreadv rd iov stream = .returned (-1) s ↔
      HasNull iov ∧ (∀ k < (beforeNull iov).length, rd k ≠ none) ∧
        s = ⟨stream.drop (sizes rd 0 (beforeNull iov)).sum,
          List.zipWith MyIovec.store (beforeNull iov)
            ((sizes rd 0 (beforeNull iov)).splitLengths stream) ++
              iov.dropWhile (·.iov_base.isSome),
          (sizes rd 0 (beforeNull iov)).splitLengths stream⟩ := by
  have h := transfers_readBase rd (beforeNull iov) [] (iov.dropWhile (·.iov_base.isSome)) stream []
  have hsplit : beforeNull iov ++ iov.dropWhile (·.iov_base.isSome) = iov :=
    List.takeWhile_append_dropWhile
  simp only [List.length_nil, List.nil_append, Nat.zero_add, hsplit] at h
  rw [myreadv, iovLoop_eq_neg_one_iff, h, Option.ite_none_right_eq_some, Option.some.injEq,
    eq_comm (b := s)]

/-- **When -1 means that `myreadv` has read nothing.**  For every vector, with null pointers at any
places: exactly if there is none, or before the first one a `read` fails, which ends the program, or
there is nothing to read or no buffer to read into. -/
theorem readKept_iff (rd : ℕ → Option ℕ) (iov : List MyIovec) (stream : List UInt8) :
    ReadKept rd iov stream ↔ ReadsNothing rd iov stream := by
  have hsplit : beforeNull iov ++ iov.dropWhile (·.iov_base.isSome) = iov :=
    List.takeWhile_append_dropWhile
  by_cases hnull : HasNull iov
  swap
  · exact iff_of_true (fun s hs => absurd (myreadv_eq_neg_one_iff.mp hs).1 hnull) (Or.inl hnull)
  by_cases hrd : ∀ k < (beforeNull iov).length, rd k ≠ none
  swap
  · refine iff_of_true (fun s hs => absurd (myreadv_eq_neg_one_iff.mp hs).2.1 hrd) ?_
    simp only [not_forall, not_not] at hrd
    obtain ⟨k, hk, hnone⟩ := hrd
    exact Or.inr (Or.inl ⟨k, hk, hnone⟩)
  have hsum : (sizes rd 0 (beforeNull iov)).sum = 0 ↔ ∀ v ∈ beforeNull iov, v.iov_len = 0 :=
    sum_sizes_eq_zero_iff fun k hk => by
      rw [Nat.zero_add]
      exact hrd k hk
  have hpieces := flatten_splitLengths_append_drop (sizes rd 0 (beforeNull iov)) stream
  constructor
  · intro h
    obtain ⟨hrest, -⟩ := h _ (myreadv_eq_neg_one_iff.mpr ⟨hnull, hrd, rfl⟩)
    have hlen := congrArg List.length hrest
    rw [List.length_drop] at hlen
    by_cases hnil : stream = []
    · exact Or.inr (Or.inr (Or.inl hnil))
    · have hpos := List.length_pos_iff.mpr hnil
      exact Or.inr (Or.inr (Or.inr (hsum.mp (by omega))))
  · intro h s hs
    obtain ⟨-, -, rfl⟩ := myreadv_eq_neg_one_iff.mp hs
    have hrest : stream.drop (sizes rd 0 (beforeNull iov)).sum = stream := by
      rcases h with h | ⟨k, hk, hnone⟩ | rfl | hlen
      · exact absurd hnull h
      · exact absurd hnone (hrd k hk)
      · exact List.drop_nil
      · rw [hsum.mpr hlen, List.drop_zero]
    refine ⟨hrest, ?_⟩
    -- what is left is the whole stream, so nothing was read into any buffer
    rw [hrest, List.append_left_eq_self, List.flatten_eq_nil_iff] at hpieces
    show List.zipWith MyIovec.store _ _ ++ _ = iov
    rw [zipWith_store_of_nil _ hpieces, hsplit]
    rw [List.length_splitLengths, sizes, List.length_mapIdx]

/-! ### Writing -/

/-- What a call of `write` puts into the file. -/
def piece (r : WriteResult) (v : MyIovec) : List UInt8 :=
  match v.iov_base, r with
  | some buf, .wrote count => buf.bytes.take count
  | _, _ => []

theorem piece_wrote {v : MyIovec} {buf : CharArray v.iov_len} (hbuf : v.iov_base = some buf)
    (count : ℕ) : piece (.wrote count) v = buf.bytes.take count := by
  simp only [piece, hbuf]

/-- What the calls of `write` put into the file. -/
def pieces (wr : ℕ → WriteResult) (i : ℕ) (iov : List MyIovec) : List (List UInt8) :=
  iov.mapIdx fun k v => piece (wr (i + k)) v

theorem pieces_cons (wr : ℕ → WriteResult) (i : ℕ) (v : MyIovec) (iov : List MyIovec) :
    pieces wr i (v :: iov) = piece (wr i) v :: pieces wr (i + 1) iov := by
  rw [pieces, List.mapIdx_cons, pieces]
  simp only [Nat.add_zero, Nat.add_assoc, Nat.add_comm 1]

/-- The transfers of `mywritev` are writes one after the other. -/
theorem transfers_writeBase (wr : ℕ → WriteResult) {i : ℕ} {pre : List MyIovec}
    (hbase : ¬ HasNull pre) (f : OpenFile) :
    transfers (writeBase wr) i pre f =
      if ∀ k < pre.length, wr (i + k) ≠ .error then some ((pieces wr i pre).foldl .write f)
      else none := by
  induction pre generalizing i f with
  | nil => simp [transfers, pieces]
  | cons v pre ih =>
    have hcons := forall_index_cons (wr · ≠ .error) i v pre
    have hv : v.iov_base ≠ none := fun h => hbase ⟨v, List.mem_cons_self, h⟩
    have hpre : ¬ HasNull pre := fun ⟨w, hw, h⟩ => hbase ⟨w, List.mem_cons_of_mem _ hw, h⟩
    obtain ⟨buf, hbuf⟩ := Option.ne_none_iff_exists'.mp hv
    rw [transfers, writeBase, hbuf, Option.bind_some, pieces_cons]
    cases hwr : wr i with
    | error =>
      rw [if_neg fun h => (hcons.mp h).1 hwr]
      rfl
    | wrote count =>
      rw [writeBytes, Option.map_some, Option.bind_some, ih hpre, List.foldl_cons,
        piece_wrote hbuf]
      simp only [hcons, hwr, ne_eq, reduceCtorEq, not_false_iff, true_and]

theorem piece_eq_nil_iff {r : WriteResult} {v : MyIovec} (hr : r ≠ .error)
    (hv : v.iov_base ≠ none) : piece r v = [] ↔ r = .wrote 0 ∨ v.iov_len = 0 := by
  obtain ⟨buf, hbuf⟩ := Option.ne_none_iff_exists'.mp hv
  cases r with
  | error => exact absurd rfl hr
  | wrote count =>
    rw [piece_wrote hbuf, List.take_eq_nil_iff, WriteResult.wrote.injEq, ← List.length_eq_zero_iff,
      buf.length_bytes]

/-- Nothing is written exactly if each `write` is asked for nothing or returns zero. -/
theorem forall_pieces_eq_nil_iff {wr : ℕ → WriteResult} {iov : List MyIovec}
    (hbase : ¬ HasNull iov) (hwr : ∀ k < iov.length, wr k ≠ .error) :
    (∀ p ∈ pieces wr 0 iov, p = []) ↔
      ∀ k v, iov[k]? = some v → wr k = .wrote 0 ∨ v.iov_len = 0 := by
  have hpiece : ∀ k v, iov[k]? = some v →
      (piece (wr k) v = [] ↔ wr k = .wrote 0 ∨ v.iov_len = 0) := fun k v hv =>
    piece_eq_nil_iff (hwr k (List.getElem?_eq_some_iff.mp hv).1) fun h =>
      hbase ⟨v, List.mem_of_getElem? hv, h⟩
  have hget : ∀ k, (pieces wr 0 iov)[k]? = iov[k]?.map fun v => piece (wr k) v := fun k => by
    rw [pieces, List.getElem?_mapIdx]
    simp only [Nat.zero_add]
  constructor
  · intro h k v hv
    refine (hpiece k v hv).mp (h _ (List.mem_of_getElem? (i := k) ?_))
    rw [hget, hv]
    rfl
  · intro h p hp
    obtain ⟨k, hk⟩ := List.mem_iff_getElem?.mp hp
    rw [hget, Option.map_eq_some_iff] at hk
    obtain ⟨v, hv, rfl⟩ := hk
    exact (hpiece k v hv).mpr (h k v hv)

theorem not_hasNull_beforeNull (iov : List MyIovec) : ¬ HasNull (beforeNull iov) := by
  rintro ⟨v, hv, hnone⟩
  have hsome := List.mem_takeWhile_imp hv
  rw [hnone] at hsome
  cases hsome

/-- A call that returns -1 has written the buffers before a null pointer. -/
theorem mywritev_eq_neg_one_iff {wr : ℕ → WriteResult} {iov : List MyIovec} {f f' : OpenFile} :
    mywritev wr iov f = .returned (-1) f' ↔
      HasNull iov ∧ (∀ k < (beforeNull iov).length, wr k ≠ .error) ∧
        (pieces wr 0 (beforeNull iov)).foldl .write f = f' := by
  rw [mywritev, iovLoop_eq_neg_one_iff, transfers_writeBase wr (not_hasNull_beforeNull iov),
    Option.ite_none_right_eq_some, Option.some.injEq]
  simp only [Nat.zero_add]

/-- **When -1 means that `mywritev` has written nothing.**  For every vector, with null pointers at
any places: exactly if there is none, or before the first one a `write` fails, which ends the
program, or every `write` is asked for nothing or returns zero. -/
theorem writeKept_iff (wr : ℕ → WriteResult) (iov : List MyIovec) (f : OpenFile) :
    WriteKept wr iov f ↔ WritesNothing wr iov := by
  by_cases hnull : HasNull iov
  swap
  · exact iff_of_true (fun s hs => absurd (mywritev_eq_neg_one_iff.mp hs).1 hnull) (Or.inl hnull)
  by_cases hwr : ∀ k < (beforeNull iov).length, wr k ≠ .error
  swap
  · refine iff_of_true (fun s hs => absurd (mywritev_eq_neg_one_iff.mp hs).2.1 hwr) ?_
    simp only [not_forall, not_not] at hwr
    obtain ⟨k, hk, herror⟩ := hwr
    exact Or.inr (Or.inl ⟨k, hk, herror⟩)
  have hall := forall_pieces_eq_nil_iff (not_hasNull_beforeNull iov) hwr
  constructor
  · intro h
    have hself := h _ (mywritev_eq_neg_one_iff.mpr ⟨hnull, hwr, rfl⟩)
    exact Or.inr (Or.inr (hall.mp (OpenFile.foldl_write_eq_self_iff.mp hself)))
  · intro h f' hf'
    obtain ⟨-, -, rfl⟩ := mywritev_eq_neg_one_iff.mp hf'
    rcases h with h | ⟨k, hk, herror⟩ | hnothing
    · exact absurd hnull h
    · exact absurd herror (hwr k hk)
    · exact OpenFile.foldl_write_eq_self_iff.mpr (hall.mpr hnothing)

/-- **When -1 means that nothing was transferred**, for both functions. -/
theorem kept_iff (rd : ℕ → Option ℕ) (wr : ℕ → WriteResult) (iov : List MyIovec)
    (stream : List UInt8) (f : OpenFile) :
    (ReadKept rd iov stream ↔ ReadsNothing rd iov stream) ∧
      (WriteKept wr iov f ↔ WritesNothing wr iov) :=
  ⟨readKept_iff rd iov stream, writeKept_iff wr iov f⟩

/-- A buffer of one byte and a null pointer behind it. -/
theorem not_kept : ¬ ∀ (rd : ℕ → Option ℕ) (wr : ℕ → WriteResult) (iov : List MyIovec)
    (stream : List UInt8) (f : OpenFile), ReadKept rd iov stream ∧ WriteKept wr iov f := by
  intro h
  have hkept := h (fun _ => some 0) (fun _ => .wrote 1) [⟨1, some default⟩, ⟨0, none⟩] [0x61]
    (OpenFile.opened [])
  exact absurd (hkept.1 _ rfl).1 (List.cons_ne_nil _ _).symm

end ScatterIo
end CodeStrudy
