import CodeStrudy.Foundation.Machine
import CodeStrudy.GetNum.GetInt
import Mathlib.Order.Interval.Finset.Nat

/-!
# Quarter seconds by sampling

`practice/35.3`: `delay3s` reads the CPU time that the process has used, in clock ticks, again and
again, and counts a quarter second whenever a new total is a multiple of `timebase`.  It is the
scheduler that decides which totals are read.  A multiple that lies between two samples is not
counted.

A label is the total of the next sample.

## What is proved

`sampled_throughout_iff`: the count is right after every sample exactly if no sample jumps over a
multiple.
-/

namespace CodeStrudy
namespace Delay3s

open Foundation GetNum

/-- `sysconf(_SC_CLK_TCK)` in an `int`, divided by four. -/
def timebase (rate : ℤ) : ℤ := (Flags.intOfLong rate).tdiv 4

/-- The variables of the loop, with the total that was read last. -/
structure State where
  total : ℕ
  oldTimes : ℤ
  count : ℕ
  /-- The loop has been left. -/
  ended : Bool
  /-- There was a division by zero. -/
  faulted : Bool
  deriving DecidableEq

def initial : State := ⟨0, 0, 0, false, false⟩

/-- The body of the loop when the sum of `tms_stime` and `tms_utime` is `times`. -/
def sample (rate : ℤ) (s : State) (times : ℕ) : State :=
  if (times : ℤ) ≠ s.oldTimes then
    if timebase rate = 0 then
      { s with total := times, oldTimes := Flags.intOfLong times, faulted := true }
    else if (times : ℤ).tmod (timebase rate) = 0 then
      { s with
        total := times
        oldTimes := Flags.intOfLong times
        count := s.count + 1
        ended := s.count + 1 == 12 }
    else { s with total := times, oldTimes := Flags.intOfLong times }
  else { s with total := times }

/-- The CPU time that has been used does not go down. -/
def machine (rate : ℤ) : Machine State ℕ where
  init s := s = initial
  step s times :=
    if s.ended = false ∧ s.faulted = false ∧ s.total ≤ times then some (sample rate s times)
    else none

/-- The number of multiples of `timebase` from one to the total. -/
def quarters (rate : ℤ) (total : ℕ) : ℕ :=
  ((Finset.Ioc 0 total).filter fun m : ℕ => timebase rate ∣ m).card

/-- The count is the number of quarter seconds that have been used, and the loop is left when these
are twelve. -/
structure Counted (rate : ℤ) (s : State) : Prop where
  count : s.count = quarters rate s.total
  ended : s.ended = true ↔ 12 ≤ quarters rate s.total
  faulted : s.faulted = false

/-- The sample is the last one again, and it fits into an `int`; or no multiple is between the last
one and it, and it is not a multiple that has been counted. -/
def Lands (rate : ℤ) (s : State) (times : ℕ) : Prop :=
  (times = s.total ∧ (times : ℤ) ≤ Flags.INT_MAX) ∨
    (timebase rate ≠ 0 ∧ (∀ m : ℕ, s.total < m → m < times → ¬ timebase rate ∣ m) ∧
      (times = s.total → ¬ timebase rate ∣ times))

/-! ## Counting multiples -/

variable {rate : ℤ} {s t : State} {times : ℕ}

/-- A multiple is counted once when it is reached, together with those that are passed. -/
theorem quarters_of_lt {total : ℕ} (h : total < times) :
    quarters rate times = quarters rate total +
      ((Finset.Ioo total times).filter fun m : ℕ => timebase rate ∣ m).card +
      if timebase rate ∣ times then 1 else 0 := by
  have hunion : Finset.Ioc 0 times = Finset.Ioc 0 total ∪ Finset.Ioc total times :=
    (Finset.Ioc_union_Ioc_eq_Ioc (Nat.zero_le total) h.le).symm
  have hdisjoint : Disjoint (Finset.Ioc 0 total) (Finset.Ioc total times) :=
    Finset.Ioc_disjoint_Ioc_of_le le_rfl
  have hnotMem : times ∉ Finset.Ioo total times := fun hmem =>
    absurd (Finset.mem_Ioo.mp hmem).2 (lt_irrefl _)
  unfold quarters
  rw [hunion, Finset.filter_union, Finset.card_union_of_disjoint
    (Finset.disjoint_filter_filter hdisjoint), ← Finset.Ioo_insert_right h, Finset.filter_insert,
    add_assoc]
  split_ifs with hdvd
  · rw [Finset.card_insert_of_notMem fun hmem => hnotMem (Finset.mem_of_mem_filter _ hmem)]
  · rw [add_zero]

/-- The count goes up by as many as there are if none is passed. -/
theorem quarters_step_iff {total : ℕ} (h : total ≤ times) :
    (quarters rate total + if timebase rate ∣ times then 1 else 0) = quarters rate times ↔
      (∀ m : ℕ, total < m → m < times → ¬ timebase rate ∣ m) ∧
        (times = total → ¬ timebase rate ∣ times) := by
  rcases h.eq_or_lt with rfl | hlt
  · constructor
    · intro heq
      refine ⟨fun m hm hm' => absurd (hm.trans hm') (lt_irrefl _), fun _ hdvd => ?_⟩
      rw [if_pos hdvd] at heq
      omega
    · rintro ⟨-, hnot⟩
      rw [if_neg (hnot rfl), add_zero]
  · rw [quarters_of_lt hlt]
    have hpassed : ((Finset.Ioo total times).filter fun m : ℕ => timebase rate ∣ m).card = 0 ↔
        ∀ m : ℕ, total < m → m < times → ¬ timebase rate ∣ m := by
      rw [Finset.card_eq_zero, Finset.filter_eq_empty_iff]
      exact forall_congr' fun m => by rw [Finset.mem_Ioo, and_imp]
    rw [← hpassed, and_iff_left fun heq => absurd heq hlt.ne']
    omega

/-! ## The loop -/

/-- `oldTimes` is the last total in an `int`, and the loop is left at twelve. -/
structure Inv (s : State) : Prop where
  oldTimes : s.oldTimes = Flags.intOfLong s.total
  count : s.count ≤ 12
  ended : s.ended = true ↔ s.count = 12

theorem Inv.initial : Inv initial := ⟨by decide, by decide, by decide⟩

theorem counted_iff (hs : Inv s) :
    Counted rate s ↔ s.count = quarters rate s.total ∧ s.faulted = false := by
  refine ⟨fun h => ⟨h.count, h.faulted⟩, fun h => ⟨h.1, ?_, h.2⟩⟩
  have hle := hs.count
  rw [hs.ended, ← h.1]
  omega

theorem intOfLong_le (n : ℕ) : Flags.intOfLong n ≤ n := by
  rw [Flags.intOfLong, BitVec.toInt_ofInt, Int.bmod]
  split <;> omega

/-- A sample is the old total exactly if it is the last one again and fits into an `int`. -/
theorem eq_oldTimes_iff (hs : Inv s) (h : s.total ≤ times) :
    (times : ℤ) = s.oldTimes ↔ times = s.total ∧ (times : ℤ) ≤ Flags.INT_MAX := by
  rw [hs.oldTimes]
  constructor
  · intro heq
    have hle := intOfLong_le s.total
    have hmax := (Flags.intOfLong_mem s.total).2
    exact ⟨by omega, by omega⟩
  · rintro ⟨rfl, hmax⟩
    refine (Flags.intOfLong_of_mem ⟨?_, hmax⟩).symm
    unfold Flags.INT_MIN
    omega

/-- What a sample does. -/
theorem sample_cases (rate : ℤ) (s : State) (times : ℕ) :
    ((times : ℤ) = s.oldTimes ∧ sample rate s times = { s with total := times }) ∨
      ((times : ℤ) ≠ s.oldTimes ∧ (sample rate s times).total = times ∧
        (sample rate s times).oldTimes = Flags.intOfLong times ∧
        ((timebase rate = 0 ∧ (sample rate s times).faulted = true ∧
            (sample rate s times).count = s.count ∧ (sample rate s times).ended = s.ended) ∨
          (timebase rate ≠ 0 ∧ (sample rate s times).faulted = s.faulted ∧
            (sample rate s times).count =
              s.count + (if timebase rate ∣ times then 1 else 0) ∧
            (sample rate s times).ended =
              if timebase rate ∣ times then s.count + 1 == 12 else s.ended))) := by
  unfold sample
  simp only [← Int.dvd_iff_tmod_eq_zero]
  by_cases hold : (times : ℤ) = s.oldTimes
  · exact .inl ⟨hold, if_neg (not_not_intro hold)⟩
  · refine .inr ⟨hold, ?_⟩
    rw [if_pos hold]
    by_cases hzero : timebase rate = 0
    · rw [if_pos hzero]
      exact ⟨rfl, rfl, .inl ⟨hzero, rfl, rfl, rfl⟩⟩
    · rw [if_neg hzero]
      by_cases hdvd : timebase rate ∣ times
      · rw [if_pos hdvd, if_pos hdvd, if_pos hdvd]
        exact ⟨rfl, rfl, .inr ⟨hzero, rfl, rfl, rfl⟩⟩
      · rw [if_neg hdvd, if_neg hdvd, if_neg hdvd]
        exact ⟨rfl, rfl, .inr ⟨hzero, rfl, rfl, rfl⟩⟩

/-- What a step is. -/
theorem of_step (h : (machine rate).step s times = some t) :
    s.ended = false ∧ s.faulted = false ∧ s.total ≤ times ∧ t = sample rate s times := by
  obtain ⟨hgo, ht⟩ := Option.ite_none_right_eq_some.mp h
  exact ⟨hgo.1, hgo.2.1, hgo.2.2, (Option.some.inj ht).symm⟩

theorem Inv.step (hs : Inv s) (h : (machine rate).step s times = some t) : Inv t := by
  obtain ⟨hended, -, hle, rfl⟩ := of_step h
  have hcount : s.count ≠ 12 := fun heq => by
    rw [hs.ended.mpr heq] at hended
    cases hended
  have hlt := hs.count
  rcases sample_cases rate s times with ⟨hold, hsample⟩ | ⟨-, htotal, hold, hcases⟩
  · obtain ⟨rfl, -⟩ := (eq_oldTimes_iff hs hle).mp hold
    rw [hsample]
    exact hs
  · rcases hcases with ⟨-, -, hcount', hended'⟩ | ⟨-, -, hcount', hended'⟩
    · refine ⟨by rw [hold, htotal], hcount'.symm ▸ hlt, ?_⟩
      rw [hended', hcount']
      exact hs.ended
    · refine ⟨by rw [hold, htotal], ?_, ?_⟩
      · rw [hcount']
        split_ifs <;> omega
      · rw [hended', hcount']
        split_ifs
        · exact beq_iff_eq
        · exact hs.ended

/-- A sample leaves the count right exactly if it meets the condition. -/
theorem counted_step_iff (hs : Inv s) (hcounted : Counted rate s)
    (h : (machine rate).step s times = some t) : Counted rate t ↔ Lands rate s times := by
  rw [counted_iff (hs.step h)]
  obtain ⟨-, hfaulted, hle, rfl⟩ := of_step h
  have hold := eq_oldTimes_iff hs hle
  rcases sample_cases rate s times with ⟨heq, hsample⟩ | ⟨hne, htotal, -, hcases⟩
  · -- the last total again
    obtain ⟨rfl, hmax⟩ := hold.mp heq
    rw [hsample]
    exact iff_of_true ⟨hcounted.count, hfaulted⟩ (.inl ⟨rfl, hmax⟩)
  · have hnew : Lands rate s times ↔ timebase rate ≠ 0 ∧
        (∀ m : ℕ, s.total < m → m < times → ¬ timebase rate ∣ m) ∧
          (times = s.total → ¬ timebase rate ∣ times) := or_iff_right fun h => hne (hold.mpr h)
    rw [hnew]
    rcases hcases with ⟨hzero, hfault, -⟩ | ⟨hzero, hfault, hcount, -⟩
    · refine iff_of_false (fun h => ?_) fun h => h.1 hzero
      rw [hfault] at h
      cases h.2
    · rw [hfault, hcount, htotal, hcounted.count, quarters_step_iff hle, and_iff_left hfaulted,
        and_iff_right hzero]

/-- **Counting by samples.**  The count is right after every sample, and the loop is left with the
first one at which twelve quarter seconds have been used, exactly if no sample jumps over a multiple
of `timebase`, and each total that is read again fits into an `int` or is no multiple. -/
theorem sampled_throughout_iff (rate : ℤ) (samples : List ℕ) :
    (machine rate).Throughout (Counted rate) initial samples ↔
      (machine rate).Respects (Lands rate) initial samples := by
  refine Machine.throughout_iff_respects (I := Inv) (fun _ _ _ => Inv.step)
    (fun _ _ _ => counted_step_iff) samples Inv.initial ?_
  refine (counted_iff Inv.initial).mpr ⟨?_, rfl⟩
  rfl

/-- A hundred ticks a second, and a first sample at 26 of them. -/
theorem not_sampled : ¬ ∀ (rate : ℤ) (samples : List ℕ), 4 ≤ rate →
    (machine rate).Throughout (Counted rate) initial samples := by
  intro h
  have hcount := ((h 100 [26] (by decide)).2 _ rfl).head.count
  revert hcount
  decide

end Delay3s
end CodeStrudy
