import CodeStrudy.InotifyTree.WatchTable

/-!
# A name added and removed

A name is put into the first free slot of the table of watches, and the function that removes a name
is called on that slot.  The removal frees the name of the slot it is called on, clears the first
slot, and takes away the watch of the slot whose number is the count.

## What is proved

* `wdName_remove_add_iff`, `watches_remove_add_iff`: when the slots and when the watches are what
  they were before.
* `remove_undoes_add_iff`: when the removal undoes the addition.
* `not_undone_of_reachable`: for a file that is not watched it never does, as long as the slot the
  watch is taken from is in the table.
-/

namespace CodeStrudy
namespace InotifyTree

open Foundation

variable {ω : Type*} [DecidableEq ω]

/-- The table, the count and the set of watches are what they were before the name was added and
removed. -/
def Undone (s : WatchTable ω) (filename : Path) (type : ℕ) (object : ω) : Prop :=
  ∀ t, s.add filename type (some object) = some t →
    (t.remove (freeSlot s.wdName)).wdName = s.wdName ∧
      (t.remove (freeSlot s.wdName)).wdNameCount = s.wdNameCount ∧
      ∀ w, w ∈ (t.remove (freeSlot s.wdName)).kernel.watches ↔ w ∈ s.kernel.watches

/-- The descriptor in the slot whose number is the count after the addition, if the first slot is
the one that is filled. -/
def WatchTable.takenWd (s : WatchTable ω) (object : ω) : ℤ :=
  if s.wdNameCount = -1 then (s.kernel.inotifyAddWatch object).1
  else if 0 ≤ s.wdNameCount then (s.wdName (s.wdNameCount + 1).toNat).wd
  else 0

/-- That descriptor is the one of the new watch, or, if the object was watched before, of none. -/
def TakesBack (s : WatchTable ω) (object : ω) : Prop :=
  (s.kernel.wdOf object = none ∧ s.takenWd object = s.kernel.nextWd) ∨
    (s.kernel.wdOf object ≠ none ∧ ∀ w ∈ s.kernel.watches, w.1 ≠ s.takenWd object)

variable {s t : WatchTable ω} {filename : Path} {type : ℕ} {object : ω} {wd : ℤ}

omit [DecidableEq ω] in
/-- The name of another slot than the first stays there when it is freed. -/
theorem wdName_remove_add_iff {k : ℕ} {w : WdName} (hfree : (s.wdName k).name = .null)
    (ht : t.wdName = Function.update s.wdName k w) :
    (t.remove k).wdName = s.wdName ↔ k = 0 ∧ s.wdName 0 = .zero := by
  have hremove : (t.remove k).wdName =
      Function.update (Function.update t.wdName k { t.wdName k with name := .freed }) 0 .zero := rfl
  constructor
  · intro h
    have hzero : k = 0 := by
      by_contra hne
      have hslot := congrFun h k
      rw [hremove, Function.update_of_ne hne, Function.update_self] at hslot
      rw [← hslot] at hfree
      cases hfree
    have hfirst := congrFun h 0
    rw [hremove, Function.update_self] at hfirst
    exact ⟨hzero, hfirst.symm⟩
  · rintro ⟨rfl, hzero⟩
    rw [hremove, ht, Function.update_idem, Function.update_idem, ← hzero, Function.update_eq_self]

/-- The watches are what they were if the one that is taken away is the new one, or if there is no
new one and none is taken away. -/
theorem watches_remove_add_iff (k : Watches ω) (hkernel : ∀ w ∈ k.watches, w.1 ≠ k.nextWd) :
    (∀ w, w ∈ (((k.inotifyAddWatch object).2).inotifyRmWatch wd).watches ↔ w ∈ k.watches) ↔
      (k.wdOf object = none ∧ wd = k.nextWd) ∨
        (k.wdOf object ≠ none ∧ ∀ w ∈ k.watches, w.1 ≠ wd) := by
  have hmem : ∀ k' : Watches ω, ∀ w,
      w ∈ (k'.inotifyRmWatch wd).watches ↔ w ∈ k'.watches ∧ w.1 ≠ wd := fun k' w => by
    rw [Watches.inotifyRmWatch, List.mem_filter, decide_eq_true_iff]
  rcases k.inotifyAddWatch_cases object with ⟨old, hold, hadd⟩ | ⟨hnone, hadd⟩
  · -- no new watch
    rw [hadd, hold]
    simp only [hmem, and_iff_left_iff_imp, reduceCtorEq, false_and, false_or, ne_eq,
      not_false_eq_true, true_and]
  · rw [hadd, hnone]
    simp only [hmem, List.mem_cons, true_and, ne_eq, not_true_eq_false, false_and, or_false]
    constructor
    · intro h
      by_contra hne
      exact hkernel _ ((h (k.nextWd, object)).mp ⟨.inl rfl, Ne.symm hne⟩) rfl
    · rintro rfl w
      constructor
      · rintro ⟨rfl | hw, hwd⟩
        · exact absurd rfl hwd
        · exact hw
      · exact fun hw => ⟨.inr hw, hkernel w hw⟩

/-- The removal reads the descriptor behind the count. -/
theorem wd_read_eq (hadd : s.add filename type (some object) = some t)
    (hfirst : freeSlot s.wdName = 0) :
    (if 0 ≤ t.wdNameCount then (t.wdName t.wdNameCount.toNat).wd else 0) = s.takenWd object := by
  obtain ⟨o, ho, hwdName, hcount, -⟩ := of_add hadd
  obtain rfl := Option.some.inj ho
  rw [hfirst] at hwdName
  rw [WatchTable.takenWd, hcount]
  by_cases hminus : s.wdNameCount = -1
  · rw [if_pos hminus, if_pos (by omega), hminus]
    show (t.wdName 0).wd = _
    rw [hwdName, Function.update_self]
  · rw [if_neg hminus]
    by_cases hpos : 0 ≤ s.wdNameCount
    · rw [if_pos hpos, if_pos (by omega), hwdName, Function.update_of_ne (by omega)]
    · rw [if_neg hpos, if_neg (by omega)]

/-- A first slot that is zero is the one that is found. -/
theorem freeSlot_eq_zero {f : ℕ → WdName} (h : f 0 = .zero) : freeSlot f = 0 := by
  by_contra hne
  have hnull : (f 0).name = .null := by
    rw [h]
    rfl
  exact (freeSlot_spec f).2 0 (Nat.pos_of_ne_zero hne) (by decide) hnull

/-- What is left of the kernel's watches. -/
theorem kernel_remove_add (hadd : s.add filename type (some object) = some t)
    (hfirst : freeSlot s.wdName = 0) : (t.remove (freeSlot s.wdName)).kernel =
      (s.kernel.inotifyAddWatch object).2.inotifyRmWatch (s.takenWd object) := by
  obtain ⟨o, ho, -, -, hkernel⟩ := of_add hadd
  obtain rfl := Option.some.inj ho
  rw [← wd_read_eq hadd hfirst, ← hkernel]
  rfl

/-- What is undone: the slots, and the watches; the count is what it was anyway. -/
theorem undone_iff (hadd : s.add filename type (some object) = some t) :
    Undone s filename type object ↔
      (t.remove (freeSlot s.wdName)).wdName = s.wdName ∧
        ∀ w, w ∈ (t.remove (freeSlot s.wdName)).kernel.watches ↔ w ∈ s.kernel.watches := by
  obtain ⟨_, -, -, hcount, -⟩ := of_add hadd
  have hcount' : (t.remove (freeSlot s.wdName)).wdNameCount = s.wdNameCount := by
    show t.wdNameCount - 1 = _
    omega
  constructor
  · exact fun h => ⟨(h t hadd).1, (h t hadd).2.2⟩
  · intro h t' ht'
    obtain rfl := Option.some.inj (hadd.symm.trans ht')
    exact ⟨h.1, hcount', h.2⟩

theorem Undone.takesBack (h : Undone s filename type object)
    (hfree : ∃ i < WDNAMENUM, (s.wdName i).name = .null)
    (hkernel : ∀ w ∈ s.kernel.watches, w.1 ≠ s.kernel.nextWd) :
    s.wdName 0 = .zero ∧ TakesBack s object := by
  obtain ⟨t, hadd⟩ : ∃ t, s.add filename type (some object) = some t := ⟨_, rfl⟩
  obtain ⟨_, -, hwdName, -, -⟩ := of_add hadd
  obtain ⟨hslots, hwatches⟩ := (undone_iff hadd).mp h
  have hslot := (freeSlot_spec s.wdName).1 ((freeSlot_lt_iff _).mpr hfree)
  obtain ⟨hfirst, hzero⟩ := (wdName_remove_add_iff hslot hwdName).mp hslots
  rw [kernel_remove_add hadd hfirst] at hwatches
  exact ⟨hzero, (watches_remove_add_iff s.kernel hkernel).mp hwatches⟩

/-- **A removal undoes the addition before it** exactly if the first slot was zero, and the watch
that is taken away is the new one.  The kernel gives new descriptors. -/
theorem remove_undoes_add_iff (s : WatchTable ω) (filename : Path) (type : ℕ) (object : ω)
    (hfree : ∃ i < WDNAMENUM, (s.wdName i).name = .null)
    (hkernel : ∀ w ∈ s.kernel.watches, w.1 ≠ s.kernel.nextWd) :
    Undone s filename type object ↔ s.wdName 0 = .zero ∧ TakesBack s object := by
  constructor
  · exact fun h => h.takesBack hfree hkernel
  · rintro ⟨hzero, hback⟩
    obtain ⟨t, hadd⟩ : ∃ t, s.add filename type (some object) = some t := ⟨_, rfl⟩
    obtain ⟨_, -, hwdName, -, -⟩ := of_add hadd
    have hfirst := freeSlot_eq_zero hzero
    have hslot := (freeSlot_spec s.wdName).1 ((freeSlot_lt_iff _).mpr hfree)
    refine (undone_iff hadd).mpr ⟨(wdName_remove_add_iff hslot hwdName).mpr ⟨hfirst, hzero⟩, ?_⟩
    rw [kernel_remove_add hadd hfirst]
    exact (watches_remove_add_iff s.kernel hkernel).mpr hback

/-- With the first slot free and all others in use, the descriptor is read behind the table. -/
theorem remove_undoes_add_last_slot :
    Undone ⟨fun i => if i = 0 then .zero else ⟨i, .str ['a'], 2, typeFile⟩, 99, ⟨[], 100⟩⟩
      ['b'] typeFile 100 :=
  (remove_undoes_add_iff _ _ _ _ ⟨0, by decide, rfl⟩ fun _ hw => absurd hw List.not_mem_nil).mpr
    ⟨rfl, .inl ⟨rfl, by decide⟩⟩

/-- The first name of all: its watch stays. -/
theorem not_remove_undoes_add : ¬ ∀ (s : WatchTable ℕ) (filename : Path) (type object : ℕ),
    (∃ i < WDNAMENUM, (s.wdName i).name = .null) →
    (∀ w ∈ s.kernel.watches, w.1 ≠ s.kernel.nextWd) → s.kernel.wdOf object = none →
      Undone s filename type object := by
  intro h
  have hundone := h .clear ['a'] typeFile 7 ⟨0, by decide, rfl⟩
    (fun _ hw => absurd hw List.not_mem_nil) rfl
  obtain ⟨-, -, hwatches⟩ := hundone _ rfl
  exact absurd ((hwatches (1, 7)).mp (by decide)) List.not_mem_nil

/-- If the descriptor is read in the table, it is one that was given before, and the new watch
stays. -/
theorem not_undone_of_issued (hs : Issued s) (hfree : ∃ i < WDNAMENUM, (s.wdName i).name = .null)
    (hnew : s.kernel.wdOf object = none) (hcount : 0 ≤ s.wdNameCount)
    (hbelow : s.wdNameCount + 1 < WDNAMENUM) : ¬ Undone s filename type object := by
  intro h
  obtain ⟨-, ⟨-, htaken⟩ | ⟨hold, -⟩⟩ := h.takesBack hfree fun w hw => (hs.watch w hw).ne
  · rw [WatchTable.takenWd, if_neg (by omega), if_pos hcount] at htaken
    exact absurd htaken (hs.slot _ (by omega)).ne
  · exact hold hnew

/-- **No table that the calls lead to** is restored, as long as the descriptor is read in it. -/
theorem not_undone_of_reachable (hs : watchTable.Reachable s)
    (hfree : ∃ i < WDNAMENUM, (s.wdName i).name = .null) (hnew : s.kernel.wdOf object = none)
    (hcount : 0 ≤ s.wdNameCount) (hbelow : s.wdNameCount + 1 < WDNAMENUM) :
    ¬ Undone s filename type object := by
  have hissued : Issued s :=
    Machine.Reachable.invariant (fun _ hinit => hinit ▸ Issued.clear)
      (fun _ _ _ => Issued.step) hs
  exact not_undone_of_issued hissued hfree hnew hcount hbelow

end InotifyTree
end CodeStrudy
