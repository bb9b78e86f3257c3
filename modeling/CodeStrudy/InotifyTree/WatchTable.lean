import CodeStrudy.InotifyTree.Monitor
import Mathlib.Data.Finset.Card

/-!
# The table of watches

`wdName` by itself: the two functions that fill a slot and clear one, called in any order.  A watch
is on an object, and two names may be names of one object; `inotify_add_watch` then returns the
descriptor of the watch that is there already, and a second slot gets it.  The search for a free
slot may find none, and clearing goes to the first slot whichever was given up.

The monitor's own calls are among those here: `table_addInodityForEntry` and
`table_removeInodityForEntry` say so, with paths as the objects.

## What is proved

`consistent_throughout_iff`: the count, the slots and the names agree throughout a sequence of calls
exactly if each call that adds has a free slot and an object whose watch is in no slot, and each one
that removes is about the first slot.
-/

namespace CodeStrudy
namespace InotifyTree

open Foundation

/-! ## The kernel's watches -/

section

variable {ω : Type*} [DecidableEq ω]

/-- The watches of an inotify instance by descriptor, and the next new descriptor. -/
structure Watches (ω : Type*) where
  watches : List (ℤ × ω)
  nextWd : ℤ

/-- The descriptor of the watch on an object. -/
def Watches.wdOf (k : Watches ω) (object : ω) : Option ℤ :=
  (k.watches.find? fun w => w.2 = object).map Prod.fst

/-- `inotify_add_watch` on an object: the descriptor of the watch that is there already, or a new
one. -/
def Watches.inotifyAddWatch (k : Watches ω) (object : ω) : ℤ × Watches ω :=
  match k.wdOf object with
  | some wd => (wd, k)
  | none => (k.nextWd, ⟨(k.nextWd, object) :: k.watches, k.nextWd + 1⟩)

/-- `inotify_rm_watch`; nothing happens when there is no such watch. -/
def Watches.inotifyRmWatch (k : Watches ω) (wd : ℤ) : Watches ω :=
  { k with watches := k.watches.filter fun w => w.1 ≠ wd }

/-! ## The table -/

/-- The table, its count and the kernel.  The slots from `WDNAMENUM` on are the memory behind the
table. -/
structure WatchTable (ω : Type*) where
  wdName : ℕ → WdName
  wdNameCount : ℤ
  kernel : Watches ω

/-- The search for a slot without a name. -/
def freeSlot (wdName : ℕ → WdName) : ℕ :=
  ((List.range WDNAMENUM).find? fun i => (wdName i).name = .null).getD WDNAMENUM

/-- `add_inodity_for_entry`; the name is that of no object when `inotify_add_watch` fails, and then
the program exits. -/
def WatchTable.add (s : WatchTable ω) (filename : Path) (type : ℕ) (object : Option ω) :
    Option (WatchTable ω) :=
  object.map fun object =>
    let (wd, kernel) := s.kernel.inotifyAddWatch object
    { wdName := Function.update s.wdName (freeSlot s.wdName)
        ⟨wd, .str filename, filename.length + 1, type⟩
      wdNameCount := s.wdNameCount + 1
      kernel := kernel }

/-- `remove_inodity_for_entry` -/
def WatchTable.remove (s : WatchTable ω) (wdNameNum : ℕ) : WatchTable ω where
  wdName := Function.update
    (Function.update s.wdName wdNameNum { s.wdName wdNameNum with name := .freed }) 0 .zero
  wdNameCount := s.wdNameCount - 1
  kernel := s.kernel.inotifyRmWatch
    (if 0 ≤ s.wdNameCount then (s.wdName s.wdNameCount.toNat).wd else 0)

/-- A slot of the table that is in use. -/
def WatchTable.Occupied (s : WatchTable ω) (i : ℕ) : Prop :=
  i < WDNAMENUM ∧ (s.wdName i).name ≠ .null

instance (s : WatchTable ω) (i : ℕ) : Decidable (s.Occupied i) :=
  inferInstanceAs (Decidable (_ ∧ _))

/-- A call of one of the two functions. -/
inductive Call (ω : Type*) where
  | add (filename : Path) (type : ℕ) (object : Option ω)
  | remove (i : ℕ)

/-- The table as `main` clears it. -/
def WatchTable.clear : WatchTable ω := ⟨fun _ => .zero, 0, ⟨[], 1⟩⟩

/-- The calls in a row; a removal is about a slot that is in use. -/
def watchTable : Machine (WatchTable ω) (Call ω) where
  init s := s = .clear
  step s
    | .add filename type object => s.add filename type object
    | .remove i => if s.Occupied i then some (s.remove i) else none

/-- The slots in use. -/
def slotsInUse (wdName : ℕ → WdName) : Finset ℕ :=
  (Finset.range WDNAMENUM).filter fun i => (wdName i).name ≠ .null

/-- The count is the number of slots in use; nothing was written behind the table; a slot in use has
a name that was not freed, and a watch descriptor of its own. -/
structure Consistent (s : WatchTable ω) : Prop where
  count : s.wdNameCount = (slotsInUse s.wdName).card
  behind : ∀ i, WDNAMENUM ≤ i → s.wdName i = .zero
  live : ∀ i, s.Occupied i → (s.wdName i).name ≠ .freed
  distinct : ∀ i j, s.Occupied i → s.Occupied j → (s.wdName i).wd = (s.wdName j).wd → i = j

/-- A call that adds has a free slot and an object whose watch, if there is one, is in no slot; one
that removes is about the first slot. -/
def Fits (s : WatchTable ω) : Call ω → Prop
  | .add _ _ object => (∃ i < WDNAMENUM, (s.wdName i).name = .null) ∧
      ∀ o wd, object = some o → s.kernel.wdOf o = some wd →
        ∀ i, s.Occupied i → (s.wdName i).wd ≠ wd
  | .remove i => i = 0

/-! ## The slots -/

variable {f : ℕ → WdName} {s t : WatchTable ω} {filename : Path} {type i : ℕ} {object : ω}

/-- The search of the table is the monitor's. -/
theorem freeSlot_spec (f : ℕ → WdName) :
    (freeSlot f < WDNAMENUM → (f (freeSlot f)).name = .null) ∧
      ∀ j < freeSlot f, j < WDNAMENUM → (f j).name ≠ .null :=
  firstFree_spec { blank [] with wdName := f }

theorem freeSlot_lt_iff (f : ℕ → WdName) :
    freeSlot f < WDNAMENUM ↔ ∃ i < WDNAMENUM, (f i).name = .null :=
  firstFree_lt_iff { blank [] with wdName := f }

/-- Without a free slot the search ends behind the table. -/
theorem freeSlot_of_full (h : ¬ ∃ i < WDNAMENUM, (f i).name = .null) :
    freeSlot f = WDNAMENUM := by
  have hnone : (List.range WDNAMENUM).find? (fun i => (f i).name = .null) = none :=
    List.find?_range_eq_none.mpr fun i hi => by simpa using fun hnull => h ⟨i, hi, hnull⟩
  rw [freeSlot, hnone]
  rfl

/-- A name in a slot makes it one more that is in use. -/
theorem slotsInUse_fill {w : WdName} (hi : i < WDNAMENUM) (hw : w.name ≠ .null) :
    slotsInUse (Function.update f i w) = insert i (slotsInUse f) := by
  ext j
  simp only [slotsInUse, Finset.mem_insert, Finset.mem_filter, Finset.mem_range]
  by_cases hj : j = i
  · subst hj
    simp [hi, hw]
  · rw [Function.update_of_ne hj, or_iff_right hj]

/-- A slot that is zeroed is in use no more. -/
theorem slotsInUse_zero : slotsInUse (Function.update f i .zero) = (slotsInUse f).erase i := by
  ext j
  simp only [slotsInUse, Finset.mem_erase, Finset.mem_filter, Finset.mem_range]
  by_cases hj : j = i
  · subst hj
    simp [WdName.zero]
  · rw [Function.update_of_ne hj, and_iff_right hj]

/-! ## The invariant -/

/-- No descriptor that the table or the kernel has is a later one. -/
structure Issued (s : WatchTable ω) : Prop where
  next_pos : 0 < s.kernel.nextWd
  slot : ∀ i < WDNAMENUM, (s.wdName i).wd < s.kernel.nextWd
  watch : ∀ w ∈ s.kernel.watches, w.1 < s.kernel.nextWd

omit [DecidableEq ω] in
theorem Issued.clear : Issued (WatchTable.clear : WatchTable ω) :=
  ⟨Int.one_pos, fun _ _ => Int.one_pos, fun _ hw => absurd hw List.not_mem_nil⟩

theorem Watches.mem_of_wdOf {k : Watches ω} {wd : ℤ} (h : k.wdOf object = some wd) :
    (wd, object) ∈ k.watches := by
  obtain ⟨⟨w, o⟩, hfind, rfl⟩ := Option.map_eq_some_iff.mp h
  have ho : o = object := by simpa using List.find?_some hfind
  exact ho ▸ List.mem_of_find?_eq_some hfind

/-- What adding a watch does. -/
theorem Watches.inotifyAddWatch_cases (k : Watches ω) (object : ω) :
    (∃ wd, k.wdOf object = some wd ∧ k.inotifyAddWatch object = (wd, k)) ∨
      (k.wdOf object = none ∧ k.inotifyAddWatch object =
        (k.nextWd, ⟨(k.nextWd, object) :: k.watches, k.nextWd + 1⟩)) := by
  unfold inotifyAddWatch
  cases h : k.wdOf object with
  | some wd => exact .inl ⟨wd, rfl, rfl⟩
  | none => exact .inr ⟨rfl, rfl⟩

/-- The table after a call that adds. -/
theorem of_add {object? : Option ω} (h : s.add filename type object? = some t) :
    ∃ object, object? = some object ∧
      t.wdName = Function.update s.wdName (freeSlot s.wdName)
        ⟨(s.kernel.inotifyAddWatch object).1, .str filename, filename.length + 1, type⟩ ∧
      t.wdNameCount = s.wdNameCount + 1 ∧ t.kernel = (s.kernel.inotifyAddWatch object).2 := by
  obtain ⟨object, hobject, rfl⟩ := Option.map_eq_some_iff.mp h
  exact ⟨object, hobject, rfl, rfl, rfl⟩

theorem Issued.add {object? : Option ω} (hs : Issued s)
    (h : s.add filename type object? = some t) : Issued t := by
  obtain ⟨object, -, hwdName, -, hkernel⟩ := of_add h
  have hpos := hs.next_pos
  rcases s.kernel.inotifyAddWatch_cases object with ⟨wd, hwd, hadd⟩ | ⟨-, hadd⟩
  · rw [hadd] at hwdName hkernel
    refine ⟨hkernel ▸ hpos, fun i hi => ?_, hkernel ▸ hs.watch⟩
    rw [hwdName, hkernel, Function.update_apply]
    split_ifs
    · exact hs.watch _ (Watches.mem_of_wdOf hwd)
    · exact hs.slot i hi
  · rw [hadd] at hwdName hkernel
    have hnext : t.kernel.nextWd = s.kernel.nextWd + 1 := by rw [hkernel]
    refine ⟨by omega, fun i hi => ?_, fun w hw => ?_⟩
    · rw [hwdName, hnext, Function.update_apply]
      split_ifs
      · exact Int.lt_succ _
      · exact (hs.slot i hi).trans (Int.lt_succ _)
    · rw [hnext]
      rw [hkernel] at hw
      rcases List.mem_cons.mp hw with rfl | hw
      · exact Int.lt_succ _
      · exact (hs.watch w hw).trans (Int.lt_succ _)

omit [DecidableEq ω] in
theorem Issued.remove (hs : Issued s) (i : ℕ) : Issued (s.remove i) := by
  refine ⟨hs.next_pos, fun j hj => ?_, fun w hw => hs.watch w (List.mem_filter.mp hw).1⟩
  show (Function.update (Function.update s.wdName i _) 0 WdName.zero j).wd < s.kernel.nextWd
  rw [Function.update_apply, Function.update_apply]
  split_ifs with hzero hi
  · exact hs.next_pos
  · exact hi ▸ hs.slot j hj
  · exact hs.slot j hj

/-- The descriptor that adding a watch returns is in no slot exactly if the object is not watched or
its watch is in no slot. -/
theorem newWd_iff (hs : Issued s) (object : ω) :
    (∀ i, s.Occupied i → (s.wdName i).wd ≠ (s.kernel.inotifyAddWatch object).1) ↔
      ∀ wd, s.kernel.wdOf object = some wd → ∀ i, s.Occupied i → (s.wdName i).wd ≠ wd := by
  rcases s.kernel.inotifyAddWatch_cases object with ⟨wd, hwd, hadd⟩ | ⟨hnone, hadd⟩
  · rw [hadd, hwd]
    simp
  · rw [hadd, hnone]
    refine iff_of_true (fun i hi => ?_) fun wd h => nomatch h
    exact (hs.slot i hi.1).ne

/-! ## Adding and removing -/

omit [DecidableEq ω] in
/-- A change of one slot leaves the others in use or free. -/
theorem occupied_iff_of_update {k : ℕ} {w : WdName} (h : t.wdName = Function.update s.wdName k w)
    (hi : i ≠ k) : t.Occupied i ↔ s.Occupied i := by
  rw [WatchTable.Occupied, WatchTable.Occupied, h, Function.update_of_ne hi]

omit [DecidableEq ω] in
/-- **A name in a free slot.**  With a descriptor that is in no slot the table stays consistent. -/
theorem Consistent.fill (hc : Consistent s) {k : ℕ} {w : WdName} (hk : k < WDNAMENUM)
    (hfree : (s.wdName k).name = .null) (hnull : w.name ≠ .null) (hlive : w.name ≠ .freed)
    (hfresh : ∀ i, s.Occupied i → (s.wdName i).wd ≠ w.wd)
    (ht : t.wdName = Function.update s.wdName k w) (hcount : t.wdNameCount = s.wdNameCount + 1) :
    Consistent t := by
  have hself : t.wdName k = w := by rw [ht, Function.update_self]
  have hkept : ∀ i, i ≠ k → t.wdName i = s.wdName i := fun i hi => by
    rw [ht, Function.update_of_ne hi]
  refine ⟨?_, fun i hi => ?_, fun i hi => ?_, fun i j hi hj heq => ?_⟩
  · have hnotMem : k ∉ slotsInUse s.wdName := by simp [slotsInUse, hfree]
    rw [ht, slotsInUse_fill hk hnull, Finset.card_insert_of_notMem hnotMem, hcount, hc.count]
    rfl
  · rw [hkept i (by omega)]
    exact hc.behind i hi
  · by_cases hin : i = k
    · rwa [hin, hself]
    · rw [hkept i hin]
      exact hc.live i ((occupied_iff_of_update ht hin).mp hi)
  · by_cases hin : i = k <;> by_cases hjn : j = k
    · exact hin.trans hjn.symm
    · rw [hin, hself, hkept j hjn] at heq
      exact absurd heq.symm (hfresh j ((occupied_iff_of_update ht hjn).mp hj))
    · rw [hjn, hself, hkept i hin] at heq
      exact absurd heq (hfresh i ((occupied_iff_of_update ht hin).mp hi))
    · rw [hkept i hin, hkept j hjn] at heq
      exact hc.distinct i j ((occupied_iff_of_update ht hin).mp hi)
        ((occupied_iff_of_update ht hjn).mp hj) heq

omit [DecidableEq ω] in
/-- **A slot in use that is zeroed.** -/
theorem Consistent.zero (hc : Consistent s) {k : ℕ} (hk : s.Occupied k)
    (ht : t.wdName = Function.update s.wdName k .zero)
    (hcount : t.wdNameCount = s.wdNameCount - 1) : Consistent t := by
  have hne : ∀ i, t.Occupied i → i ≠ k := by
    rintro i ⟨-, hname⟩ rfl
    rw [ht, Function.update_self] at hname
    exact hname rfl
  have hkept : ∀ i, i ≠ k → t.wdName i = s.wdName i := fun i hi => by
    rw [ht, Function.update_of_ne hi]
  have hold : ∀ i, t.Occupied i → s.Occupied i := fun i hi =>
    (occupied_iff_of_update ht (hne i hi)).mp hi
  refine ⟨?_, fun i hi => ?_, fun i hi => ?_, fun i j hi hj heq => ?_⟩
  · have hmem : k ∈ slotsInUse s.wdName := by
      rw [slotsInUse, Finset.mem_filter, Finset.mem_range]
      exact hk
    have hcard := Finset.card_erase_add_one hmem
    rw [ht, slotsInUse_zero, hcount, hc.count]
    omega
  · have hlt := hk.1
    rw [hkept i (by omega)]
    exact hc.behind i hi
  · rw [hkept i (hne i hi)]
    exact hc.live i (hold i hi)
  · rw [hkept i (hne i hi), hkept j (hne j hj)] at heq
    exact hc.distinct i j (hold i hi) (hold j hj) heq

theorem consistent_add_iff {object? : Option ω} (hs : Issued s) (hc : Consistent s)
    (h : s.add filename type object? = some t) :
    Consistent t ↔ Fits s (.add filename type object?) := by
  obtain ⟨object, rfl, hwdName, hcount, -⟩ := of_add h
  have hfits : Fits s (.add filename type (some object)) ↔
      (∃ i < WDNAMENUM, (s.wdName i).name = .null) ∧
        ∀ i, s.Occupied i → (s.wdName i).wd ≠ (s.kernel.inotifyAddWatch object).1 := by
    rw [newWd_iff hs]
    exact and_congr_right fun _ =>
      ⟨fun h wd => h object wd rfl, fun h o wd ho => Option.some.inj ho ▸ h wd⟩
  rw [hfits]
  by_cases hfree : freeSlot s.wdName < WDNAMENUM
  · rw [and_iff_right ((freeSlot_lt_iff _).mp hfree)]
    have hnull := (freeSlot_spec s.wdName).1 hfree
    constructor
    · intro ht i hi heq
      have hne : i ≠ freeSlot s.wdName := fun hin => hi.2 (hin ▸ hnull)
      have hnew : t.Occupied (freeSlot s.wdName) := by
        refine ⟨hfree, ?_⟩
        rw [hwdName, Function.update_self]
        exact nofun
      refine hne (ht.distinct i _ ((occupied_iff_of_update hwdName hne).mpr hi) hnew ?_)
      rw [hwdName, Function.update_of_ne hne, Function.update_self, heq]
    · intro hfresh
      refine hc.fill hfree hnull ?_ ?_ hfresh hwdName hcount
      · exact nofun
      · exact nofun
  · -- the name is written behind the table
    have hfull : ¬ ∃ i < WDNAMENUM, (s.wdName i).name = .null := mt (freeSlot_lt_iff _).mpr hfree
    refine iff_of_false (fun ht => ?_) fun h => hfull h.1
    have hbehind := ht.behind WDNAMENUM le_rfl
    rw [hwdName, freeSlot_of_full hfull, Function.update_self] at hbehind
    have hname : Name.str filename = Name.null := congrArg WdName.name hbehind
    cases hname

omit [DecidableEq ω] in
/-- Removing is right for the first slot only. -/
theorem consistent_remove_iff (hc : Consistent s) (hi : s.Occupied i) :
    Consistent (s.remove i) ↔ i = 0 := by
  constructor
  · intro ht
    by_contra hne
    -- the pointer to the freed name is still in the slot
    have hslot : (s.remove i).wdName i = { s.wdName i with name := .freed } := by
      show Function.update (Function.update s.wdName i _) 0 WdName.zero i = _
      rw [Function.update_of_ne hne, Function.update_self]
    refine ht.live i ⟨hi.1, ?_⟩ ?_
    · rw [hslot]
      exact nofun
    · rw [hslot]
  · rintro rfl
    refine hc.zero hi ?_ rfl
    show Function.update (Function.update s.wdName 0 _) 0 WdName.zero = _
    rw [Function.update_idem]

/-! ## Sequences of calls -/

/-- What a step is. -/
theorem watchTable_step_cases {call : Call ω} (h : watchTable.step s call = some t) :
    (∃ filename type object?, call = .add filename type object? ∧
        s.add filename type object? = some t) ∨
      ∃ i, call = .remove i ∧ s.Occupied i ∧ t = s.remove i := by
  cases call with
  | add filename type object? => exact .inl ⟨filename, type, object?, rfl, h⟩
  | remove i =>
    obtain ⟨hi, ht⟩ := Option.ite_none_right_eq_some.mp h
    exact .inr ⟨i, rfl, hi, (Option.some.inj ht).symm⟩

theorem Issued.step {call : Call ω} (hs : Issued s) (h : watchTable.step s call = some t) :
    Issued t := by
  rcases watchTable_step_cases h with ⟨filename, type, object?, rfl, hadd⟩ | ⟨i, rfl, -, rfl⟩
  · exact hs.add hadd
  · exact hs.remove i

theorem consistent_step_iff {call : Call ω} (hs : Issued s) (hc : Consistent s)
    (h : watchTable.step s call = some t) : Consistent t ↔ Fits s call := by
  rcases watchTable_step_cases h with ⟨filename, type, object?, rfl, hadd⟩ | ⟨i, rfl, hi, rfl⟩
  · exact consistent_add_iff hs hc hadd
  · exact consistent_remove_iff hc hi

omit [DecidableEq ω] in
theorem Consistent.clear : Consistent (WatchTable.clear : WatchTable ω) := by
  have hnot : ∀ i, ¬ (WatchTable.clear : WatchTable ω).Occupied i := fun i hi => hi.2 rfl
  refine ⟨?_, fun _ _ => rfl, fun i hi => absurd hi (hnot i), fun i _ hi => absurd hi (hnot i)⟩
  have hempty : slotsInUse (fun _ => WdName.zero) = ∅ :=
    Finset.filter_eq_empty_iff.mpr fun i _ h => h rfl
  show (0 : ℤ) = ((slotsInUse fun _ => WdName.zero).card : ℕ)
  rw [hempty]
  rfl

end

/-- **The table of watches.**  Throughout a sequence of calls the count is the number of slots in
use, nothing is written behind the table, and the slots in use have live names and watch descriptors
of their own, exactly if each call that adds finds a free slot and an object whose watch is in no
slot, and each removal is about the first slot. -/
theorem consistent_throughout_iff {ω : Type*} [DecidableEq ω] (calls : List (Call ω)) :
    watchTable.Throughout Consistent WatchTable.clear calls ↔
      watchTable.Respects Fits WatchTable.clear calls :=
  Machine.throughout_iff_respects (I := Issued) (fun _ _ _ => Issued.step)
    (fun _ _ _ => consistent_step_iff) calls Issued.clear Consistent.clear

/-- Two names, and the removal of the second slot: its name is freed and stays where it was. -/
theorem not_consistent : ¬ ∀ calls : List (Call ℕ),
    watchTable.Throughout Consistent WatchTable.clear calls := by
  intro h
  have hlive := ((((h [.add ['a'] typeFile (some 1), .add ['b'] typeFile (some 2), .remove 1]).2 _
    rfl).2 _ rfl).2 _ rfl).head.live 1
  exact hlive (by decide) (by decide)

/-! ## The monitor's calls -/

/-- The monitor's table, with paths as objects. -/
def State.table (s : State) : WatchTable Path :=
  ⟨s.wdName, s.wdNameCount, ⟨s.kernel.watches, s.kernel.nextWd⟩⟩

theorem table_addInodityForEntry {s t : State} {filename : Path} {type : ℕ}
    (h : addInodityForEntry s filename type = some t) :
    s.table.add filename type (some filename) = some t.table := by
  unfold addInodityForEntry Kernel.inotifyAddWatch at h
  split_ifs at h with hpath
  · have hwdOf : s.table.kernel.wdOf filename = s.kernel.wdOf filename := rfl
    cases hwd : s.kernel.wdOf filename with
    | some wd =>
      simp only [hwd] at h
      obtain ⟨-, ht⟩ := Option.ite_none_left_eq_some.mp h
      rw [WatchTable.add, Option.map_some, Watches.inotifyAddWatch, hwdOf, hwd,
        ← Option.some.inj ht]
      rfl
    | none =>
      simp only [hwd] at h
      obtain ⟨-, ht⟩ := Option.ite_none_left_eq_some.mp h
      rw [WatchTable.add, Option.map_some, Watches.inotifyAddWatch, hwdOf, hwd,
        ← Option.some.inj ht]
      rfl
  · exact absurd (Option.ite_none_left_eq_some.mp h).1 (not_not_intro rfl)

theorem table_removeInodityForEntry (s : State) (i : ℕ) :
    (removeInodityForEntry s i).table = s.table.remove i := rfl

end InotifyTree
end CodeStrudy
