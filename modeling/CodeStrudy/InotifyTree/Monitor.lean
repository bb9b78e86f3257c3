import CodeStrudy.Foundation.Machine
import CodeStrudy.InotifyTree.FileTree
import Mathlib.Data.List.Nodup
import Mathlib.Logic.Function.Basic
import Mathlib.Tactic.ByContra

/-!
# The tree monitor

`practice/19.1/main.c` walks a tree with `nftw`, puts a watch on every entry, and keeps the entries
in the table `wdName`; then it reads events and brings the table up to date.  Here the operations on
the tree and the processing of the events that report them are separate steps, so any number of
events may wait in the queue, and `stat` and `inotify_add_watch` see the tree as it is by then.

`reported` is for the statements only: it is the tree that the events processed so far describe.  A
step is not possible where the program exits or reads what was never set.  `malloc` succeeds, and
paths fit into `PATH_MAX`.

Three branches of `displayInotifyEvent` leave the table behind the tree.  The mask of an event about
a directory has `IN_ISDIR` in it and equals no label of the switch.  Creating a file does not look
whether the search for a free slot has found one.  And deleting a file takes away the slot that the
event's watch descriptor leads to, which is the slot of the directory it was in.

## What is proved

* `Sound.displayInotifyEvent_eq`: in a sound table an event leads to the slot of the directory it is
  about.
* `held_added`, `held_added_of_full`, `Sound.added`: what adding an entry does to the table.
* `nftw_spec`: `nftw` puts every entry of a tree that fits into the table.
-/

namespace CodeStrudy
namespace InotifyTree

open Foundation

/-! ## The program's data -/

/-- The number of slots of the table. -/
def WDNAMENUM : ℕ := 100

/-- `TYPE_FILE`. -/
def typeFile : ℕ := 1

/-- `TYPE_DIR`. -/
def typeDir : ℕ := 0

/-- The pointer `name` of a slot: null, a string, or one that `free` was called on. -/
inductive Name where
  | null
  | str (path : Path)
  | freed
  deriving DecidableEq

/-- `struct wd_name`. -/
structure WdName where
  wd : ℤ
  name : Name
  nameLen : ℕ
  type : ℕ
  deriving DecidableEq

/-- A slot that `memset` has zeroed. -/
def WdName.zero : WdName := ⟨0, .null, 0, typeDir⟩

/-- The program and the kernel.  The slots from `WDNAMENUM` on are the memory behind the table. -/
structure State where
  wdName : ℕ → WdName
  wdNameCount : ℤ
  kernel : Kernel
  reported : Tree

variable {s t : State}

/-- The path is held in a slot of the table. -/
def State.Held (s : State) (p : Path) : Prop := ∃ i < WDNAMENUM, (s.wdName i).name = .str p

/-! ## The functions of the program -/

/-- The search of `add_inodity_for_entry`: the first slot without a name, or `WDNAMENUM`. -/
def firstFree (s : State) : ℕ :=
  ((List.range WDNAMENUM).find? fun i => (s.wdName i).name = .null).getD WDNAMENUM

/-- `add_inodity_for_entry`; it exits when there is nothing to watch. -/
def addInodityForEntry (s : State) (filename : Path) (type : ℕ) : Option State :=
  let (wd, kernel) := s.kernel.inotifyAddWatch filename
  if wd = -1 then none
  else some { s with
    wdName := Function.update s.wdName (firstFree s) ⟨wd, .str filename, filename.length + 1, type⟩
    wdNameCount := s.wdNameCount + 1
    kernel := kernel }

/-- `wdName[i].wd` at an index that need not be inside the table. -/
def State.wdAt (s : State) (i : ℤ) : ℤ := if 0 ≤ i then (s.wdName i.toNat).wd else 0

/-- `remove_inodity_for_entry`.  The watch is that of the slot numbered by the count, and the slot
that is zeroed is the first one. -/
def removeInodityForEntry (s : State) (wdNameNum : ℕ) : State :=
  { s with
    kernel := s.kernel.inotifyRmWatch (s.wdAt s.wdNameCount)
    wdNameCount := s.wdNameCount - 1
    wdName := Function.update
      (Function.update s.wdName wdNameNum { s.wdName wdNameNum with name := .freed }) 0 .zero }

/-- `FTW_D`. -/
def ftwD : ℕ := 1

/-- The flag that `nftw` passes for an entry: `FTW_F` or `FTW_D`. -/
def Kind.flag : Kind → ℕ
  | .file => 0
  | .dir => ftwD

/-- `nftw_func`. -/
def nftwFunc (s : State) (filename : Path) (flag : ℕ) : Option State :=
  if flag &&& ftwD ≠ 0 then addInodityForEntry s filename typeDir
  else addInodityForEntry s filename typeFile

/-- `nftw` with `nftw_func`, on a tree whose entries it meets in this order. -/
def nftw (s : State) (walk : Tree) : Option State :=
  walk.foldlM (fun s e => nftwFunc s e.path e.kind.flag) s

/-- The first loop of `displayInotifyEvent`: the slot that `temp` points to. -/
def findWd (s : State) (wd : ℤ) : Option ℕ :=
  (List.range WDNAMENUM).find? fun i => (s.wdName i).wd = wd

/-- The switch of `displayInotifyEvent`.  `IN_MOVED_FROM` and `IN_MOVED_TO` only print, so they are
like the default here. -/
def switchMask (s : State) (i : ℕ) (path : Path) (mask : ℕ) : Option State :=
  if mask = inCreate then
    match s.kernel.stat path with
    | none => none
    | some .file => addInodityForEntry s path typeFile
    | some .dir => addInodityForEntry s path typeDir
  else if mask = inDelete then some (removeInodityForEntry s i)
  else some s

/-- `displayInotifyEvent`. -/
def displayInotifyEvent (s : State) (event : InotifyEvent) : Option State :=
  match findWd s event.wd with
  | none => none
  | some i =>
    match (s.wdName i).name with
    | .str dir => switchMask s i (childPath dir event.name) event.mask
    | _ => none

/-- The state in which `main` calls `nftw`. -/
def blank (walk : Tree) : State where
  wdName _ := .zero
  wdNameCount := 0
  kernel := ⟨walk, [], 1, []⟩
  reported := walk

/-- A step: an operation inside a watched directory, or the processing of the next event. -/
inductive Label where
  | operate (op : Operation)
  | process
  deriving DecidableEq

/-- The state in which the next event, which is taken from the queue, is processed. -/
def State.dequeue (s : State) (queue : List Notice) : State :=
  { s with kernel := { s.kernel with queue := queue } }

/-- One step of the program or of the world around it. -/
def step (s : State) : Label → Option State
  | .operate op => (s.kernel.operate op).map fun k => { s with kernel := k }
  | .process =>
    match s.kernel.queue with
    | [] => none
    | n :: queue =>
      (displayInotifyEvent (s.dequeue queue) n.event).map fun t =>
        { t with reported := (n.op.apply s.reported).getD s.reported }

/-- The monitor, started on a tree that fits the table. -/
def monitor : Machine State Label where
  init s := ∃ walk : Tree, walk.paths.Nodup ∧ walk.length ≤ WDNAMENUM ∧
    nftw (blank walk) walk = some s
  step := step

/-! ## Searching the table -/

/-- A free slot, and none before it, or the index behind the table when there is none. -/
theorem firstFree_spec (s : State) :
    (firstFree s < WDNAMENUM → (s.wdName (firstFree s)).name = .null) ∧
      ∀ j < firstFree s, j < WDNAMENUM → (s.wdName j).name ≠ .null := by
  unfold firstFree
  rcases h : (List.range WDNAMENUM).find? fun i => (s.wdName i).name = .null with _ | i
  · refine ⟨fun hlt => absurd hlt (Nat.lt_irrefl _), fun j _ hj => ?_⟩
    simpa using List.find?_range_eq_none.mp h j hj
  · obtain ⟨hi, -, hbefore⟩ := List.find?_range_eq_some.mp h
    refine ⟨fun _ => by simpa using hi, fun j hj _ => ?_⟩
    simpa using hbefore j hj

theorem firstFree_lt_iff (s : State) :
    firstFree s < WDNAMENUM ↔ ∃ i < WDNAMENUM, (s.wdName i).name = .null := by
  obtain ⟨hfree, hbefore⟩ := firstFree_spec s
  constructor
  · intro hlt
    exact ⟨firstFree s, hlt, hfree hlt⟩
  · rintro ⟨i, hi, hnull⟩
    by_contra hge
    exact hbefore i (by omega) hi hnull

/-- The slots hold what was put there, each under a watch descriptor of its own, and every watch has
its slot. -/
structure Sound (s : State) : Prop where
  next_pos : 0 < s.kernel.nextWd
  slot : ∀ i < WDNAMENUM, ((s.wdName i).name = .null ∧ (s.wdName i).wd = 0) ∨
    ∃ p, (s.wdName i).name = .str p ∧ 0 < (s.wdName i).wd ∧ (s.wdName i).wd < s.kernel.nextWd
  wd_inj : ∀ i < WDNAMENUM, ∀ j < WDNAMENUM, (s.wdName i).wd ≠ 0 →
    (s.wdName i).wd = (s.wdName j).wd → i = j
  name_inj : ∀ i < WDNAMENUM, ∀ j < WDNAMENUM, ∀ p, (s.wdName i).name = .str p →
    (s.wdName j).name = .str p → i = j
  watched : ∀ wd p, (wd, p) ∈ s.kernel.watches →
    ∃ i < WDNAMENUM, (s.wdName i).wd = wd ∧ (s.wdName i).name = .str p

/-- The loop of `displayInotifyEvent` finds the slot of a watch descriptor in use. -/
theorem Sound.findWd_eq (hs : Sound s) {i : ℕ} {p : Path} (hi : i < WDNAMENUM)
    (hname : (s.wdName i).name = .str p) : findWd s (s.wdName i).wd = some i := by
  have hwd : (s.wdName i).wd ≠ 0 := by
    rcases hs.slot i hi with ⟨hnull, -⟩ | ⟨_, -, hpos, -⟩
    · exact absurd (hname.symm.trans hnull) (fun h => nomatch h)
    · omega
  refine List.find?_range_eq_some.mpr ⟨by simp, List.mem_range.mpr hi, fun j hj => ?_⟩
  have hne : (s.wdName j).wd ≠ (s.wdName i).wd := by
    intro h
    exact absurd (hs.wd_inj i hi j (Nat.lt_trans hj hi) hwd h.symm) (Nat.ne_of_gt hj)
  simpa using hne

/-- An event about a child of the directory in slot `i` comes to the switch with that slot and the
child's path. -/
theorem Sound.displayInotifyEvent_eq (hs : Sound s) {i : ℕ} {n : Notice} (hi : i < WDNAMENUM)
    (hwd : (s.wdName i).wd = n.wd) (hname : (s.wdName i).name = .str n.op.parent) :
    displayInotifyEvent s n.event = switchMask s i n.op.path n.event.mask := by
  have hfind : findWd s n.event.wd = some i := by
    have h := hs.findWd_eq hi hname
    rwa [hwd] at h
  unfold displayInotifyEvent
  simp only [hfind, hname]
  rfl

/-! ## Adding an entry -/

/-- The state after a new watch was put on the path and recorded. -/
def added (s : State) (p : Path) (type : ℕ) : State :=
  { s with
    wdName := Function.update s.wdName (firstFree s) ⟨s.kernel.nextWd, .str p, p.length + 1, type⟩
    wdNameCount := s.wdNameCount + 1
    kernel := { s.kernel with
      watches := (s.kernel.nextWd, p) :: s.kernel.watches
      nextWd := s.kernel.nextWd + 1 } }

/-- A path that no slot holds has no watch yet. -/
theorem Sound.addInodityForEntry_eq (hs : Sound s) {p : Path} (hheld : ¬ s.Held p)
    (hp : p ∈ s.kernel.tree.paths) (type : ℕ) :
    addInodityForEntry s p type = some (added s p type) := by
  have hwd : s.kernel.wdOf p = none := by
    rcases h : s.kernel.wdOf p with _ | wd
    · rfl
    · obtain ⟨i, hi, -, hname⟩ := hs.watched wd p (Kernel.mem_watches_of_wdOf h)
      exact absurd ⟨i, hi, hname⟩ hheld
  have hne : s.kernel.nextWd ≠ -1 := by
    have hpos := hs.next_pos
    omega
  unfold addInodityForEntry Kernel.inotifyAddWatch
  simp only [if_pos hp, hwd, if_neg hne]
  rfl

theorem added_self (s : State) (p : Path) (type : ℕ) :
    (added s p type).wdName (firstFree s) = ⟨s.kernel.nextWd, .str p, p.length + 1, type⟩ :=
  Function.update_self ..

theorem added_of_ne {p : Path} {type i : ℕ} (h : i ≠ firstFree s) :
    (added s p type).wdName i = s.wdName i :=
  Function.update_of_ne h ..

/-- A slot in use is not the one that is filled. -/
theorem ne_firstFree {i : ℕ} {p : Path} (hi : i < WDNAMENUM) (h : (s.wdName i).name = .str p) :
    i ≠ firstFree s := by
  rintro rfl
  exact absurd (h.symm.trans ((firstFree_spec s).1 hi)) (fun h => nomatch h)

/-- With a free slot, one more path is held. -/
theorem held_added (hfree : firstFree s < WDNAMENUM) {p q : Path} {type : ℕ} :
    (added s p type).Held q ↔ s.Held q ∨ q = p := by
  constructor
  · rintro ⟨i, hi, hname⟩
    by_cases h : i = firstFree s
    · rw [h, added_self] at hname
      exact .inr (Name.str.inj hname).symm
    · rw [added_of_ne h] at hname
      exact .inl ⟨i, hi, hname⟩
  · rintro (⟨i, hi, hname⟩ | rfl)
    · exact ⟨i, hi, by rw [added_of_ne (ne_firstFree hi hname), hname]⟩
    · exact ⟨firstFree s, hfree, by rw [added_self]⟩

/-- Without a free slot the entry is written behind the table. -/
theorem held_added_of_full (hfull : ¬ firstFree s < WDNAMENUM) {p q : Path} {type : ℕ} :
    (added s p type).Held q ↔ s.Held q := by
  have hsame : ∀ i < WDNAMENUM, (added s p type).wdName i = s.wdName i := fun i hi =>
    added_of_ne (by omega)
  constructor
  · rintro ⟨i, hi, hname⟩
    exact ⟨i, hi, hsame i hi ▸ hname⟩
  · rintro ⟨i, hi, hname⟩
    exact ⟨i, hi, (hsame i hi).symm ▸ hname⟩

theorem Sound.added (hs : Sound s) {p : Path} (hheld : ¬ s.Held p)
    (hfree : firstFree s < WDNAMENUM) (type : ℕ) : Sound (added s p type) := by
  have hlt : ∀ j < WDNAMENUM, (s.wdName j).wd ≠ s.kernel.nextWd := by
    intro j hj h
    have hpos := hs.next_pos
    rcases hs.slot j hj with ⟨-, h0⟩ | ⟨_, -, -, hlt⟩ <;> omega
  refine ⟨?_, fun i hi => ?_, fun i hi j hj => ?_, fun i hi j hj q => ?_, fun wd q hw => ?_⟩
  · exact Int.add_pos hs.next_pos (by decide)
  · by_cases h : i = firstFree s
    · rw [h, added_self]
      exact .inr ⟨p, rfl, hs.next_pos, Int.lt_succ _⟩
    · rw [added_of_ne h]
      rcases hs.slot i hi with h0 | ⟨q, hname, hpos, hlt⟩
      · exact .inl h0
      · exact .inr ⟨q, hname, hpos, Int.lt_trans hlt (Int.lt_succ _)⟩
  · by_cases hi' : i = firstFree s <;> by_cases hj' : j = firstFree s
    · exact fun _ _ => hi'.trans hj'.symm
    · rw [hi', added_self, added_of_ne hj']
      exact fun _ h => absurd h.symm (hlt j hj)
    · rw [hj', added_self, added_of_ne hi']
      exact fun _ h => absurd h (hlt i hi)
    · rw [added_of_ne hi', added_of_ne hj']
      exact hs.wd_inj i hi j hj
  · by_cases hi' : i = firstFree s <;> by_cases hj' : j = firstFree s
    · exact fun _ _ => hi'.trans hj'.symm
    · rw [hi', added_self, added_of_ne hj']
      intro hq hname
      exact absurd ⟨j, hj, Name.str.inj hq ▸ hname⟩ hheld
    · rw [hj', added_self, added_of_ne hi']
      intro hname hq
      exact absurd ⟨i, hi, Name.str.inj hq ▸ hname⟩ hheld
    · rw [added_of_ne hi', added_of_ne hj']
      exact hs.name_inj i hi j hj q
  · rcases List.mem_cons.mp hw with h | hw
    · obtain ⟨rfl, rfl⟩ := Prod.mk.inj h
      exact ⟨firstFree s, hfree, by rw [added_self], by rw [added_self]⟩
    · obtain ⟨i, hi, hwd, hname⟩ := hs.watched wd q hw
      have h : (InotifyTree.added s p type).wdName i = s.wdName i :=
        added_of_ne (ne_firstFree hi hname)
      exact ⟨i, hi, h.symm ▸ hwd, h.symm ▸ hname⟩

/-! ## The walk -/

/-- The slots in use are the first `n`. -/
def Filled (s : State) (n : ℕ) : Prop := ∀ i < WDNAMENUM, (s.wdName i).name = .null ↔ n ≤ i

theorem Filled.firstFree_eq {n : ℕ} (h : Filled s n) (hn : n < WDNAMENUM) : firstFree s = n := by
  obtain ⟨hfree, hbefore⟩ := firstFree_spec s
  rcases Nat.lt_trichotomy (firstFree s) n with hlt | heq | hlt
  · have hle := (h _ (Nat.lt_trans hlt hn)).mp (hfree (Nat.lt_trans hlt hn))
    omega
  · exact heq
  · exact absurd ((h n hn).mpr (Nat.le_refl n)) (hbefore n hlt hn)

theorem Filled.added {n : ℕ} (h : Filled s n) (hn : n < WDNAMENUM) (p : Path) (type : ℕ) :
    Filled (added s p type) (n + 1) := by
  intro i hi
  have hfree := h.firstFree_eq hn
  by_cases hin : i = firstFree s
  · rw [hin, added_self]
    refine iff_of_false (fun h => nomatch h) ?_
    omega
  · rw [added_of_ne hin, h i hi]
    omega

theorem nftwFunc_eq (s : State) (p : Path) (c : Kind) :
    nftwFunc s p c.flag = addInodityForEntry s p (if c = .dir then typeDir else typeFile) := by
  rcases c with _ | _ <;> rfl

/-- **The walk records the tree.** From a table with room, `nftw` goes through, and it holds the
paths of the walk beside those held before. -/
theorem nftw_spec (walk : Tree) (hs : Sound s) {n : ℕ} (hfilled : Filled s n)
    (hroom : n + walk.length ≤ WDNAMENUM) (hnew : ∀ p ∈ walk.paths, ¬ s.Held p)
    (hnodup : walk.paths.Nodup) (htree : walk.paths ⊆ s.kernel.tree.paths) :
    ∃ t, nftw s walk = some t ∧ Sound t ∧ (∀ p, t.Held p ↔ s.Held p ∨ p ∈ walk.paths) ∧
      t.kernel.tree = s.kernel.tree ∧ t.kernel.queue = s.kernel.queue ∧
      t.reported = s.reported := by
  induction walk generalizing s n with
  | nil => exact ⟨s, rfl, hs, fun p => by simp [Tree.paths], rfl, rfl, rfl⟩
  | cons e walk ih =>
    rw [List.length_cons] at hroom
    have hn : n < WDNAMENUM := by omega
    have hfree : firstFree s < WDNAMENUM := by
      rw [hfilled.firstFree_eq hn]
      exact hn
    have hhead : e.path ∈ Tree.paths (e :: walk) := List.mem_cons_self
    have htail : ∀ p ∈ Tree.paths walk, p ∈ Tree.paths (e :: walk) := fun p hp =>
      List.mem_cons_of_mem _ hp
    have hnodup' : (e.path :: Tree.paths walk).Nodup := hnodup
    obtain ⟨hne, hnodup'⟩ := List.nodup_cons.mp hnodup'
    let type := if e.kind = .dir then typeDir else typeFile
    have hadd : nftwFunc s e.path e.kind.flag = some (added s e.path type) := by
      rw [nftwFunc_eq]
      exact hs.addInodityForEntry_eq (hnew _ hhead) (htree hhead) _
    obtain ⟨t, ht, hsound, hheld, htree', hqueue, hreported⟩ :=
      ih (hs.added (hnew _ hhead) hfree type) (hfilled.added hn e.path type) (by omega)
        (fun p hp h => by
          rcases (held_added hfree).mp h with h | rfl
          · exact hnew p (htail p hp) h
          · exact hne hp)
        hnodup' (fun p hp => htree (htail p hp))
    refine ⟨t, ?_, hsound, fun p => ?_, htree', hqueue, hreported⟩
    · rw [nftw, List.foldlM_cons, hadd]
      exact ht
    · have hcons : p ∈ Tree.paths (e :: walk) ↔ p = e.path ∨ p ∈ Tree.paths walk := List.mem_cons
      rw [hheld p, held_added hfree, hcons, or_assoc]

end InotifyTree
end CodeStrudy
