import CodeStrudy.InotifyTree.Monitor

/-!
# Whether the table follows the tree

A run of the tree monitor: operations on the tree, in any number before the program reads the events
about them, and the processing of these events one after the other.  What an event leads to depends
on the table, which earlier events have changed, and on the tree, which later operations have.

As long as the table is right, three kinds of event leave it wrong.  An event about a directory
changes nothing in it.  The creation of a file when the table is full is written behind the table.
The deletion of a file takes the path of its directory out of the table.

## What is proved

* `Good.init`, `Good.operate`, `Good.create`: the table is right after the walk, and stays right
  when the creation of a file is processed and a slot is free.
* `tracked_throughout_iff`: a run keeps the table right from end to end exactly if no event of
  another kind is processed in it. -/

namespace CodeStrudy
namespace InotifyTree

open Foundation

variable {s t u : State} {n : Notice} {queue : List Notice} {i : ℕ}

/-- The table holds the paths that exist as far as events about them were processed, and so the
paths of the tree when no event waits. -/
structure Tracked (s : State) : Prop where
  reported : ∀ p, s.Held p ↔ p ∈ s.reported.paths
  tree : s.kernel.queue = [] → ∀ p, s.Held p ↔ p ∈ s.kernel.tree.paths

/-- Which events the table follows: those about the creation of a file, when a slot is free. -/
def Recorded (s : State) : Label → Prop
  | .operate _ => True
  | .process => ∀ n ∈ s.kernel.queue.head?,
      (n.op.act = .create ∧ n.op.kind = .file) ∧ ∃ i < WDNAMENUM, (s.wdName i).name = .null

instance (s : State) (a : Label) : Decidable (Recorded s a) :=
  match a with
  | .operate _ => .isTrue trivial
  | .process => inferInstanceAs (Decidable (∀ n ∈ s.kernel.queue.head?,
      (n.op.act = .create ∧ n.op.kind = .file) ∧ ∃ i < WDNAMENUM, (s.wdName i).name = .null))

/-- What holds as long as all events processed were recorded: the table is sound and holds the
reported paths, every event waiting is about a child of a directory in the table, and the operations
waiting lead from the reported tree to the tree. -/
structure Good (s : State) : Prop where
  sound : Sound s
  held : ∀ p, s.Held p ↔ p ∈ s.reported.paths
  parents : ∀ n ∈ s.kernel.queue, ∃ i < WDNAMENUM, (s.wdName i).wd = n.wd ∧
    (s.wdName i).name = .str n.op.parent
  accounted : replay (s.kernel.queue.map Notice.op) s.reported = some s.kernel.tree

theorem Good.tracked (h : Good s) : Tracked s := by
  refine ⟨h.held, fun hqueue p => ?_⟩
  have haccounted := h.accounted
  rw [hqueue] at haccounted
  have htree : s.reported = s.kernel.tree := Option.some.inj haccounted
  rw [← htree]
  exact h.held p

/-! ## The start -/

theorem sound_blank (walk : Tree) : Sound (blank walk) where
  next_pos := Int.one_pos
  slot _ _ := .inl ⟨rfl, rfl⟩
  wd_inj _ _ _ _ h := absurd rfl h
  name_inj _ _ _ _ _ h := nomatch h
  watched _ _ h := nomatch h

/-- After the walk of a tree that fits, the table is right. -/
theorem Good.init (hs : monitor.init s) : Good s := by
  obtain ⟨walk, hnodup, hlen, hwalk⟩ := hs
  have hempty : ∀ p, ¬ (blank walk).Held p := by
    rintro p ⟨_, -, hname⟩
    cases hname
  have hfilled : Filled (blank walk) 0 := fun i _ => iff_of_true rfl (Nat.zero_le i)
  obtain ⟨t, ht, hsound, hheld, htree, hqueue, hreported⟩ :=
    nftw_spec walk (sound_blank walk) hfilled (by omega) (fun p _ => hempty p) hnodup
      (List.Subset.refl _)
  obtain rfl : t = s := Option.some.inj (ht.symm.trans hwalk)
  refine ⟨hsound, fun p => ?_, fun n hn => ?_, ?_⟩
  · rw [hheld p, hreported]
    exact or_iff_right (hempty p)
  · rw [hqueue] at hn
    cases hn
  · rw [hqueue, hreported, htree]
    rfl

/-! ## Operations -/

/-- An operation leaves the table alone, and brings an event about a directory in the table. -/
theorem Good.operate (h : Good s) {op : Operation} {k : Kernel}
    (hop : s.kernel.operate op = some k) : Good { s with kernel := k } := by
  have haccounted := Kernel.replay_operate h.accounted hop
  obtain ⟨wd, tree, hwatch, -, rfl⟩ := Kernel.operate_cases hop
  refine ⟨⟨h.sound.next_pos, h.sound.slot, h.sound.wd_inj, h.sound.name_inj, fun wd' p hw => ?_⟩,
    h.held, fun n hn => ?_, haccounted⟩
  · exact h.sound.watched wd' p (Kernel.watchesAfter_subset hw)
  · rcases List.mem_append.mp hn with hn | hn
    · exact h.parents n hn
    · obtain rfl := List.mem_singleton.mp hn
      exact h.sound.watched wd op.parent hwatch

/-! ## Events -/

theorem Sound.dequeue (hs : Sound s) (queue : List Notice) : Sound (s.dequeue queue) :=
  ⟨hs.next_pos, hs.slot, hs.wd_inj, hs.name_inj, hs.watched⟩

/-- The processing of an event comes to the switch with the slot of the directory and the path of
the child, and the operation is one on the reported tree. -/
theorem Good.process_cases (h : Good s) (hst : step s .process = some t) :
    ∃ n queue i tree u, s.kernel.queue = n :: queue ∧ i < WDNAMENUM ∧
      (s.wdName i).name = .str n.op.parent ∧ n.op.apply s.reported = some tree ∧
      replay (queue.map Notice.op) tree = some s.kernel.tree ∧
      switchMask (s.dequeue queue) i n.op.path n.event.mask = some u ∧
      t = { u with reported := tree } := by
  have hparents := h.parents
  have haccounted := h.accounted
  simp only [step] at hst
  split at hst
  · cases hst
  · rename_i n queue hqueue
    rw [hqueue] at hparents haccounted
    obtain ⟨i, hi, hwd, hname⟩ := hparents n List.mem_cons_self
    have hreplay : ((n.op.apply s.reported).bind fun tree => replay (queue.map Notice.op) tree) =
        some s.kernel.tree := haccounted
    obtain ⟨tree, happly, hrest⟩ := Option.bind_eq_some_iff.mp hreplay
    obtain ⟨u, hu, rfl⟩ := Option.map_eq_some_iff.mp hst
    rw [(h.sound.dequeue queue).displayInotifyEvent_eq hi hwd hname] at hu
    refine ⟨n, queue, i, tree, u, hqueue, hi, hname, happly, hrest, hu, ?_⟩
    rw [happly]
    rfl

/-- An event about a directory is left to the default. -/
theorem switchMask_of_dir (hkind : n.op.kind = .dir) (p : Path) :
    switchMask s i p n.event.mask = some s := by
  have hmask : n.event.mask = n.op.act.mask ||| inIsdir := by
    show n.op.act.mask ||| n.op.kind.mask = _
    rw [hkind]
    rfl
  rw [hmask]
  rcases n.op.act with _ | _ <;> rfl

/-- The event about a file that is created leads to `add_inodity_for_entry`, if `stat` finds
something. -/
theorem switchMask_of_create (hact : n.op.act = .create) (hkind : n.op.kind = .file) {p : Path}
    (h : switchMask s i p n.event.mask = some u) :
    p ∈ s.kernel.tree.paths ∧ ∃ type, addInodityForEntry s p type = some u := by
  have hmask : n.event.mask = inCreate := by
    show n.op.act.mask ||| n.op.kind.mask = _
    rw [hact, hkind]
    rfl
  rw [hmask] at h
  unfold switchMask at h
  rw [if_pos rfl] at h
  rcases hstat : s.kernel.stat p with _ | _ | _
  · rw [hstat] at h
    cases h
  · rw [hstat] at h
    exact ⟨Kernel.mem_paths_of_stat hstat, typeFile, h⟩
  · rw [hstat] at h
    exact ⟨Kernel.mem_paths_of_stat hstat, typeDir, h⟩

/-- The event about a file that is deleted leads to `remove_inodity_for_entry` with the slot of the
directory. -/
theorem switchMask_of_delete (hact : n.op.act = .delete) (hkind : n.op.kind = .file) (p : Path) :
    switchMask s i p n.event.mask = some (removeInodityForEntry s i) := by
  have hmask : n.event.mask = inDelete := by
    show n.op.act.mask ||| n.op.kind.mask = _
    rw [hact, hkind]
    rfl
  rw [hmask]
  rfl

/-- The path of the slot that is removed is held no more. -/
theorem Sound.not_held_removed (hs : Sound s) {p : Path} (hi : i < WDNAMENUM)
    (hname : (s.wdName i).name = .str p) : ¬ (removeInodityForEntry s i).Held p := by
  rintro ⟨j, hj, hj'⟩
  have hslot : (Function.update
      (Function.update s.wdName i { s.wdName i with name := .freed }) 0 .zero j).name = .str p :=
    hj'
  by_cases hj0 : j = 0
  · rw [hj0, Function.update_self] at hslot
    cases hslot
  · rw [Function.update_of_ne hj0] at hslot
    by_cases hji : j = i
    · rw [hji, Function.update_self] at hslot
      cases hslot
    · rw [Function.update_of_ne hji] at hslot
      exact hji (hs.name_inj j hj i hi p hslot hname)

/-- The creation of a file, processed when a slot is free, leaves the table right. -/
theorem Good.create (h : Good s) (hst : step s .process = some t) (hC : Recorded s .process) :
    Good t := by
  obtain ⟨n, queue, i, tree, u, hqueue, hi, hname, happly, hrest, hswitch, rfl⟩ :=
    h.process_cases hst
  obtain ⟨⟨hact, hkind⟩, hfree⟩ := hC n (by rw [hqueue]; rfl)
  obtain ⟨hpath, type, hadd⟩ := switchMask_of_create hact hkind hswitch
  obtain ⟨hnew, -⟩ := Operation.mem_paths_of_create (p := n.op.path) happly hact
  have hheld : ¬ s.Held n.op.path := fun hheld => hnew ((h.held _).mp hheld)
  have hsound := h.sound.dequeue queue
  rw [hsound.addInodityForEntry_eq hheld hpath type] at hadd
  obtain rfl := Option.some.inj hadd
  have hfree' : firstFree (s.dequeue queue) < WDNAMENUM := (firstFree_lt_iff _).mpr hfree
  have hadded := hsound.added hheld hfree' type
  refine ⟨⟨hadded.next_pos, hadded.slot, hadded.wd_inj, hadded.name_inj, hadded.watched⟩,
    fun p => ?_, fun m hm => ?_, hrest⟩
  · calc (added (s.dequeue queue) n.op.path type).Held p
        ↔ s.Held p ∨ p = n.op.path := held_added hfree'
      _ ↔ p ∈ s.reported.paths ∨ p = n.op.path := by rw [h.held p]
      _ ↔ p ∈ tree.paths := (Operation.mem_paths_of_create happly hact).2.symm
  · obtain ⟨j, hj, hwd, hparent⟩ := h.parents m (by rw [hqueue]; exact List.mem_cons_of_mem _ hm)
    have hslot : (added (s.dequeue queue) n.op.path type).wdName j = s.wdName j :=
      added_of_ne (s := s.dequeue queue) (ne_firstFree hj hparent)
    exact ⟨j, hj, hslot.symm ▸ hwd, hslot.symm ▸ hparent⟩

/-- Any other event, processed while the table is right, leaves it wrong. -/
theorem Good.not_tracked (h : Good s) (hst : step s .process = some t)
    (hC : ¬ Recorded s .process) : ¬ Tracked t := by
  obtain ⟨n, queue, i, tree, u, hqueue, hi, hname, happly, -, hswitch, rfl⟩ := h.process_cases hst
  intro ht
  have hheld : ∀ p, u.Held p ↔ p ∈ tree.paths := ht.reported
  rcases hact : n.op.act with _ | _
  · -- A creation: its path exists now, and the table does not hold it.
    obtain ⟨hnew, hmem⟩ := Operation.mem_paths_of_create (p := n.op.path) happly hact
    have hold : ¬ s.Held n.op.path := fun hold => hnew ((h.held _).mp hold)
    have hu : u.Held n.op.path := (hheld _).mpr (hmem.mpr (.inr rfl))
    rcases hkind : n.op.kind with _ | _
    · have hfull : ¬ firstFree s < WDNAMENUM := by
        intro hfree
        refine hC fun m hm => ?_
        rw [hqueue] at hm
        obtain rfl := Option.some.inj hm
        exact ⟨⟨hact, hkind⟩, (firstFree_lt_iff s).mp hfree⟩
      obtain ⟨hpath, type, hadd⟩ := switchMask_of_create hact hkind hswitch
      rw [(h.sound.dequeue queue).addInodityForEntry_eq hold hpath type] at hadd
      obtain rfl := Option.some.inj hadd
      exact hold ((held_added_of_full (s := s.dequeue queue) hfull).mp hu)
    · rw [switchMask_of_dir hkind] at hswitch
      obtain rfl := Option.some.inj hswitch
      exact hold hu
  · rcases hkind : n.op.kind with _ | _
    · -- A file is deleted: its directory exists, and the table does not hold it any more.
      rw [switchMask_of_delete hact hkind] at hswitch
      obtain rfl := Option.some.inj hswitch
      exact (h.sound.dequeue queue).not_held_removed hi hname
        ((hheld _).mpr (Operation.parent_mem happly))
    · -- A directory is deleted: the table still holds it.
      rw [switchMask_of_dir hkind] at hswitch
      obtain rfl := Option.some.inj hswitch
      obtain ⟨hold, hmem⟩ := Operation.mem_paths_of_delete (p := n.op.path) happly hact
      exact (hmem.mp ((hheld _).mp ((h.held _).mpr hold))).2 rfl

/-! ## Runs -/

/-- **The exact condition for the table to follow the tree.** In every run, with any number of
events waiting at any time, the table holds the existing paths throughout exactly if every event
that is processed is about the creation of a file and finds a free slot. -/
theorem tracked_throughout_iff (hs : monitor.init s) (as : List Label) :
    monitor.Throughout Tracked s as ↔ monitor.Respects Recorded s as := by
  refine Machine.throughout_iff_respects_of_invariant (fun _ => Good.tracked) ?_ ?_ as
    (Good.init hs)
  · intro s a t h hst hC
    rcases a with op | _
    · obtain ⟨k, hk, rfl⟩ := Option.map_eq_some_iff.mp hst
      exact h.operate hk
    · exact h.create hst hC
  · intro s a t h hst hC
    rcases a with op | _
    · exact absurd trivial hC
    · exact h.not_tracked hst hC

/-- A directory. -/
def oneDirectory : Tree := [⟨['d'], .dir⟩]

/-- Something called `x` is created in it. -/
def created (kind : Kind) : Label := .operate ⟨.create, ['d'], ['x'], kind⟩

/-- The law at the creation of a file in a directory. -/
theorem tracked_throughout_one_file :
    ∃ s, nftw (blank oneDirectory) oneDirectory = some s ∧
      monitor.Throughout Tracked s [created .file, .process] := by
  refine ⟨_, rfl, (tracked_throughout_iff ⟨oneDirectory, by decide, by decide, rfl⟩ _).mpr ?_⟩
  decide +kernel

/-- A directory that is created is not put into the table. -/
theorem not_tracked_throughout :
    ¬ ∀ s as t, monitor.init s → monitor.run s as = some t → t.kernel.queue = [] →
      ∀ p, t.Held p ↔ p ∈ t.kernel.tree.paths := by
  intro h
  have hrun : ∃ s t, monitor.init s ∧
      monitor.run s [created .dir, .process] = some t ∧ t.kernel.queue = [] ∧
      childPath ['d'] ['x'] ∈ t.kernel.tree.paths ∧
      ∀ i < WDNAMENUM, (t.wdName i).name ≠ .str (childPath ['d'] ['x']) :=
    ⟨_, _, ⟨oneDirectory, by decide, by decide, rfl⟩, rfl, rfl, by decide, by decide⟩
  obtain ⟨s, t, hs, ht, hqueue, hmem, hnone⟩ := hrun
  obtain ⟨i, hi, hname⟩ := (h s _ t hs ht hqueue _).mpr hmem
  exact hnone i hi hname

end InotifyTree
end CodeStrudy
