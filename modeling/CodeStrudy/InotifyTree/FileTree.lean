import Mathlib.Data.Int.Notation
import Mathlib.Data.Nat.Notation

/-!
# A file tree and its inotify watches

The kernel's side of `practice/19.1`: the tree of files and directories, the watches on its entries,
and the queue of events that an inotify descriptor is read from.

A tree is the list of its entries; a path is what the programs build with `"%s/%s"`.  A watch is on
an object and not on a name, so deleting the object ends it, and an object made later at the same
path is not watched.  An operation inside a watched directory puts one event in the queue, with the
watch descriptor of the directory and the name of the child, and with `IN_ISDIR` set for a
directory.  The queue keeps the operation beside the event's watch descriptor, for the statements
only: what a program reads is `Notice.event`.

The other events that a watch on everything brings (for the object's own watch, or for opening and
reading) are not in the queue.

## What is proved

`replay_operate`: the operations that the queue reports, in order, lead from the tree that the
reports read so far describe to the tree as it is. -/

namespace CodeStrudy
namespace InotifyTree

/-! ## Trees -/

/-- A path, or a name in a directory. -/
abbrev Path : Type := List Char

/-- What stands at a path. -/
inductive Kind where
  | file
  | dir
  deriving DecidableEq

/-- An entry of the tree. -/
structure Entry where
  path : Path
  kind : Kind
  deriving DecidableEq

/-- A tree: its entries. -/
abbrev Tree : Type := List Entry

/-- The existing paths of the tree. -/
def Tree.paths (t : Tree) : List Path := t.map Entry.path

/-- `"%s/%s"` on a directory and a name in it. -/
def childPath (dir name : Path) : Path := dir ++ '/' :: name

/-- Something stands below the path. -/
def Tree.hasChildren (t : Tree) (p : Path) : Bool :=
  t.any fun e => (childPath p []).isPrefixOf e.path

/-! ## Operations -/

/-- Whether an operation makes an entry or takes one away. -/
inductive Act where
  | create
  | delete
  deriving DecidableEq

/-- The creation or the deletion of a file or directory in a directory. -/
structure Operation where
  act : Act
  parent : Path
  name : Path
  kind : Kind
  deriving DecidableEq

/-- The path that is created or deleted. -/
def Operation.path (op : Operation) : Path := childPath op.parent op.name

/-- The tree after the operation, if it is possible: what is created is new, what is deleted is
there and is not a directory with something in it. -/
def Operation.apply (op : Operation) (t : Tree) : Option Tree :=
  if ⟨op.parent, .dir⟩ ∈ t then
    match op.act with
    | .create => if op.path ∈ t.paths then none else some (t ++ [⟨op.path, op.kind⟩])
    | .delete =>
      if ⟨op.path, op.kind⟩ ∈ t ∧ t.hasChildren op.path = false then
        some (t.filter fun e => e.path ≠ op.path)
      else none
  else none

/-- The tree after operations in a row. -/
def replay (ops : List Operation) (t : Tree) : Option Tree := ops.foldlM (fun u op => op.apply u) t

variable {op : Operation} {t u : Tree} {p : Path}

/-- What an operation on the tree can do. -/
theorem Operation.apply_cases (h : op.apply t = some u) :
    (op.act = .create ∧ op.path ∉ t.paths ∧ u = t ++ [⟨op.path, op.kind⟩]) ∨
    (op.act = .delete ∧ op.path ∈ t.paths ∧ u = t.filter fun e => e.path ≠ op.path) := by
  obtain ⟨-, h⟩ := Option.ite_none_right_eq_some.mp h
  rcases hact : op.act with _ | _
  · simp only [hact] at h
    obtain ⟨hnew, h⟩ := Option.ite_none_left_eq_some.mp h
    exact .inl ⟨rfl, hnew, (Option.some.inj h).symm⟩
  · simp only [hact] at h
    obtain ⟨⟨hold, -⟩, h⟩ := Option.ite_none_right_eq_some.mp h
    exact .inr ⟨rfl, List.mem_map_of_mem hold, (Option.some.inj h).symm⟩

/-- The paths after a creation. -/
theorem Operation.mem_paths_of_create (h : op.apply t = some u) (hact : op.act = .create) :
    op.path ∉ t.paths ∧ (p ∈ u.paths ↔ p ∈ t.paths ∨ p = op.path) := by
  rcases apply_cases h with ⟨-, hnew, rfl⟩ | ⟨hdel, -⟩
  · exact ⟨hnew, by simp [Tree.paths]⟩
  · exact absurd (hact.symm.trans hdel) (by decide)

/-- The paths after a deletion. -/
theorem Operation.mem_paths_of_delete (h : op.apply t = some u) (hact : op.act = .delete) :
    op.path ∈ t.paths ∧ (p ∈ u.paths ↔ p ∈ t.paths ∧ p ≠ op.path) := by
  rcases apply_cases h with ⟨hcreate, -⟩ | ⟨-, hold, rfl⟩
  · exact absurd (hcreate.symm.trans hact) (by decide)
  · refine ⟨hold, ?_⟩
    simp only [Tree.paths, List.mem_map, List.mem_filter, decide_eq_true_eq]
    constructor
    · rintro ⟨e, ⟨he, hne⟩, rfl⟩
      exact ⟨⟨e, he, rfl⟩, hne⟩
    · rintro ⟨⟨e, he, rfl⟩, hne⟩
      exact ⟨e, ⟨he, hne⟩, rfl⟩

theorem childPath_ne (dir name : Path) : dir ≠ childPath dir name := by
  intro h
  have hlen : dir.length = (dir ++ '/' :: name).length := congrArg List.length h
  rw [List.length_append, List.length_cons] at hlen
  omega

/-- The directory an operation works in is still there after it. -/
theorem Operation.parent_mem (h : op.apply t = some u) : op.parent ∈ u.paths := by
  have hparent : op.parent ∈ t.paths :=
    List.mem_map_of_mem (Option.ite_none_right_eq_some.mp h).1
  rcases apply_cases h with ⟨hact, -⟩ | ⟨hact, -⟩
  · exact (mem_paths_of_create h hact).2.mpr (.inl hparent)
  · exact (mem_paths_of_delete h hact).2.mpr ⟨hparent, childPath_ne _ _⟩

/-! ## Watches and events -/

/-- An event in the queue: the operation it reports, and the watch descriptor of its directory. -/
structure Notice where
  op : Operation
  wd : ℤ
  deriving DecidableEq

/-- `IN_CREATE`. -/
def inCreate : ℕ := 0x100

/-- `IN_DELETE`. -/
def inDelete : ℕ := 0x200

/-- `IN_ISDIR`. -/
def inIsdir : ℕ := 0x40000000

/-- `struct inotify_event`. -/
structure InotifyEvent where
  wd : ℤ
  mask : ℕ
  name : Path
  deriving DecidableEq

/-- The bit that says which operation is reported. -/
def Act.mask : Act → ℕ
  | .create => inCreate
  | .delete => inDelete

/-- The bit that is set for a directory. -/
def Kind.mask : Kind → ℕ
  | .file => 0
  | .dir => inIsdir

/-- The event as a program reads it. -/
def Notice.event (n : Notice) : InotifyEvent where
  wd := n.wd
  mask := n.op.act.mask ||| n.op.kind.mask
  name := n.op.name

/-- What the kernel knows: the tree, the watches by descriptor, the next new descriptor, and the
events not read yet. -/
structure Kernel where
  tree : Tree
  watches : List (ℤ × Path)
  nextWd : ℤ
  queue : List Notice
  deriving DecidableEq

variable {k l : Kernel}

/-- The descriptor of the watch on what stands at the path. -/
def Kernel.wdOf (k : Kernel) (p : Path) : Option ℤ :=
  (k.watches.find? fun w => w.2 = p).map Prod.fst

/-- `stat`: what stands at the path. -/
def Kernel.stat (k : Kernel) (p : Path) : Option Kind :=
  (k.tree.find? fun e => e.path = p).map Entry.kind

/-- `inotify_add_watch`: the descriptor of the watch that is there already, or a new one; -1 when
nothing stands at the path. -/
def Kernel.inotifyAddWatch (k : Kernel) (p : Path) : ℤ × Kernel :=
  if p ∈ k.tree.paths then
    match k.wdOf p with
    | some wd => (wd, k)
    | none => (k.nextWd, { k with watches := (k.nextWd, p) :: k.watches, nextWd := k.nextWd + 1 })
  else (-1, k)

/-- `inotify_rm_watch`; nothing happens when there is no such watch. -/
def Kernel.inotifyRmWatch (k : Kernel) (wd : ℤ) : Kernel :=
  { k with watches := k.watches.filter fun w => w.1 ≠ wd }

/-- The watches after the operation. -/
def Kernel.watchesAfter (k : Kernel) (op : Operation) : List (ℤ × Path) :=
  match op.act with
  | .create => k.watches
  | .delete => k.watches.filter fun w => w.2 ≠ op.path

/-- An operation inside a watched directory, and the event it brings. -/
def Kernel.operate (k : Kernel) (op : Operation) : Option Kernel :=
  match k.wdOf op.parent with
  | none => none
  | some wd =>
    (op.apply k.tree).map fun t =>
      { k with tree := t, watches := k.watchesAfter op, queue := k.queue ++ [⟨op, wd⟩] }

theorem Kernel.mem_watches_of_wdOf {wd : ℤ} (h : k.wdOf p = some wd) : (wd, p) ∈ k.watches := by
  obtain ⟨⟨w, q⟩, hfind, rfl⟩ := Option.map_eq_some_iff.mp h
  have hq : q = p := by simpa using List.find?_some hfind
  exact hq ▸ List.mem_of_find?_eq_some hfind

theorem Kernel.mem_paths_of_stat {c : Kind} (h : k.stat p = some c) : p ∈ k.tree.paths := by
  obtain ⟨e, hfind, -⟩ := Option.map_eq_some_iff.mp h
  have hp : e.path = p := by simpa using List.find?_some hfind
  exact hp ▸ List.mem_map_of_mem (List.mem_of_find?_eq_some hfind)

theorem Kernel.watchesAfter_subset : k.watchesAfter op ⊆ k.watches := by
  unfold watchesAfter
  split
  · exact List.Subset.refl _
  · exact List.filter_sublist.subset

/-- What an operation inside a watched directory can do. -/
theorem Kernel.operate_cases (h : k.operate op = some l) :
    ∃ wd t, (wd, op.parent) ∈ k.watches ∧ op.apply k.tree = some t ∧
      l = { k with tree := t, watches := k.watchesAfter op, queue := k.queue ++ [⟨op, wd⟩] } := by
  unfold operate at h
  split at h
  · cases h
  · rename_i wd hwd
    obtain ⟨t, ht, rfl⟩ := Option.map_eq_some_iff.mp h
    exact ⟨wd, t, mem_watches_of_wdOf hwd, ht, rfl⟩

/-- **The queue accounts for the tree.**  If its operations lead from `u` to the tree, they still do
after one more. -/
theorem Kernel.replay_operate (hk : replay (k.queue.map Notice.op) u = some k.tree)
    (h : k.operate op = some l) : replay (l.queue.map Notice.op) u = some l.tree := by
  obtain ⟨wd, t, -, ht, rfl⟩ := operate_cases h
  show replay ((k.queue ++ [Notice.mk op wd]).map Notice.op) u = some t
  rw [List.map_append, replay, List.foldlM_append]
  have hk' : (k.queue.map Notice.op).foldlM (fun u op => op.apply u) u = some k.tree := hk
  rw [hk']
  simpa using ht

end InotifyTree
end CodeStrudy
