import CodeStrudy.Foundation.CString
import CodeStrudy.Foundation.PathTree

/-!
# `myRealpath`

The function reads a symbolic link and returns the working directory, a slash, and what the link
contains, whatever the link contains and wherever it is.

## What is proved

* `names_iff`: when the string that is returned names what the link refers to.
* `myRealpath_meets_iff`: the same of a call.
-/

namespace CodeStrudy
namespace Realpath

open Foundation PathTree

/-- The size of the buffers. -/
def PATH_MAX : ℕ := 4096

/-- `'/'` -/
def slash : UInt8 := 0x2f

/-- `'.'` -/
def dot : UInt8 := 0x2e

/-! ## Pathnames -/

/-- A file name: a component that is not one of those with a meaning of their own. -/
abbrev Name := {l : List UInt8 // l ≠ [] ∧ l ≠ [dot] ∧ l ≠ [dot, dot]}

/-- What a component means.  An empty one comes from slashes in a row or at the end, and asks for a
directory as a dot does. -/
def component (l : List UInt8) : Component Name :=
  if h : l ≠ [] ∧ l ≠ [dot] ∧ l ≠ [dot, dot] then .name ⟨l, h⟩
  else if l = [dot, dot] then .up
  else .here

/-- The components of a pathname. -/
def components (p : List UInt8) : List (Component Name) := (p.splitOn slash).map component

/-- A working directory: the names that lead to it from the root. -/
structure Cwd where
  names : List Name
  slash_notMem : ∀ x ∈ names, slash ∉ x.val
  zero_notMem : ∀ x ∈ names, 0 ∉ x.val

/-- What `getcwd` returns for it. -/
def Cwd.pathname (wd : Cwd) : List UInt8 :=
  slash :: [slash].intercalate (wd.names.map Subtype.val)

/-- The pathname begins at the root. -/
def Absolute (p : List UInt8) : Prop := p.head? = some slash

instance (p : List UInt8) : Decidable (Absolute p) := inferInstanceAs (Decidable (_ = _))

/-- Where a pathname is taken from. -/
def start (wd : Cwd) (p : List UInt8) : List Name := if Absolute p then [] else wd.names

/-- The file that a pathname names. -/
def resolve (t : PathTree Name) (wd : Cwd) (p : List UInt8) : Option (List Name) :=
  t.walk (start wd p) (components p)

/-! ## The function -/

/-- `readlink`: what fits the buffer of the contents of the link. -/
def readlink (links : CStr → Option CStr) (pathname : CStr) (bufsiz : ℕ) : Option (List UInt8) :=
  (links pathname).map fun target => target.chars.take bufsiz

/-- `getcwd` fails when the pathname and its zero byte do not fit the buffer. -/
def getcwd (wd : Cwd) (size : ℕ) : Option (List UInt8) :=
  if wd.pathname.length < size then some wd.pathname else none

/-- What comes of a call. -/
inductive Outcome
  | fails
  | outOfRange
  | returns (s : List UInt8)

/-- `myRealpath`, with a buffer of `PATH_MAX` bytes for the result or with none.  The contents of a
link have no zero byte, so `%s` writes all that was read. -/
def myRealpath (links : CStr → Option CStr) (wd : Cwd) (malloc : Bool) (pathname : CStr)
    (resolved_path : Bool) : Outcome :=
  if resolved_path = false ∧ malloc = false then .fails
  else
    match readlink links pathname PATH_MAX with
    | none => .fails
    | some tempLink =>
      if PATH_MAX ≤ tempLink.length then .outOfRange
      else
        match getcwd wd PATH_MAX with
        | none => .fails
        | some tempcwd =>
          if (tempcwd ++ slash :: tempLink).length < PATH_MAX then
            .returns (tempcwd ++ slash :: tempLink)
          else .outOfRange

/-! ## What it should do -/

/-- The file that a link refers to: its target, taken from the directory that contains the link. -/
def refersTo (t : PathTree Name) (wd : Cwd) (pathname target : CStr) : Option (List Name) :=
  if Absolute target.chars then t.walk [] (components target.chars)
  else (t.walk (start wd pathname.chars) (components pathname.chars).dropLast).bind fun d =>
    t.walk d (components target.chars)

/-- The string fits its buffer and, whatever the tree of files around the working directory is,
names the file that the link refers to. -/
def Names (wd : Cwd) (pathname target : CStr) (s : List UInt8) : Prop :=
  s.length < PATH_MAX ∧
    ∀ t : PathTree Name, t.Contains wd.names → resolve t wd s = refersTo t wd pathname target

/-- The call fails, or it returns such a string. -/
def Good (wd : Cwd) (pathname target : CStr) : Outcome → Prop
  | .fails => True
  | .outOfRange => False
  | .returns s => Names wd pathname target s

/-- `myRealpath` does what it should whenever `readlink` and `getcwd` succeed. -/
def Meets (links : CStr → Option CStr) (wd : Cwd) (malloc : Bool) (pathname : CStr)
    (resolved_path : Bool) : Prop :=
  ∀ target, links pathname = some target → wd.pathname.length < PATH_MAX →
    Good wd pathname target (myRealpath links wd malloc pathname resolved_path)

/-! ## When it does -/

/-- What leads to the place the target is taken from: nothing from the root, or all components of
the link but its last. -/
def base (wd : Cwd) (pathname target : CStr) : List Name × List (Component Name) :=
  if Absolute target.chars then ([], [])
  else (start wd pathname.chars, (components pathname.chars).dropLast)

/-- After some components of the target, possibly none, it is known that the walk from the working
directory and the walk from where the target is taken from are in the same directory. -/
def Together (wd : Cwd) (pathname target : CStr) : Prop :=
  ∃ p₁ p₂ d, components target.chars = p₁ ++ p₂ ∧ trace wd.names wd.names p₁ = some d ∧
    trace wd.names (base wd pathname target).1 ((base wd pathname target).2 ++ p₁) = some d

variable {wd : Cwd} {pathname target : CStr} {t : PathTree Name}

theorem components_append (p p' : List UInt8) :
    components (p ++ slash :: p') = components p ++ components p' := by
  rw [components, List.splitOn_append_cons_self, List.map_append]
  rfl

theorem components_nil : components [] = [.here] := by
  rw [components, List.splitOn_nil]
  rfl

theorem component_val (x : Name) : component x.val = .name x := dif_pos x.property

/-- The pathname of the working directory leads there. -/
theorem walk_pathname (ht : t.Contains wd.names) :
    t.walk [] (components wd.pathname) = some wd.names := by
  have hroot : t.dir [] := ht.dir [] List.nil_prefix
  have hslash : components wd.pathname =
      .here :: components ([slash].intercalate (wd.names.map Subtype.val)) :=
    components_append [] _
  have hhere : t.step [] .here = some [] := by
    unfold step
    rw [if_pos hroot]
  rw [hslash, walk_cons, hhere, Option.bind_some]
  by_cases hnil : wd.names = []
  · rw [hnil]
    show t.walk [] (components []) = some []
    rw [components_nil, walk_cons, hhere]
    rfl
  · have hsplit : components ([slash].intercalate (wd.names.map Subtype.val)) =
        wd.names.map .name := by
      rw [components, List.splitOn_intercalate, List.map_map]
      · exact List.map_congr_left fun x _ => component_val x
      · intro l hl
        obtain ⟨x, hx, rfl⟩ := List.mem_map.mp hl
        exact wd.slash_notMem x hx
      · rwa [Ne, List.map_eq_nil_iff]
    rw [hsplit]
    exact walk_eq_of_trace ht List.nil_prefix (trace_names (List.prefix_refl _))

/-- What the function returns is the target taken from the working directory. -/
theorem resolve_returned (ht : t.Contains wd.names) (target : CStr) :
    resolve t wd (wd.pathname ++ slash :: target.chars) =
      t.walk wd.names (components target.chars) := by
  have hstart : start wd (wd.pathname ++ slash :: target.chars) = [] := if_pos rfl
  rw [resolve, hstart, components_append, walk_append, walk_pathname ht]
  rfl

theorem refersTo_eq (t : PathTree Name) (wd : Cwd) (pathname target : CStr) :
    refersTo t wd pathname target =
      t.walk (base wd pathname target).1
        ((base wd pathname target).2 ++ components target.chars) := by
  unfold refersTo base
  by_cases habs : Absolute target.chars
  · rw [if_pos habs, if_pos habs]
    rfl
  · rw [if_neg habs, if_neg habs, walk_append]

theorem isPrefix_base (wd : Cwd) (pathname target : CStr) :
    (base wd pathname target).1 <+: wd.names := by
  unfold base start
  split_ifs
  · exact List.nil_prefix
  · exact List.nil_prefix
  · exact List.prefix_refl _

instance : Infinite Name :=
  Infinite.of_injective
    (fun n : ℕ => ⟨List.replicate (n + 1) slash, by simp [List.replicate_succ, slash, dot]⟩)
    fun m n h => by simpa using congrArg (fun x : Name => x.val.length) h

/-- **The string names what the link refers to**, in every tree of files, exactly if the two walks
are known to be together. -/
theorem names_iff (wd : Cwd) (pathname target : CStr) :
    Names wd pathname target (wd.pathname ++ slash :: target.chars) ↔
      wd.pathname.length + 1 + target.chars.length < PATH_MAX ∧ Together wd pathname target := by
  have hlen : (wd.pathname ++ slash :: target.chars).length =
      wd.pathname.length + 1 + target.chars.length := by
    rw [List.length_append, List.length_cons]
    omega
  have hsame := forall_walk_eq_iff (isPrefix_base wd pathname target) (base wd pathname target).2
    (components target.chars)
  rw [Names, hlen, Together, ← hsame]
  refine and_congr_right' (forall_congr' fun t => forall_congr' fun ht => ?_)
  rw [resolve_returned ht, refersTo_eq]

/-- What the function does with the contents of the link. -/
theorem good_myRealpath_iff {links : CStr → Option CStr} {malloc resolved_path : Bool}
    (hlink : links pathname = some target) (hcwd : wd.pathname.length < PATH_MAX)
    (hbuffer : ¬ (resolved_path = false ∧ malloc = false)) :
    Good wd pathname target (myRealpath links wd malloc pathname resolved_path) ↔
      Names wd pathname target (wd.pathname ++ slash :: target.chars) := by
  have hread : readlink links pathname PATH_MAX = some (target.chars.take PATH_MAX) := by
    rw [readlink, hlink]
    rfl
  have hgetcwd : getcwd wd PATH_MAX = some wd.pathname := if_pos hcwd
  rw [myRealpath, if_neg hbuffer, hread, hgetcwd]
  dsimp only
  by_cases hlong : PATH_MAX ≤ target.chars.length
  · rw [if_pos (by rw [List.length_take]; omega)]
    refine iff_of_false not_false fun h => ?_
    have := h.1
    rw [List.length_append, List.length_cons] at this
    omega
  · rw [List.take_of_length_le (by omega), if_neg hlong]
    by_cases hfits : (wd.pathname ++ slash :: target.chars).length < PATH_MAX
    · rw [if_pos hfits]
      rfl
    · rw [if_neg hfits]
      exact iff_of_false not_false fun h => hfits h.1

/-- **What a call does.** It fails or returns a pathname of what the link refers to exactly if there
is no memory for the result, or the result fits and the walks from the working directory and from
where the target is taken from are known to come together. -/
theorem myRealpath_meets_iff (links : CStr → Option CStr) (wd : Cwd) (malloc : Bool)
    (pathname : CStr) (resolved_path : Bool) : Meets links wd malloc pathname resolved_path ↔
      ∀ target, links pathname = some target → wd.pathname.length < PATH_MAX →
        (resolved_path = false ∧ malloc = false) ∨
          (wd.pathname.length + 1 + target.chars.length < PATH_MAX ∧
            Together wd pathname target) := by
  refine forall_congr' fun target => forall_congr' fun hlink => forall_congr' fun hcwd => ?_
  by_cases hbuffer : resolved_path = false ∧ malloc = false
  · rw [myRealpath, if_pos hbuffer]
    exact iff_of_true trivial (.inl hbuffer)
  · rw [good_myRealpath_iff hlink hcwd hbuffer, names_iff, or_iff_right hbuffer]

/-- In the directory `/w`, a link to `/t`: the string is `/w//t`. -/
theorem not_myRealpath_meets : ¬ ∀ links wd malloc pathname resolved_path,
    Meets links wd malloc pathname resolved_path := by
  intro h
  have hmeets := h (fun _ => some ⟨[slash, 0x74], by decide⟩)
    ⟨[⟨[0x77], by decide⟩], by decide, by decide⟩ true ⟨[0x6c], by decide⟩ true _ rfl (by decide)
  have hnames := (good_myRealpath_iff (by rfl) (by decide) (by decide)).mp hmeets
  have hsame := hnames.2 ⟨fun _ => true, fun q x => some (q ++ [x]), fun _ _ => rfl⟩
    ⟨fun _ _ => rfl, fun _ _ _ => rfl⟩
  exact absurd hsame (by decide +kernel)

end Realpath
end CodeStrudy
