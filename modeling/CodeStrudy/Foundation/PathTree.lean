import Mathlib.Data.List.Infix
import Mathlib.Data.Set.Finite.Basic
import Mathlib.Data.Fintype.EquivFin

/-!
# Pathnames in a tree of files

A pathname is a list of components, and a tree of files says where they lead.  Two pathnames may
name the same file in one tree and not in another; what they name in every tree is known only from
the directories that every tree is assumed to have.  Nothing in this file names a program.

## What is proved

* `walk_eq_of_trace`: while a walk stays on the known directories, every tree agrees on it.
* `exists_trace_of_walk_eq`: in the tree `spread`, where no unknown name leads back, two walks along
  the same components meet only on known directories.
* `forall_walk_eq_iff`: when two pathnames that end alike name the same file in every tree.
-/

namespace CodeStrudy
namespace Foundation

/-- A component of a pathname. -/
inductive Component (ν : Type*)
  | here
  | up
  | name (x : ν)

/-- A tree of files.  A place in it is the list of the names that lead there from the root.  A name
in a directory leads to the place below, or, if it is a link, to any other, or nowhere. -/
structure PathTree (ν : Type*) where
  dir : List ν → Bool
  follow : List ν → ν → Option (List ν)
  dir_dropLast : ∀ q, dir q → dir q.dropLast

namespace PathTree

variable {ν : Type*}

/-- Where one component leads. -/
def step (t : PathTree ν) (q : List ν) (c : Component ν) : Option (List ν) :=
  if t.dir q then
    match c with
    | .here => some q
    | .up => some q.dropLast
    | .name x => t.follow q x
  else none

/-- Where a pathname leads. -/
def walk (t : PathTree ν) (q : List ν) (p : List (Component ν)) : Option (List ν) :=
  p.foldlM t.step q

/-- The place `wd` and those above it are directories, each below the one before. -/
structure Contains (t : PathTree ν) (wd : List ν) : Prop where
  dir : ∀ q, q <+: wd → t.dir q
  follow : ∀ q x, q ++ [x] <+: wd → t.follow q x = some (q ++ [x])

theorem walk_cons (t : PathTree ν) (q : List ν) (c : Component ν) (p : List (Component ν)) :
    t.walk q (c :: p) = (t.step q c).bind fun r => t.walk r p := rfl

theorem walk_append (t : PathTree ν) (q : List ν) (p p' : List (Component ν)) :
    t.walk q (p ++ p') = (t.walk q p).bind fun r => t.walk r p' := List.foldlM_append

theorem mem_append_replicate (r : List ν) (f : ν) (m : ℕ) :
    f ∈ r ++ List.replicate (m + 1) f :=
  List.mem_append_right _ (List.mem_replicate.mpr ⟨Nat.succ_ne_zero m, rfl⟩)

theorem not_isPrefix_append {wd v : List ν} {f : ν} (hf : f ∉ wd) (hv : f ∈ v) (l : List ν) :
    ¬ v ++ l <+: wd :=
  fun h => hf (h.subset (List.mem_append_left _ hv))

variable [DecidableEq ν] (wd : List ν)

/-- Where one component leads, as far as that is known. -/
def advance (q : List ν) : Component ν → Option (List ν)
  | .here => some q
  | .up => some q.dropLast
  | .name x => if q ++ [x] <+: wd then some (q ++ [x]) else none

/-- Where a pathname leads, as far as that is known. -/
def trace (q : List ν) (p : List (Component ν)) : Option (List ν) := p.foldlM (advance wd) q

variable {wd} {q r : List ν} {p : List (Component ν)} {c : Component ν}

theorem trace_append (q : List ν) (p p' : List (Component ν)) :
    trace wd q (p ++ p') = (trace wd q p).bind fun r => trace wd r p' := List.foldlM_append

theorem isPrefix_of_advance (hq : q <+: wd) (h : advance wd q c = some r) : r <+: wd := by
  cases c with
  | here => exact Option.some.inj h ▸ hq
  | up => exact Option.some.inj h ▸ (List.dropLast_prefix q).trans hq
  | name x =>
    rw [advance, Option.ite_none_right_eq_some] at h
    exact Option.some.inj h.2 ▸ h.1

theorem step_eq_of_advance {t : PathTree ν} (ht : t.Contains wd) (hq : q <+: wd)
    (h : advance wd q c = some r) : t.step q c = some r := by
  unfold step
  rw [if_pos (ht.dir q hq)]
  cases c with
  | here => exact h
  | up => exact h
  | name x =>
    rw [advance, Option.ite_none_right_eq_some] at h
    exact (ht.follow q x h.1).trans h.2

/-- **Known steps are the same in every tree.** -/
theorem walk_eq_of_trace {t : PathTree ν} (ht : t.Contains wd) (hq : q <+: wd)
    (h : trace wd q p = some r) : t.walk q p = some r := by
  induction p generalizing q with
  | nil => exact h
  | cons c p ih =>
    obtain ⟨q', hstep, hrest⟩ := Option.bind_eq_some_iff.mp h
    rw [walk_cons, step_eq_of_advance ht hq hstep]
    exact ih (isPrefix_of_advance hq hstep) hrest

/-- The names that lead to a known directory. -/
theorem trace_names {l : List ν} (h : q ++ l <+: wd) :
    trace wd q (l.map .name) = some (q ++ l) := by
  induction l generalizing q with
  | nil => exact congrArg some (List.append_nil q).symm
  | cons x l ih =>
    rw [List.append_cons] at h ⊢
    have hstep : advance wd q (.name x) = some (q ++ [x]) :=
      if_pos ((List.prefix_append _ l).trans h)
    rw [List.map_cons, trace, List.foldlM_cons, hstep]
    exact ih h

/-! ## A tree in which nothing unknown leads back -/

variable (wd) (f : ν) (n m : ℕ)

/-- In every directory a name that is not known leads far down below it. -/
def spread : PathTree ν where
  dir _ := true
  follow q x := some (if q ++ [x] <+: wd then q ++ [x] else q ++ x :: List.replicate n f)
  dir_dropLast _ _ := rfl

/-- A place in that tree: a known directory, or one that is still more than `m` levels below
anything else. -/
inductive Stands : Option (List ν) → List ν → Prop
  | known {q : List ν} (h : q <+: wd) : Stands (some q) q
  | away (r : List ν) : Stands none (r ++ List.replicate (m + 1) f)

theorem contains_spread : (spread wd f n).Contains wd where
  dir _ _ := rfl
  follow _ _ h := congrArg some (if_pos h)

variable {wd f n m} {o o' : Option (List ν)} {v w : List ν}

/-- One step costs at most one level. -/
theorem Stands.step (hf : f ∉ wd) (hm : m < n) (h : Stands wd f (m + 1) o v) (c : Component ν) :
    ∃ v', (spread wd f n).step v c = some v' ∧
      Stands wd f m (o.bind fun q => advance wd q c) v' := by
  obtain ⟨j, hj⟩ := Nat.exists_eq_add_of_lt hm
  have hn : List.replicate n f = List.replicate j f ++ List.replicate (m + 1) f := by
    rw [List.replicate_append_replicate, hj]
    congr 1
    omega
  cases h with
  | @known q hq =>
    cases c with
    | here => exact ⟨v, rfl, .known hq⟩
    | up => exact ⟨v.dropLast, rfl, .known ((List.dropLast_prefix v).trans hq)⟩
    | name x =>
      refine ⟨_, rfl, ?_⟩
      rw [Option.bind_some, advance]
      by_cases hx : v ++ [x] <+: wd
      · rw [if_pos hx, if_pos hx]
        exact .known hx
      · rw [if_neg hx, if_neg hx, hn, ← List.cons_append, ← List.append_assoc]
        exact .away _
  | away r =>
    have hr : r ++ List.replicate (m + 1 + 1) f = r ++ [f] ++ List.replicate (m + 1) f := by
      rw [List.append_assoc, List.singleton_append, ← List.replicate_succ]
    cases c with
    | here => exact ⟨_, rfl, hr ▸ .away _⟩
    | up =>
      refine ⟨_, rfl, ?_⟩
      rw [List.replicate_succ', ← List.append_assoc, List.dropLast_concat]
      exact .away r
    | name x =>
      refine ⟨_, rfl, ?_⟩
      rw [if_neg (not_isPrefix_append hf (mem_append_replicate r f _) [x]), hn, ← List.cons_append,
        ← List.append_assoc]
      exact .away _

omit [DecidableEq ν] in
theorem Stands.eq_of_some (h : Stands wd f m (some q) v) : v = q ∧ q <+: wd := by
  cases h with
  | known hq => exact ⟨rfl, hq⟩

omit [DecidableEq ν] in
theorem Stands.mem_of_none (h : Stands wd f m none v) : f ∈ v := by
  cases h with
  | away r => exact mem_append_replicate r f m

omit [DecidableEq ν] in
/-- A place that is not known is left upwards to the level above. -/
theorem Stands.eq_of_dropLast (h : Stands wd f (m + 1) none v) (h' : Stands wd f (m + 1) none w)
    (heq : v.dropLast = w.dropLast) : v = w := by
  cases h with
  | away r =>
    cases h' with
    | away r' =>
      rw [List.replicate_succ', ← List.append_assoc, ← List.append_assoc, List.dropLast_concat,
        List.dropLast_concat] at heq
      rw [List.append_cancel_right heq]

/-- What is not known of a name. -/
theorem Stands.follow_eq (hf : f ∉ wd) (h : Stands wd f m o v) {x : ν}
    (hx : (o.bind fun q => advance wd q (.name x)) = none) :
    (spread wd f n).follow v x = some (v ++ x :: List.replicate n f) := by
  refine congrArg some (if_neg ?_)
  cases h with
  | known hq =>
    rw [Option.bind_some, advance, ite_eq_right_iff] at hx
    exact fun hmem => Option.some_ne_none _ (hx hmem)
  | away r => exact not_isPrefix_append hf (mem_append_replicate r f m) [x]

/-- Two steps with the same component to one place that is not known start from one place. -/
theorem Stands.eq_of_step (hf : f ∉ wd) (h : Stands wd f (m + 1) o v)
    (h' : Stands wd f (m + 1) o' w) (ho : (o.bind fun q => advance wd q c) = none)
    (ho' : (o'.bind fun q => advance wd q c) = none)
    (heq : (spread wd f n).step v c = (spread wd f n).step w c) : v = w := by
  cases c with
  | here => exact Option.some.inj heq
  | up =>
    cases o with
    | some q => cases ho
    | none =>
      cases o' with
      | some q => cases ho'
      | none => exact h.eq_of_dropLast h' (Option.some.inj heq)
  | name x =>
    have hboth : some (v ++ x :: List.replicate n f) = some (w ++ x :: List.replicate n f) :=
      ((h.follow_eq hf ho).symm.trans heq).trans (h'.follow_eq hf ho')
    exact List.append_cancel_right (Option.some.inj hboth)

/-- Two steps with the same component come together only on known directories. -/
theorem Stands.known_of_step (hf : f ∉ wd) (hm : m < n) (h : Stands wd f (m + 1) o v)
    (h' : Stands wd f (m + 1) o' w) (hne : v ≠ w) (hv : (spread wd f n).step v c = some r)
    (hw : (spread wd f n).step w c = some r) :
    (o.bind fun q => advance wd q c) = some r ∧ (o'.bind fun q => advance wd q c) = some r := by
  obtain ⟨r₁, hr₁, hs⟩ := h.step hf hm c
  obtain rfl := Option.some.inj (hr₁.symm.trans hv)
  obtain ⟨r₂, hr₂, hs'⟩ := h'.step hf hm c
  obtain rfl := Option.some.inj (hr₂.symm.trans hw)
  cases ho : o.bind fun q => advance wd q c with
  | some q =>
    rw [ho] at hs
    obtain ⟨rfl, hq⟩ := hs.eq_of_some
    cases ho' : o'.bind fun q => advance wd q c with
    | some q' =>
      rw [ho'] at hs'
      exact ⟨rfl, congrArg some hs'.eq_of_some.1.symm⟩
    | none =>
      rw [ho'] at hs'
      exact absurd (hq.subset hs'.mem_of_none) hf
  | none =>
    rw [ho] at hs
    cases ho' : o'.bind fun q => advance wd q c with
    | some q' =>
      rw [ho'] at hs'
      obtain ⟨rfl, hq⟩ := hs'.eq_of_some
      exact absurd (hq.subset hs.mem_of_none) hf
    | none => exact absurd (h.eq_of_step hf h' ho ho' (hv.trans hw.symm)) hne

/-- A walk in that tree. -/
theorem Stands.walk (hf : f ∉ wd) (hn : m + p.length ≤ n) (h : Stands wd f (m + p.length) o v) :
    ∃ v', (spread wd f n).walk v p = some v' ∧
      Stands wd f m (o.bind fun q => trace wd q p) v' := by
  induction p generalizing o v with
  | nil => exact ⟨v, rfl, by simpa [trace] using h⟩
  | cons c p ih =>
    rw [List.length_cons, ← Nat.add_assoc] at hn h
    obtain ⟨u, hu, hstands⟩ := Stands.step (n := n) (m := m + p.length) hf (by omega) h c
    obtain ⟨v', hv', hend⟩ := ih (by omega) hstands
    refine ⟨v', by rw [walk_cons, hu]; exact hv', ?_⟩
    rwa [Option.bind_assoc] at hend

/-- **Two walks along the same components meet only on known directories.** -/
theorem exists_trace_of_walk_eq (hf : f ∉ wd) (hn : p.length ≤ n)
    (h : Stands wd f p.length o v) (h' : Stands wd f p.length o' w) (hne : v ≠ w)
    (heq : (spread wd f n).walk v p = (spread wd f n).walk w p) :
    ∃ p₁ p₂ r, p = p₁ ++ p₂ ∧ (o.bind fun q => trace wd q p₁) = some r ∧
      (o'.bind fun q => trace wd q p₁) = some r := by
  induction p generalizing o o' v w with
  | nil => exact absurd (Option.some.inj heq) hne
  | cons c p ih =>
    rw [List.length_cons] at hn h h'
    obtain ⟨v', hv', hs⟩ := Stands.step (n := n) hf (by omega) h c
    obtain ⟨w', hw', hs'⟩ := Stands.step (n := n) hf (by omega) h' c
    by_cases hmeet : v' = w'
    · obtain ⟨ho, ho'⟩ := h.known_of_step hf (by omega) h' hne hv' (hmeet ▸ hw')
      refine ⟨[c], p, v', rfl, ?_, ?_⟩
      · simpa [trace] using ho
      · simpa [trace] using ho'
    · rw [walk_cons, walk_cons, hv', hw'] at heq
      obtain ⟨p₁, p₂, r, hp, ho, ho'⟩ := ih (by omega) hs hs' hmeet heq
      rw [Option.bind_assoc] at ho ho'
      exact ⟨c :: p₁, p₂, r, congrArg (c :: ·) hp, ho, ho'⟩

/-- **When two pathnames name the same file in every tree.**  One is taken from `wd`; the other goes
through `p` first.  They do exactly if, after some of the components, both are known to be in the
same directory. -/
theorem forall_walk_eq_iff [Infinite ν] (hq : q <+: wd) (p p' : List (Component ν)) :
    (∀ t : PathTree ν, t.Contains wd → t.walk wd p' = t.walk q (p ++ p')) ↔
      ∃ p₁ p₂ r, p' = p₁ ++ p₂ ∧ trace wd wd p₁ = some r ∧ trace wd q (p ++ p₁) = some r := by
  constructor
  · intro h
    obtain ⟨f, hf⟩ := Infinite.exists_notMem_finset wd.toFinset
    rw [List.mem_toFinset] at hf
    obtain ⟨v, hv, hs⟩ := Stands.walk (n := p.length + p'.length) (m := p'.length) (p := p) hf
      (by omega) (.known hq)
    have heq := h _ (contains_spread wd f (p.length + p'.length))
    rw [walk_append, hv, Option.bind_some] at heq
    rw [Option.bind_some] at hs
    by_cases hmeet : v = wd
    · -- both are in the working directory at once
      subst hmeet
      cases ho : trace v q p with
      | some r =>
        rw [ho] at hs
        refine ⟨[], p', v, rfl, rfl, ?_⟩
        rw [List.append_nil, ho, hs.eq_of_some.1]
      | none =>
        rw [ho] at hs
        exact absurd hs.mem_of_none hf
    · obtain ⟨p₁, p₂, r, hp, ho, ho'⟩ := exists_trace_of_walk_eq hf (by omega) hs
        (.known (List.prefix_refl wd)) hmeet heq.symm
      refine ⟨p₁, p₂, r, hp, ho', ?_⟩
      rwa [trace_append]
  · rintro ⟨p₁, p₂, r, rfl, hr, hr'⟩ t ht
    rw [← List.append_assoc, walk_append, walk_append, walk_eq_of_trace ht (List.prefix_refl wd) hr,
      walk_eq_of_trace ht hq hr']

end PathTree

end Foundation
end CodeStrudy
