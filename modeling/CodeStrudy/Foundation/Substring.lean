import Mathlib.Data.List.Infix

/-!
# The first occurrence of a pattern in a list

`strstr` finds the first occurrence of a string in another, and `strchr` is the case of one
character.  A file of labelled fields is often read so: the label is searched for, then the next
separator, and the field begins behind that one.  `behind` is this search, over any type of
elements. What is searched is a string and what is scanned for the separator is all of the memory,
so the two lists are given apart.  Nothing in this file names a program.

## What is proved

* `findSub_eq_some_iff`, `skip_eq_some_iff`, `behind_eq_some_iff`: what is found, said without the
  search.
* `findSub_append_of_infix`, `findSub_append_cons`: where the first occurrence in a longer list is.
* `infix_append_cons_iff`: no occurrence goes over an element that the pattern does not have.
* `behind_of_infix`: an occurrence before a separator decides what is found, whatever comes behind
  that separator.
* `behind_of_not_infix`: with no such occurrence, the search ends behind the next separator.
-/

namespace CodeStrudy
namespace Foundation

variable {α : Type*}

theorem prefix_append_cons_iff {pat : List α} {a : α} (ha : a ∉ pat) (l r : List α) :
    pat <+: l ++ a :: r ↔ pat <+: l := by
  constructor
  · intro h
    rcases List.prefix_or_prefix_of_prefix h (List.prefix_append l (a :: r)) with hl | hl
    · exact hl
    · -- the pattern goes beyond `l`, but then the separator is in it
      obtain ⟨t, rfl⟩ := hl
      rw [List.prefix_append_right_inj] at h
      cases t with
      | nil => rw [List.append_nil]
      | cons c t =>
        rw [List.cons_prefix_cons] at h
        exact absurd (by simp [h.1]) ha
  · intro h
    exact h.trans (List.prefix_append l (a :: r))

/-- No occurrence goes over an element that the pattern does not have. -/
theorem infix_append_cons_iff {pat : List α} {a : α} (ha : a ∉ pat) (hne : pat ≠ [])
    (l r : List α) : pat <:+: l ++ a :: r ↔ pat <:+: l ∨ pat <:+: r := by
  induction l with
  | nil =>
    have hnot : ¬ pat <+: a :: r := fun h =>
      hne (List.prefix_nil.mp ((prefix_append_cons_iff ha [] r).mp h))
    rw [List.nil_append, List.infix_cons_iff, List.infix_nil]
    simp only [hnot, hne, false_or]
  | cons c l ih =>
    rw [List.cons_append, List.infix_cons_iff, ih, List.infix_cons_iff, ← List.cons_append,
      prefix_append_cons_iff ha, or_assoc]

theorem infix_concat_append_iff {pat : List α} {a : α} (ha : a ∉ pat) (hne : pat ≠ [])
    (l r : List α) : pat <:+: l ++ [a] ++ r ↔ pat <:+: l ++ [a] ∨ pat <:+: r := by
  rw [List.append_assoc, List.singleton_append, infix_append_cons_iff ha hne,
    infix_append_cons_iff ha hne, List.infix_nil, or_iff_left hne]

variable [DecidableEq α]

/-- The index of the first occurrence of a pattern. -/
def findSub (pat : List α) : List α → Option ℕ
  | [] => if pat = [] then some 0 else none
  | c :: l => if pat <+: c :: l then some 0 else (findSub pat l).map (· + 1)

example : findSub [2, 3] [1, 2, 2, 3, 4] = some 2 := by decide

theorem findSub_eq_none_iff {pat l : List α} : findSub pat l = none ↔ ¬ pat <:+: l := by
  induction l with
  | nil => simp [findSub]
  | cons c l ih =>
    rw [findSub, List.infix_cons_iff]
    split
    · rename_i h
      simp [h]
    · rename_i h
      rw [Option.map_eq_none_iff, ih]
      simp [h]

theorem exists_findSub_of_infix {pat l : List α} (h : pat <:+: l) :
    ∃ i, findSub pat l = some i := by
  cases hfind : findSub pat l with
  | none => exact absurd h (findSub_eq_none_iff.mp hfind)
  | some i => exact ⟨i, rfl⟩

theorem findSub_add_le {pat l : List α} {i : ℕ} (h : findSub pat l = some i) :
    i + pat.length ≤ l.length := by
  induction l generalizing i with
  | nil =>
    rw [findSub] at h
    split at h
    · rename_i hpat
      obtain rfl := Option.some.inj h
      rw [hpat, List.length_nil]
    · cases h
  | cons c l ih =>
    rw [findSub] at h
    split at h
    · rename_i hpre
      obtain rfl := Option.some.inj h
      rw [Nat.zero_add]
      exact hpre.length_le
    · obtain ⟨j, hj, rfl⟩ := Option.map_eq_some_iff.mp h
      have hle := ih hj
      rw [List.length_cons]
      omega

theorem findSub_le {pat l : List α} {i : ℕ} (h : findSub pat l = some i) : i ≤ l.length :=
  Nat.le_of_add_right_le (findSub_add_le h)

/-- What is found in a list is what is found in every list that goes on behind it. -/
theorem findSub_append_of_infix {pat l : List α} (h : pat <:+: l) (r : List α) :
    findSub pat (l ++ r) = findSub pat l := by
  induction l with
  | nil =>
    obtain rfl := List.infix_nil.mp h
    cases r <;> simp [findSub]
  | cons c l ih =>
    rw [List.cons_append, findSub, findSub]
    by_cases hpre : pat <+: c :: l
    · have hpre' : pat <+: c :: (l ++ r) := hpre.trans (List.prefix_append (c :: l) r)
      rw [if_pos hpre, if_pos hpre']
    · have hinfix : pat <:+: l := (List.infix_cons_iff.mp h).resolve_left hpre
      have hpre' : ¬ pat <+: c :: (l ++ r) := fun hlong =>
        hpre (List.prefix_of_prefix_length_le hlong (List.prefix_append (c :: l) r) h.length_le)
      rw [if_neg hpre, if_neg hpre', ih hinfix]

/-- A pattern that is not found before a separator is looked for behind it. -/
theorem findSub_append_cons {pat l : List α} {a : α} (ha : a ∉ pat) (hne : pat ≠ [])
    (h : ¬ pat <:+: l) (r : List α) :
    findSub pat (l ++ a :: r) = (findSub pat r).map (l.length + 1 + ·) := by
  induction l with
  | nil =>
    have hnot : ¬ pat <+: a :: r := fun hpre =>
      hne (List.prefix_nil.mp ((prefix_append_cons_iff ha [] r).mp hpre))
    rw [List.nil_append, findSub, if_neg hnot]
    simp only [List.length_nil, Nat.add_comm]
  | cons c l ih =>
    rw [List.infix_cons_iff, not_or] at h
    have hnot : ¬ pat <+: c :: (l ++ a :: r) := fun hpre =>
      h.1 ((prefix_append_cons_iff ha (c :: l) r).mp hpre)
    rw [List.cons_append, findSub, if_neg hnot, ih h.2, Option.map_map]
    refine congrArg (fun f => (findSub pat r).map f) (funext fun i => ?_)
    show l.length + 1 + i + 1 = l.length + 1 + 1 + i
    omega

/-- The first occurrence of one element. -/
theorem findSub_singleton {a : α} {y : List α} (h : a ∉ y) (r : List α) :
    findSub [a] (y ++ a :: r) = some y.length := by
  induction y with
  | nil => simp [findSub]
  | cons c y ih =>
    rw [List.mem_cons, not_or] at h
    rw [List.cons_append, findSub, if_neg (by simp [h.1]), ih h.2]
    rfl

theorem findSub_singleton_eq_some_iff {a : α} {l : List α} {i : ℕ} :
    findSub [a] l = some i ↔ ∃ y r, l = y ++ a :: r ∧ a ∉ y ∧ y.length = i := by
  constructor
  · intro h
    have hmem : a ∈ l := by
      by_contra hmem
      have hnone : findSub [a] l = none := findSub_eq_none_iff.mpr fun h =>
        hmem (h.subset (List.mem_singleton_self a))
      rw [hnone] at h
      cases h
    obtain ⟨y, r, rfl, hy⟩ := List.eq_append_cons_of_mem hmem
    exact ⟨y, r, rfl, hy, Option.some.inj ((findSub_singleton hy r).symm.trans h)⟩
  · rintro ⟨y, r, rfl, hy, rfl⟩
    exact findSub_singleton hy r

/-- The first occurrence: the pattern stands there, and nowhere before. -/
theorem findSub_eq_some_iff {pat l : List α} (hne : pat ≠ []) {i : ℕ} :
    findSub pat l = some i ↔
      ∃ a, a.length = i ∧ a ++ pat <+: l ∧ ¬ pat <:+: (a ++ pat).dropLast := by
  have hself : ¬ pat <:+: pat.dropLast := fun h => by
    have hle := h.length_le
    have hpos := List.length_pos_iff.mpr hne
    rw [List.length_dropLast] at hle
    omega
  induction l generalizing i with
  | nil =>
    rw [findSub, if_neg hne]
    refine iff_of_false (fun h => by cases h) ?_
    rintro ⟨a, -, hpre, -⟩
    exact hne (List.append_eq_nil_iff.mp (List.prefix_nil.mp hpre)).2
  | cons c l ih =>
    rw [findSub]
    by_cases hpre : pat <+: c :: l
    · rw [if_pos hpre]
      constructor
      · intro h
        exact ⟨[], Option.some.inj h, hpre, hself⟩
      · rintro ⟨a, rfl, ha, hfirst⟩
        cases a with
        | nil => rfl
        | cons d a =>
          -- the pattern stands at the front, so not only behind `d`
          refine absurd (List.IsPrefix.isInfix ?_) hfirst
          refine List.prefix_of_prefix_length_le hpre ((List.dropLast_prefix _).trans ha) ?_
          rw [List.length_dropLast, List.length_append, List.length_cons]
          omega
    · rw [if_neg hpre, Option.map_eq_some_iff]
      constructor
      · rintro ⟨j, hj, rfl⟩
        obtain ⟨a, rfl, ha, hfirst⟩ := ih.mp hj
        refine ⟨c :: a, rfl, (List.prefix_cons_inj c).mpr ha, ?_⟩
        have hnil : a ++ pat ≠ [] := fun h => hne (List.append_eq_nil_iff.mp h).2
        rw [List.cons_append, List.dropLast_cons_of_ne_nil hnil, List.infix_cons_iff, not_or]
        refine ⟨fun h => hpre (h.trans ((List.prefix_cons_inj c).mpr ?_)), hfirst⟩
        exact (List.dropLast_prefix _).trans ha
      · rintro ⟨a, rfl, ha, hfirst⟩
        cases a with
        | nil => exact absurd ha hpre
        | cons d a =>
          have hnil : a ++ pat ≠ [] := fun h => hne (List.append_eq_nil_iff.mp h).2
          rw [List.cons_append, List.cons_prefix_cons] at ha
          rw [List.cons_append, List.dropLast_cons_of_ne_nil hnil] at hfirst
          refine ⟨a.length, ih.mpr ⟨a, rfl, ha.2, fun h => ?_⟩, rfl⟩
          exact hfirst (h.trans (List.suffix_cons _ _).isInfix)

/-! ## Behind the separator that follows the pattern -/

/-- The index behind the first separator from an index on. -/
def skip (sep : α) (mem : List α) (i : ℕ) : Option ℕ :=
  (findSub [sep] (mem.drop i)).map (i + · + 1)

theorem skip_eq_some_iff {sep : α} {mem : List α} {i t : ℕ} :
    skip sep mem i = some t ↔
      ∃ y r, mem.drop i = y ++ sep :: r ∧ sep ∉ y ∧ i + y.length + 1 = t := by
  rw [skip, Option.map_eq_some_iff]
  constructor
  · rintro ⟨j, hj, rfl⟩
    obtain ⟨y, r, hmem, hy, rfl⟩ := findSub_singleton_eq_some_iff.mp hj
    exact ⟨y, r, hmem, hy, rfl⟩
  · rintro ⟨y, r, hmem, hy, rfl⟩
    exact ⟨y.length, findSub_singleton_eq_some_iff.mpr ⟨y, r, hmem, hy, rfl⟩, rfl⟩

/-- The index behind the first separator that follows the first occurrence of a pattern. -/
def behind (sep : α) (pat str mem : List α) : Option ℕ := (findSub pat str).bind (skip sep mem)

/-- The first separator behind the first occurrence, where the string is a part of the memory. -/
theorem behind_eq_some_iff {sep : α} {pat str mem : List α} {t : ℕ} (hsep : sep ∉ pat)
    (hne : pat ≠ []) (hstr : str <+: mem) :
    behind sep pat str mem = some t ↔
      ∃ a c r, mem = a ++ pat ++ (c ++ sep :: r) ∧ a ++ pat <+: str ∧
        ¬ pat <:+: (a ++ pat).dropLast ∧ sep ∉ c ∧ (a ++ pat ++ c).length + 1 = t := by
  rw [behind, Option.bind_eq_some_iff]
  constructor
  · rintro ⟨i, hi, hskip⟩
    obtain ⟨a, rfl, hpre, hfirst⟩ := (findSub_eq_some_iff hne).mp hi
    obtain ⟨s, rfl⟩ := hpre.trans hstr
    obtain ⟨y, r, hdrop, hy, rfl⟩ := skip_eq_some_iff.mp hskip
    rw [List.append_assoc, List.drop_left] at hdrop
    -- the separator is not in the pattern, so it is behind it
    rcases List.append_eq_append_iff.mp hdrop with ⟨c, rfl, rfl⟩ | ⟨d, hpat, hsplit⟩
    · rw [List.mem_append, not_or] at hy
      refine ⟨a, c, r, rfl, hpre, hfirst, hy.2, ?_⟩
      rw [List.append_assoc, List.length_append]
    · cases d with
      | nil =>
        obtain rfl : pat = y := hpat.trans (List.append_nil y)
        refine ⟨a, [], r, ?_, hpre, hfirst, List.not_mem_nil, ?_⟩
        · rw [← List.nil_append s, ← hsplit, List.nil_append]
        · rw [List.append_nil, List.length_append]
      | cons b d =>
        rw [List.cons_append, List.cons.injEq] at hsplit
        rw [hpat, hsplit.1] at hsep
        exact absurd (List.mem_append_right y List.mem_cons_self) hsep
  · rintro ⟨a, c, r, rfl, hpre, hfirst, hc, rfl⟩
    refine ⟨a.length, (findSub_eq_some_iff hne).mpr ⟨a, rfl, hpre, hfirst⟩, ?_⟩
    refine skip_eq_some_iff.mpr ⟨pat ++ c, r, ?_, ?_, ?_⟩
    · rw [List.append_assoc, List.drop_left, List.append_assoc]
    · rw [List.mem_append, not_or]
      exact ⟨hsep, hc⟩
    · rw [List.append_assoc, ← List.length_append]

/-- An occurrence before a separator decides what is found. -/
theorem behind_of_infix {pat l : List α} (h : pat <:+: l) (sep : α) :
    ∃ t ≤ l.length + 1, ∀ r r', behind sep pat (l ++ r) (l ++ sep :: r') = some t := by
  obtain ⟨i, hi⟩ := exists_findSub_of_infix h
  obtain ⟨y, z, hsplit, hy⟩ := List.eq_append_cons_of_mem
    (List.mem_append_right (l.drop i) (List.mem_singleton_self sep))
  refine ⟨i + y.length + 1, ?_, fun r r' => ?_⟩
  · have hlen := congrArg List.length hsplit
    have hle := findSub_le hi
    simp only [List.length_append, List.length_cons, List.length_drop, List.length_nil] at hlen
    omega
  · have hdrop : (l ++ sep :: r').drop i = y ++ sep :: (z ++ r') := by
      rw [List.drop_append_of_le_length (findSub_le hi), ← List.singleton_append,
        ← List.append_assoc, hsplit, List.append_assoc, List.cons_append]
    rw [behind, findSub_append_of_infix h, hi, Option.bind_some, skip, hdrop,
      findSub_singleton hy]
    rfl

/-- With no occurrence before a separator, what is found is the next separator behind it. -/
theorem behind_of_not_infix {pat l y : List α} {sep : α} (hsep : sep ∉ pat) (hne : pat ≠ [])
    (hl : ¬ pat <:+: l) (hy : pat <:+: y) (hysep : sep ∉ y) (r r' : List α) :
    behind sep pat (l ++ sep :: (y ++ r)) (l ++ sep :: (y ++ sep :: r')) =
      some (l.length + 1 + y.length + 1) := by
  obtain ⟨j, hj⟩ := exists_findSub_of_infix hy
  have hle := findSub_le hj
  have hdrop : (l ++ sep :: (y ++ sep :: r')).drop (l.length + 1 + j) =
      y.drop j ++ sep :: r' := by
    rw [Nat.add_assoc, List.drop_length_add_append, Nat.add_comm 1, List.drop_succ_cons,
      List.drop_append_of_le_length hle]
  rw [behind, findSub_append_cons hsep hne hl, findSub_append_of_infix hy, hj, Option.map_some,
    Option.bind_some, skip, hdrop, findSub_singleton fun hmem => hysep (List.mem_of_mem_drop hmem),
    Option.map_some, List.length_drop]
  congr 1
  omega

end Foundation
end CodeStrudy
