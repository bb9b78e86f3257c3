import Mathlib.Data.List.DropRight
import Mathlib.Data.List.Infix

/-!
# Lists with a separator

A path is components with slashes between them, and there may be several slashes in a row and
slashes at the end.  Here the separator is any element of any type.  `strip` drops the separators at
the end of a list, `squeeze` makes one separator of every run of them, and `normalForm` does the
second and then takes away the one separator that may be left at the end.  Nothing in this file
names a program.

## What is proved

* `normalForm_eq_squeeze_strip`: the normal form is the list without the separators at its end, with
  its runs made one.
* `squeeze_append_cons`: what becomes of a list that is split at its last separator.
* `squeeze_eq_self_iff`: a list is left as it is exactly if it has no two separators in a row.
* `length_squeeze_add_doubled`: what is left out are the separators that stand behind one.
-/

namespace CodeStrudy
namespace Foundation

variable {α : Type*} [DecidableEq α] (a : α)

/-! ## Separators at the end -/

/-- The list without the separators at its end. -/
def strip (l : List α) : List α := l.rdropWhile (· = a)

/-- What stands behind the last separator. -/
def lastPart (l : List α) : List α := l.rtakeWhile (· ≠ a)

/-- What stands before the last part, without the separators between them. -/
def initPart (l : List α) : List α := strip a (l.rdropWhile (· ≠ a))

variable {a}

theorem decide_ne_of_notMem {l : List α} (h : a ∉ l) : ∀ c ∈ l, decide (c ≠ a) = true := by
  intro c hc
  rw [decide_eq_true_iff]
  rintro rfl
  exact h hc

@[simp] theorem strip_concat_self (l : List α) : strip a (l ++ [a]) = strip a l :=
  List.rdropWhile_concat_pos _ _ _ (by simp)

theorem strip_concat_of_ne {c : α} (h : c ≠ a) (l : List α) : strip a (l ++ [c]) = l ++ [c] :=
  List.rdropWhile_concat_neg _ _ _ (by simpa using h)

theorem strip_of_notMem {l : List α} (h : a ∉ l) : strip a l = l := by
  refine List.rdropWhile_eq_self_iff.mpr fun hl => ?_
  rw [decide_eq_true_iff]
  exact fun hlast => h (hlast ▸ List.getLast_mem hl)

theorem strip_eq_nil_iff {l : List α} : strip a l = [] ↔ ∀ c ∈ l, c = a := by
  rw [strip, List.rdropWhile_eq_nil_iff]
  simp

/-- A list is its stripped part and separators. -/
theorem exists_eq_strip_append (a : α) (l : List α) :
    ∃ k, l = strip a l ++ List.replicate k a := by
  induction l using List.reverseRecOn with
  | nil => exact ⟨0, rfl⟩
  | append_singleton l c ih =>
    by_cases h : c = a
    · subst h
      obtain ⟨k, hk⟩ := ih
      refine ⟨k + 1, ?_⟩
      rw [strip_concat_self, List.replicate_succ', ← List.append_assoc, ← hk]
    · exact ⟨0, by rw [strip_concat_of_ne h, List.replicate_zero, List.append_nil]⟩

omit [DecidableEq α] in
/-- A list in which the separator occurs is split at its last one. -/
theorem exists_eq_append_cons_of_mem {l : List α} (h : a ∈ l) :
    ∃ u v, l = u ++ a :: v ∧ a ∉ v := by
  obtain ⟨v, u, hsplit, hv⟩ := List.eq_append_cons_of_mem (List.mem_reverse.mpr h)
  refine ⟨u.reverse, v.reverse, ?_, fun hmem => hv (List.mem_reverse.mp hmem)⟩
  have hrev := congrArg List.reverse hsplit
  rw [List.reverse_reverse] at hrev
  rw [hrev]
  simp

theorem lastPart_append_cons (u : List α) {v : List α} (hv : a ∉ v) :
    lastPart a (u ++ a :: v) = v := by
  unfold lastPart
  induction v using List.reverseRecOn with
  | nil => exact List.rtakeWhile_concat_neg _ _ _ (by simp)
  | append_singleton v c ih =>
    have hc : c ≠ a := fun hc => hv (by simp [hc])
    rw [← List.cons_append, ← List.append_assoc,
      List.rtakeWhile_concat_pos _ _ _ (by simpa using hc),
      ih fun hmem => hv (List.mem_append_left _ hmem)]

theorem rdropWhile_ne_of_notMem {l : List α} (h : a ∉ l) : l.rdropWhile (· ≠ a) = [] :=
  List.rdropWhile_eq_nil_iff.mpr (decide_ne_of_notMem h)

theorem rdropWhile_ne_append_cons (u v : List α) :
    (u ++ a :: v).rdropWhile (· ≠ a) = u ++ a :: v.rdropWhile (· ≠ a) := by
  induction v using List.reverseRecOn with
  | nil => exact List.rdropWhile_concat_neg _ _ _ (by simp)
  | append_singleton v c ih =>
    rw [← List.cons_append, ← List.append_assoc]
    by_cases hc : c = a
    · rw [List.rdropWhile_concat_neg _ _ _ (by simpa using hc),
        List.rdropWhile_concat_neg _ _ _ (by simpa using hc), List.append_assoc, List.cons_append]
    · rw [List.rdropWhile_concat_pos _ _ _ (by simpa using hc),
        List.rdropWhile_concat_pos _ _ _ (by simpa using hc), ih]

/-- What stands up to the last separator, of a list that goes on before it. -/
theorem rdropWhile_ne_append (u : List α) {v : List α} (hv : a ∈ v) :
    (u ++ v).rdropWhile (· ≠ a) = u ++ v.rdropWhile (· ≠ a) := by
  obtain ⟨w, z, rfl⟩ := List.append_of_mem hv
  rw [← List.append_assoc, rdropWhile_ne_append_cons, rdropWhile_ne_append_cons, List.append_assoc]

theorem initPart_append_cons (u : List α) {v : List α} (hv : a ∉ v) :
    initPart a (u ++ a :: v) = strip a u := by
  rw [initPart, rdropWhile_ne_append_cons, rdropWhile_ne_of_notMem hv, strip_concat_self]

theorem lastPart_of_notMem {l : List α} (h : a ∉ l) : lastPart a l = l :=
  List.rtakeWhile_eq_self_iff.mpr (decide_ne_of_notMem h)

/-! ## Runs of separators -/

variable (a)

/-- The list with every run of separators made one; the flag says whether a separator stands before
it. -/
def squeezeFrom : Bool → List α → List α
  | _, [] => []
  | flag, c :: l => if c = a ∧ flag then squeezeFrom flag l else c :: squeezeFrom (c = a) l

/-- The list with every run of separators made one. -/
def squeeze (l : List α) : List α := squeezeFrom a false l

/-- Whether a separator stands before what follows the list. -/
def flagAfter : Bool → List α → Bool
  | flag, [] => flag
  | _, c :: l => flagAfter (c = a) l

/-- Runs of separators made one, and then one separator at the end taken away. -/
def normalForm (l : List α) : List α :=
  if (squeeze a l).getLast? = some a then (squeeze a l).dropLast else squeeze a l

variable {a}

theorem squeezeFrom_sublist (flag : Bool) (l : List α) :
    (squeezeFrom a flag l).Sublist l := by
  induction l generalizing flag with
  | nil => exact List.Sublist.refl []
  | cons c l ih =>
    rw [squeezeFrom]
    split
    · exact (ih flag).cons c
    · exact (ih _).cons_cons c

theorem squeezeFrom_append (flag : Bool) (l m : List α) :
    squeezeFrom a flag (l ++ m) = squeezeFrom a flag l ++ squeezeFrom a (flagAfter a flag l) m := by
  induction l generalizing flag with
  | nil => rfl
  | cons c l ih =>
    rw [List.cons_append, squeezeFrom, squeezeFrom, flagAfter]
    split
    · rename_i h
      rw [ih, h.2, decide_eq_true h.1]
    · rw [ih, List.cons_append]

theorem flagAfter_concat (flag : Bool) (l : List α) (c : α) :
    flagAfter a flag (l ++ [c]) = decide (c = a) := by
  induction l generalizing flag with
  | nil => rfl
  | cons d l ih => exact ih _

/-- What is stripped does not end with a separator. -/
theorem flagAfter_strip (l : List α) : flagAfter a false (strip a l) = false := by
  induction l using List.reverseRecOn with
  | nil => rfl
  | append_singleton l c ih =>
    by_cases h : c = a
    · rw [h, strip_concat_self, ih]
    · rw [strip_concat_of_ne h, flagAfter_concat, decide_eq_false h]

theorem squeezeFrom_of_notMem {l : List α} (h : a ∉ l) (flag : Bool) :
    squeezeFrom a flag l = l := by
  induction l generalizing flag with
  | nil => rfl
  | cons c l ih =>
    have hc : c ≠ a := fun hc => h (by simp [hc])
    rw [squeezeFrom, if_neg fun hand => hc hand.1, ih fun hmem => h (List.mem_cons_of_mem c hmem)]

theorem squeezeFrom_true_replicate (k : ℕ) : squeezeFrom a true (List.replicate k a) = [] := by
  induction k with
  | zero => rfl
  | succ k ih =>
    rw [List.replicate_succ, squeezeFrom, if_pos ⟨rfl, rfl⟩, ih]

/-- A run of separators behind a stripped list becomes one separator. -/
theorem squeeze_strip_append_replicate (l : List α) (k : ℕ) :
    squeeze a (strip a l ++ List.replicate (k + 1) a) = squeeze a (strip a l) ++ [a] := by
  rw [squeeze, squeezeFrom_append, flagAfter_strip, List.replicate_succ, squeezeFrom,
    if_neg fun h => Bool.false_ne_true h.2, decide_eq_true rfl, squeezeFrom_true_replicate]
  rfl

/-- A list is squeezed to its stripped beginning, one separator, and its last part. -/
theorem squeeze_append_cons (u : List α) {v : List α} (hv : a ∉ v) :
    squeeze a (u ++ a :: v) = squeeze a (strip a u) ++ a :: v := by
  obtain ⟨k, hk⟩ := exists_eq_strip_append a u
  have hsplit : u ++ a :: v = (strip a u ++ List.replicate (k + 1) a) ++ v := by
    rw [List.replicate_succ', ← List.append_assoc, ← hk]
    simp
  rw [hsplit, squeeze, squeezeFrom_append, squeezeFrom_of_notMem hv]
  show squeeze a _ ++ v = _
  rw [squeeze_strip_append_replicate]
  simp

theorem squeeze_of_notMem {l : List α} (h : a ∉ l) : squeeze a l = l :=
  squeezeFrom_of_notMem h false

/-- The last element stays. -/
theorem getLast?_squeeze (l : List α) : (squeeze a l).getLast? = l.getLast? := by
  induction l using List.reverseRecOn with
  | nil => rfl
  | append_singleton l c ih =>
    rw [squeeze, squeezeFrom_append, List.getLast?_concat, squeezeFrom]
    split
    · rename_i h
      -- the separator that is left out stands behind another one
      have hlast : l.getLast? = some a := by
        induction l using List.reverseRecOn with
        | nil => exact absurd h.2 Bool.false_ne_true
        | append_singleton l d _ =>
          rw [flagAfter_concat] at h
          rw [List.getLast?_concat, of_decide_eq_true h.2]
      rw [squeezeFrom, List.append_nil, h.1]
      exact ih.trans hlast
    · exact List.getLast?_concat

/-- **The normal form** is the list without the separators at its end, with its runs made one. -/
theorem normalForm_eq_squeeze_strip (l : List α) : normalForm a l = squeeze a (strip a l) := by
  obtain ⟨k, hk⟩ := exists_eq_strip_append a l
  unfold normalForm
  cases k with
  | zero =>
    have hself : strip a l = l := by simpa using hk.symm
    have hlast : l.getLast? ≠ some a := by
      intro h
      obtain ⟨m, rfl⟩ := List.getLast?_eq_some_iff.mp h
      have hlen := congrArg List.length hself
      rw [strip_concat_self] at hlen
      have hle := (List.rdropWhile_prefix (fun c => decide (c = a)) m).length_le
      rw [List.length_append, List.length_singleton] at hlen
      unfold strip at hlen
      omega
    rw [getLast?_squeeze, if_neg hlast, hself]
  | succ k =>
    have hsqueeze : squeeze a l = squeeze a (strip a l) ++ [a] := by
      rw [← squeeze_strip_append_replicate l k, ← hk]
    rw [hsqueeze, List.getLast?_concat, if_pos rfl, List.dropLast_concat]

theorem normalForm_sublist (l : List α) : (normalForm a l).Sublist l := by
  rw [normalForm_eq_squeeze_strip]
  exact (squeezeFrom_sublist false _).trans (List.rdropWhile_prefix _ _).sublist

/-- The normal form of a list that has a separator before its last part. -/
theorem normalForm_of_mem {l : List α} (h : a ∈ strip a l) :
    normalForm a l = squeeze a (initPart a (strip a l)) ++ a :: lastPart a (strip a l) := by
  obtain ⟨u, v, hsplit, hv⟩ := exists_eq_append_cons_of_mem h
  rw [normalForm_eq_squeeze_strip, hsplit, squeeze_append_cons u hv, initPart_append_cons u hv,
    lastPart_append_cons u hv]

theorem normalForm_of_notMem {l : List α} (h : a ∉ strip a l) : normalForm a l = strip a l := by
  rw [normalForm_eq_squeeze_strip, squeeze_of_notMem h]

theorem notMem_lastPart (l : List α) : a ∉ lastPart a l := by
  intro h
  have hne := List.mem_rtakeWhile_imp h
  rw [decide_eq_true_iff] at hne
  exact hne rfl

/-! ### Lists without runs -/

/-- With or without a separator before it, a list is left as it is exactly if nowhere one follows on
another. -/
theorem squeezeFrom_eq_self_iff (flag : Bool) (l : List α) :
    squeezeFrom a flag l = l ↔ ¬ [a, a] <:+: if flag then a :: l else l := by
  induction l generalizing flag with
  | nil => cases flag <;> simp [squeezeFrom, List.infix_cons_iff]
  | cons c l ih =>
    rw [squeezeFrom]
    by_cases h : c = a ∧ flag
    · rw [if_pos h]
      obtain ⟨rfl, hflag⟩ := h
      refine iff_of_false (fun heq => ?_) (not_not_intro ?_)
      · have hle := (squeezeFrom_sublist (a := c) flag l).length_le
        rw [heq, List.length_cons] at hle
        omega
      · rw [hflag, if_pos rfl]
        exact ⟨[], l, rfl⟩
    · rw [if_neg h, List.cons_eq_cons, and_iff_right rfl, ih]
      by_cases hc : c = a
      · have hflag : flag = false := by simpa [hc] using h
        simp [hc, hflag]
      · cases flag <;> simp [hc, List.infix_cons_iff, Ne.symm hc]

theorem squeeze_eq_self_iff {l : List α} : squeeze a l = l ↔ ¬ [a, a] <:+: l := by
  rw [squeeze, squeezeFrom_eq_self_iff, if_neg Bool.false_ne_true]

/-! ### How many separators are left out -/

variable (a)

/-- The number of separators that stand behind a separator. -/
def doubled (l : List α) : ℕ := (l.zip l.tail).count (a, a)

variable {a}

theorem doubled_cons_self (l : List α) : doubled a (a :: a :: l) = doubled a (a :: l) + 1 :=
  List.count_cons_self

theorem doubled_cons_of_ne {c : α} (h : c ≠ a) (l : List α) : doubled a (c :: l) = doubled a l := by
  cases l with
  | nil => rfl
  | cons d l => exact List.count_cons_of_ne fun heq => h (congrArg Prod.fst heq)

/-- With or without a separator before it, a list loses the separators that stand behind one. -/
theorem length_squeezeFrom_add_doubled (flag : Bool) (l : List α) :
    (squeezeFrom a flag l).length + doubled a (if flag then a :: l else l) = l.length := by
  induction l generalizing flag with
  | nil => cases flag <;> rfl
  | cons c l ih =>
    rw [squeezeFrom]
    by_cases hc : c = a
    · have hself := ih true
      rw [if_pos rfl] at hself
      subst hc
      cases flag with
      | true =>
        rw [if_pos ⟨rfl, rfl⟩, if_pos rfl, doubled_cons_self, List.length_cons]
        omega
      | false =>
        rw [if_neg fun h => Bool.false_ne_true h.2, if_neg Bool.false_ne_true, decide_eq_true rfl,
          List.length_cons, List.length_cons]
        omega
    · have hother := ih false
      have hflag : doubled a (if flag then a :: c :: l else c :: l) = doubled a l := by
        cases flag with
        | true =>
          rw [if_pos rfl]
          have hne : (a, c) ≠ (a, a) := fun heq => hc (congrArg Prod.snd heq)
          exact (List.count_cons_of_ne hne).trans (doubled_cons_of_ne hc l)
        | false => exact doubled_cons_of_ne hc l
      rw [if_neg Bool.false_ne_true] at hother
      rw [if_neg fun h => hc h.1, decide_eq_false hc, List.length_cons, List.length_cons, hflag]
      omega

/-- How long a list is with its runs made one. -/
theorem length_squeeze_add_doubled (l : List α) :
    (squeeze a l).length + doubled a l = l.length :=
  length_squeezeFrom_add_doubled false l

end Foundation
end CodeStrudy
