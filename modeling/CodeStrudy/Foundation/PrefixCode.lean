import Mathlib.Data.List.Infix

/-!
# Codes in which no word begins another

A text is written by putting the words for its symbols one behind the other.  If no word is empty
and none is the beginning of the word of another symbol, the symbols can be told from the text.
Nothing in this file names a program.
-/

namespace CodeStrudy
namespace Foundation

variable {α β : Type*}

/-- No word is empty or the beginning of another. -/
structure PrefixCode (word : α → List β) : Prop where
  ne_nil : ∀ a, word a ≠ []
  eq_of_begins : ∀ a b, word a <+: word b → a = b

/-- Different texts of symbols are written differently. -/
theorem PrefixCode.flatMap_injective {word : α → List β} (hword : PrefixCode word) :
    Function.Injective (List.flatMap word) := by
  have hnil : ∀ {a as}, [] ≠ List.flatMap word (a :: as) := by
    intro a as h
    rw [List.flatMap_cons] at h
    exact hword.ne_nil a (List.append_eq_nil_iff.mp h.symm).1
  intro as
  induction as with
  | nil =>
    rintro (_ | ⟨b, bs⟩) h
    · rfl
    · exact absurd h hnil
  | cons a as ih =>
    rintro (_ | ⟨b, bs⟩) h
    · exact absurd h.symm hnil
    · rw [List.flatMap_cons, List.flatMap_cons] at h
      have hab : a = b := by
        have hb : word b <+: word a ++ as.flatMap word := h ▸ List.prefix_append _ _
        rcases List.prefix_or_prefix_of_prefix (List.prefix_append _ _) hb with hbegins | hbegins
        · exact hword.eq_of_begins a b hbegins
        · exact (hword.eq_of_begins b a hbegins).symm
      subst hab
      rw [ih (List.append_cancel_left h)]

end Foundation
end CodeStrudy
