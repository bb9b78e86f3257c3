import CodeStrudy.Foundation.CString
import CodeStrudy.Foundation.PtrArray
import Mathlib.Data.List.GetD

/-!
# The environment

`environ` is an array of pointers to strings that ends with a null pointer.  An entry
`name=value` defines a variable; the environment may hold several entries for one name, of which
the first counts, and entries without `=`.  `getenv` and `putenv` are the library's.

## What is proved

* `getenv_putenv_self`, `getenv_putenv_of_ne`: what `putenv` does to what `getenv` finds.
* `lookup_filter`: taking entries away keeps what it finds for a name whose entries are kept.
-/

namespace CodeStrudy
namespace Environ

open Foundation

/-- The byte `=`. -/
def equals : UInt8 := 0x3d

/-- A string of the environment, and the byte that memory holds behind its terminating zero. -/
structure Entry where
  str : CStr
  next : UInt8

/-- `(*ep)[i]`. -/
def Entry.charAt (e : Entry) (i : ℕ) : UInt8 := (e.str.chars ++ [0, e.next]).getD i 0

theorem Entry.charAt_ne_zero {e : Entry} {i : ℕ} (h : i < e.str.chars.length) :
    e.charAt i ≠ 0 := by
  rw [charAt, List.getD_append _ _ _ _ h, List.getD_eq_getElem _ _ h]
  exact fun hzero => e.str.zero_notMem (hzero ▸ List.getElem_mem h)

/-- The name that an entry defines: the text before its first `=`. -/
def Entry.varName (e : Entry) : Option (List UInt8) :=
  if equals ∈ e.str.chars then some (e.str.chars.takeWhile (· != equals)) else none

/-- A name that a variable can have. -/
def IsName (name : List UInt8) : Prop := name ≠ [] ∧ equals ∉ name

instance (name : List UInt8) : Decidable (IsName name) := inferInstanceAs (Decidable (_ ∧ _))

/-- Whether `strncmp` returns zero: the strings agree in their first `n` characters, or end
before. -/
def strncmpEq : List UInt8 → List UInt8 → ℕ → Bool
  | _, _, 0 => true
  | [], [], _ + 1 => true
  | a :: as, b :: bs, n + 1 => a == b && strncmpEq as bs n
  | _, _, _ => false

/-- Compared over the length of the second string, it tells whether the first begins with it. -/
theorem strncmpEq_iff (a b : List UInt8) : strncmpEq a b b.length = true ↔ b <+: a := by
  induction b generalizing a with
  | nil => simp [strncmpEq]
  | cons y b ih =>
    cases a with
    | nil => simp [strncmpEq]
    | cons x a =>
      rw [List.length_cons, strncmpEq, Bool.and_eq_true, beq_iff_eq, ih, List.cons_prefix_cons]
      exact and_congr_left fun _ => eq_comm

/-! ## Entries of one name -/

theorem takeWhile_append_equals {name : List UInt8} (h : equals ∉ name) (rest : List UInt8) :
    (name ++ equals :: rest).takeWhile (· != equals) = name := by
  have hall : ∀ b ∈ name, (b != equals) = true := by
    intro b hb
    rw [bne_iff_ne]
    rintro rfl
    exact h hb
  rw [List.takeWhile_append_of_pos hall, List.takeWhile_cons_of_neg (by simp), List.append_nil]

/-- An entry defines a name exactly if it begins with the name and `=`. -/
theorem varName_eq_some_iff {name : List UInt8} (h : equals ∉ name) (e : Entry) :
    e.varName = some name ↔ name ++ [equals] <+: e.str.chars := by
  unfold Entry.varName
  constructor
  · intro hvar
    split at hvar
    · rename_i hmem
      obtain ⟨pre, rest, hsplit, hpre⟩ := List.eq_append_cons_of_mem hmem
      rw [hsplit, takeWhile_append_equals hpre] at hvar
      obtain rfl := Option.some.inj hvar
      exact ⟨rest, by rw [hsplit, List.append_assoc, List.singleton_append]⟩
    · cases hvar
  · rintro ⟨rest, hrest⟩
    rw [← hrest, List.append_assoc, List.singleton_append, if_pos (by simp),
      takeWhile_append_equals h]

/-- A name that an entry begins with, without the `=` behind it, is a beginning of the name that
the entry defines. -/
theorem isPrefix_iff_of_varName {name n : List UInt8} (h : equals ∉ name) (hn : equals ∉ n)
    {e : Entry} (hvar : e.varName = some n) : name <+: e.str.chars ↔ name <+: n := by
  have hpre := (varName_eq_some_iff hn e).mp hvar
  constructor
  · intro hname
    rcases List.prefix_or_prefix_of_prefix hname hpre with hle | hle
    · -- the name is at most the other name and its `=`
      rcases List.prefix_concat_iff.mp hle with heq | hle
      · exact absurd (heq ▸ List.mem_append_right n (List.mem_singleton_self equals)) h
      · exact hle
    · exact absurd (hle.subset (List.mem_append_right n (List.mem_singleton_self equals))) h
  · exact fun hle => hle.trans ((List.prefix_append n [equals]).trans hpre)

/-! ## Looking up -/

/-- The value in an entry, if it is one for the name. -/
def valueOf (name : List UInt8) (e : Entry) : Option (List UInt8) :=
  if name ++ [equals] <+: e.str.chars then some (e.str.chars.drop (name.length + 1)) else none

/-- The value in the first entry for the name. -/
def lookup (es : List Entry) (name : List UInt8) : Option (List UInt8) :=
  es.findSome? (valueOf name)

def getenv (env : PtrArray Entry) (name : List UInt8) : Option (List UInt8) :=
  if name = [] then none else lookup env.entries name

theorem valueOf_eq_none_iff {name : List UInt8} (h : equals ∉ name) (e : Entry) :
    valueOf name e = none ↔ e.varName ≠ some name := by
  rw [ne_eq, varName_eq_some_iff h, valueOf]
  by_cases hpre : name ++ [equals] <+: e.str.chars
  · rw [if_pos hpre]
    exact iff_of_false (Option.some_ne_none _) (not_not_intro hpre)
  · rw [if_neg hpre]
    exact iff_of_true rfl hpre

theorem lookup_eq_none_iff {name : List UInt8} (h : equals ∉ name) (es : List Entry) :
    lookup es name = none ↔ ∀ e ∈ es, e.varName ≠ some name := by
  rw [lookup, List.findSome?_eq_none_iff]
  exact forall₂_congr fun e _ => valueOf_eq_none_iff h e

/-- What keeps all entries of a name keeps its value. -/
theorem lookup_filter {name : List UInt8} (h : equals ∉ name) {keep : Entry → Bool}
    {es : List Entry} (hkeep : ∀ e ∈ es, e.varName = some name → keep e = true) :
    lookup (es.filter keep) name = lookup es name := by
  induction es with
  | nil => rfl
  | cons e es ih =>
    have ih := ih fun e' he' => hkeep e' (List.mem_cons_of_mem e he')
    by_cases he : keep e = true
    · rw [List.filter_cons_of_pos he, lookup, List.findSome?_cons, ← lookup, ih]
      rfl
    · have hnone : valueOf name e = none :=
        (valueOf_eq_none_iff h e).mpr fun hvar => he (hkeep e List.mem_cons_self hvar)
      rw [List.filter_cons_of_neg he, ih, lookup, lookup, List.findSome?_cons, hnone]

/-! ## Putting an entry in -/

/-- The entries after `new` has taken the place of the first entry for the name, or has been added
behind them. -/
def put (name : List UInt8) (new : Entry) : List Entry → List Entry
  | [] => [new]
  | e :: es => if e.varName = some name then new :: es else e :: put name new es

/-- `putenv` when it succeeds; a string without `=` takes its variable away, if it is not empty. -/
def putenv (new : Entry) (env : PtrArray Entry) : PtrArray Entry :=
  match new.varName with
  | some name => .ofList (put name new env.entries)
  | none =>
    .ofList (env.entries.filter fun e => new.str.chars = [] ∨ e.varName ≠ some new.str.chars)

theorem lookup_put_self {name : List UInt8} (h : equals ∉ name) {new : Entry}
    (hnew : new.varName = some name) (es : List Entry) :
    lookup (put name new es) name = some (new.str.chars.drop (name.length + 1)) := by
  have hval : valueOf name new = some (new.str.chars.drop (name.length + 1)) :=
    if_pos ((varName_eq_some_iff h new).mp hnew)
  induction es with
  | nil => rw [put, lookup, List.findSome?_cons, hval]
  | cons e es ih =>
    rw [put]
    split
    · rw [lookup, List.findSome?_cons, hval]
    · rename_i he
      rw [lookup, List.findSome?_cons, (valueOf_eq_none_iff h e).mpr he]
      exact ih

theorem lookup_put_of_ne {name n : List UInt8} (hn : equals ∉ n) (hne : n ≠ name) {new : Entry}
    (hnew : new.varName = some name) (es : List Entry) :
    lookup (put name new es) n = lookup es n := by
  have hother : ∀ e : Entry, e.varName = some name → valueOf n e = none := fun e he =>
    (valueOf_eq_none_iff hn e).mpr fun h => hne (Option.some.inj (h.symm.trans he))
  induction es with
  | nil =>
    rw [put, lookup, List.findSome?_cons, hother new hnew]
    rfl
  | cons e es ih =>
    rw [put]
    split
    · rename_i he
      rw [lookup, lookup, List.findSome?_cons, List.findSome?_cons, hother new hnew, hother e he]
    · rw [lookup, lookup, List.findSome?_cons, List.findSome?_cons]
      cases valueOf n e with
      | none => exact ih
      | some v => rfl

theorem getenv_putenv_self {name : List UInt8} (h : IsName name) {new : Entry}
    (hnew : new.varName = some name) (env : PtrArray Entry) :
    getenv (putenv new env) name = some (new.str.chars.drop (name.length + 1)) := by
  rw [getenv, if_neg h.1, putenv, hnew]
  show lookup (PtrArray.ofList (put name new env.entries)).entries name = _
  rw [PtrArray.entries_ofList, lookup_put_self h.2 hnew]

theorem getenv_putenv_of_ne {name n : List UInt8} (hn : IsName n) (hne : n ≠ name) {new : Entry}
    (hnew : new.varName = some name) (env : PtrArray Entry) :
    getenv (putenv new env) n = getenv env n := by
  rw [getenv, getenv, if_neg hn.1, if_neg hn.1, putenv, hnew]
  show lookup (PtrArray.ofList (put name new env.entries)).entries n = _
  rw [PtrArray.entries_ofList, lookup_put_of_ne hn.2 hne hnew]

end Environ
end CodeStrudy
