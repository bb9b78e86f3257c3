import Mathlib.Data.BitVec
import Mathlib.Data.List.GetD

/-!
# Machine integers and their bytes

An `int` is a `BitVec 32`, read as a signed number by `toInt`.  In memory it is four bytes, the low
one first.  `ofBytes_toBytes` is the round trip that a record needs which is written byte by byte
at one end of a channel and read back at the other.
-/

namespace CodeStrudy
namespace Foundation

/-- A C `int`. -/
abbrev CInt := BitVec 32

namespace CInt

/-- A number that is within an `int` is its own value. -/
theorem toInt_ofNat_of_lt {n : ℕ} (h : n < 2147483648) : (BitVec.ofNat 32 n).toInt = n := by
  rw [BitVec.toInt_ofNat', Int.bmod]
  split <;> omega

/-- The four bytes of an `int`, the low one first. -/
def toBytes (v : CInt) : List UInt8 :=
  [⟨v.extractLsb' 0 8⟩, ⟨v.extractLsb' 8 8⟩, ⟨v.extractLsb' 16 8⟩, ⟨v.extractLsb' 24 8⟩]

/-- The `int` whose bytes are the first four of a list; missing bytes count as zero. -/
def ofBytes (bs : List UInt8) : CInt :=
  (bs.getD 3 0).toBitVec ++ (bs.getD 2 0).toBitVec ++ (bs.getD 1 0).toBitVec ++
    (bs.getD 0 0).toBitVec

@[simp] theorem length_toBytes (v : CInt) : v.toBytes.length = 4 := rfl

theorem ofBytes_append {bs : List UInt8} (h : bs.length = 4) (rest : List UInt8) :
    ofBytes (bs ++ rest) = ofBytes bs := by
  have hget : ∀ i < 4, (bs ++ rest).getD i 0 = bs.getD i 0 := fun i hi =>
    List.getD_append _ _ _ _ (h ▸ hi)
  unfold ofBytes
  rw [hget 0 (by decide), hget 1 (by decide), hget 2 (by decide), hget 3 (by decide)]

theorem ofBytes_toBytes (v : CInt) : ofBytes v.toBytes = v := by
  apply BitVec.eq_of_getLsbD_eq
  intro i hi
  show (v.extractLsb' 24 8 ++ v.extractLsb' 16 8 ++ v.extractLsb' 8 8 ++
    v.extractLsb' 0 8).getLsbD i = v.getLsbD i
  simp only [BitVec.getLsbD_append, BitVec.getLsbD_extractLsb']
  rcases (by omega : i < 8 ∨ (8 ≤ i ∧ i < 16) ∨ (16 ≤ i ∧ i < 24) ∨ (24 ≤ i ∧ i < 32)) with
    h | ⟨h, h'⟩ | ⟨h, h'⟩ | ⟨h, h'⟩
  · simp [h]
  · simp [show ¬ i < 8 by omega, show i - 8 < 8 by omega, show 8 + (i - 8) = i by omega]
  · simp [show ¬ i < 8 by omega, show ¬ i - 8 < 8 by omega, show i - 8 - 8 < 8 by omega,
      show 16 + (i - 8 - 8) = i by omega]
  · simp [show ¬ i < 8 by omega, show ¬ i - 8 < 8 by omega, show ¬ i - 8 - 8 < 8 by omega,
      show i - 8 - 8 - 8 < 8 by omega, show 24 + (i - 8 - 8 - 8) = i by omega]

end CInt

end Foundation
end CodeStrudy
