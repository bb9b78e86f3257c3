import CodeStrudy.Foundation.CInt
import CodeStrudy.GetNum.GetNum

/-!
# The key of a file, put together by hand

`practice/45.1` prints the key that `ftok` makes of a file and a number, and the word that it puts
together itself from the low byte of the number, the low byte of the minor device number and the low
half of the inode number.  Its temporaries are a `char`, a `char` and a `short`.  They are signed: a
field whose highest bit is set fills all the fields above it.

## What is proved

* `calcu_eq_ftok_iff`: the two words are equal exactly if no field is filled that is not full
  already.
* `equal_iff_of_main`: when the program says so.
-/

namespace CodeStrudy
namespace Ftok

open Foundation GetNum

/-- What the program uses of `struct stat`. -/
structure Stat where
  st_dev : BitVec 64
  st_ino : BitVec 64

/-- The three temporaries as one `int`. -/
def calcu (proj devNum : BitVec 8) (inode : BitVec 16) : CInt :=
  proj.signExtend 32 <<< 24 ||| devNum.signExtend 32 <<< 16 ||| inode.signExtend 32 <<< 0

/-- The same with the fields as they are. -/
def word (proj devNum : BitVec 8) (inode : BitVec 16) : CInt :=
  proj.setWidth 32 <<< 24 ||| devNum.setWidth 32 <<< 16 ||| inode.setWidth 32

section

-- The macro that takes the minor number out of a device number.
variable (MINOR : BitVec 64 → BitVec 64)

/-- What `ftok` makes of a file and a number. -/
def ftok (status : Stat) (proj : CInt) : CInt :=
  word (proj.setWidth 8) ((MINOR status.st_dev).setWidth 8) (status.st_ino.setWidth 16)

/-- What the program prints about its file. -/
structure Keys where
  key : CInt
  proj : BitVec 8
  devNum : BitVec 8
  inode : BitVec 16
  calcu : CInt
  equal : Bool
  deriving DecidableEq

/-- How the program ends. -/
inductive Outcome where
  | usage
  | failed (msg : String)
  | printed (keys : Keys)
  deriving DecidableEq

/-- The temporary file: whether it can be opened, and what `stat` says about it. -/
structure TempFile where
  opens : Bool
  status : Option Stat

def atoi (s : CStr) : CInt := BitVec.ofInt 32 (strtol s.chars 10).value

/-- `proj` as `main` sets it. -/
def projOf (argv : List CStr) : BitVec 8 :=
  if charArgc argv.length > 1 then (argv[1]?.map atoi).elim 1 (BitVec.setWidth 8) else 1

/-- The part of `main` behind the `open` of the file. -/
def report (proj : BitVec 8) (status : Stat) : Outcome :=
  let key := ftok MINOR status (proj.signExtend 32)
  if key = -1 then .failed "ftok failed!"
  else
    let inode : BitVec 16 := status.st_ino.setWidth 16
    let devNum : BitVec 8 := (MINOR status.st_dev).setWidth 8
    .printed {
      key := key
      proj := proj
      devNum := devNum
      inode := inode
      calcu := calcu proj devNum inode
      equal := calcu proj devNum inode == key }

def main (argv : List CStr) (temp : TempFile) : Outcome :=
  if charArgc argv.length > 1 ∧ argv[1]?.map CStr.chars = some (ascii "--help") then .usage
  else if temp.opens then temp.status.elim (.failed "ftok failed!") (report MINOR (projOf argv))
  else .failed "open temp.txt file failed!"

end

/-! ## The bits of a word -/

variable {p d : BitVec 8} {i : BitVec 16} {k : ℕ}

theorem getLsbD_fields (x y z : CInt) (hk : k < 32) :
    (x <<< 24 ||| y <<< 16 ||| z).getLsbD k =
      (!decide (k < 24) && x.getLsbD (k - 24) || !decide (k < 16) && y.getLsbD (k - 16) ||
        z.getLsbD k) := by
  simp only [BitVec.getLsbD_or, BitVec.getLsbD_shiftLeft, hk, decide_true, Bool.true_and]

/-- In the word each bit is from one field. -/
theorem getLsbD_word (hk : k < 32) : (word p d i).getLsbD k =
    if k < 16 then i.getLsbD k else if k < 24 then d.getLsbD (k - 16) else p.getLsbD (k - 24) := by
  have hfields := getLsbD_fields (p.setWidth 32) (d.setWidth 32) (i.setWidth 32) hk
  have hp : (p.setWidth 32).getLsbD (k - 24) = p.getLsbD (k - 24) := by
    rw [BitVec.getLsbD_setWidth, decide_eq_true (by omega), Bool.true_and]
  have hd : (d.setWidth 32).getLsbD (k - 16) = d.getLsbD (k - 16) := by
    rw [BitVec.getLsbD_setWidth, decide_eq_true (by omega), Bool.true_and]
  have hi : (i.setWidth 32).getLsbD k = i.getLsbD k := by
    rw [BitVec.getLsbD_setWidth, decide_eq_true hk, Bool.true_and]
  unfold word
  rw [hfields, hp, hd, hi]
  split_ifs with hlow hmid
  · simp [hlow, show k < 24 by omega]
  · simp [hlow, hmid, BitVec.getLsbD_of_ge i k (by omega)]
  · simp [hlow, hmid, BitVec.getLsbD_of_ge i k (by omega),
      BitVec.getLsbD_of_ge d (k - 16) (by omega)]

/-- In the program's word the highest bit of a field is in all bits above it as well. -/
theorem getLsbD_calcu (hk : k < 32) : (calcu p d i).getLsbD k =
    if k < 16 then i.getLsbD k
    else if k < 24 then (d.getLsbD (k - 16) || i.msb)
    else (p.getLsbD (k - 24) || d.msb || i.msb) := by
  have hfields := getLsbD_fields (p.signExtend 32) (d.signExtend 32) (i.signExtend 32) hk
  unfold calcu
  rw [BitVec.shiftLeft_zero, hfields]
  simp only [BitVec.getLsbD_signExtend, hk, show k - 24 < 32 by omega, show k - 16 < 32 by omega,
    decide_true, Bool.true_and]
  rcases (by omega : k < 16 ∨ (¬ k < 16 ∧ k < 24) ∨ ¬ k < 16 ∧ ¬ k < 24) with h | ⟨h, h'⟩ | ⟨h, h'⟩
  · simp [h, show k < 24 by omega]
  · simp [h, h', show k - 16 < 8 by omega]
  · simp [h, h', show k - 24 < 8 by omega, show ¬ k - 16 < 8 by omega]

/-- All bits of a byte are ones if filling it with ones changes nothing. -/
theorem eq_allOnes_of_or {b : BitVec 8} (fill : Bool) (hfill : fill = true)
    (h : ∀ k < 8, (b.getLsbD k || fill) = b.getLsbD k) : b = .allOnes 8 := by
  apply BitVec.eq_of_getLsbD_eq
  intro k hk
  rw [BitVec.getLsbD_allOnes, decide_eq_true hk, ← h k hk, hfill, Bool.or_true]

/-- The words are equal exactly if every field is full above which a lower one spills. -/
theorem calcu_eq_word_iff : calcu p d i = word p d i ↔
    (i.msb = true → d = .allOnes 8) ∧ (d.msb = true ∨ i.msb = true → p = .allOnes 8) := by
  constructor
  · intro h
    have hbits : ∀ k < 32, (calcu p d i).getLsbD k = (word p d i).getLsbD k := fun k _ => by rw [h]
    constructor
    · intro hi
      refine eq_allOnes_of_or i.msb hi fun k hk => ?_
      have hbit := hbits (16 + k) (by omega)
      rwa [getLsbD_calcu (by omega), getLsbD_word (by omega), if_neg (by omega), if_pos (by omega),
        if_neg (by omega), if_pos (by omega), Nat.add_sub_cancel_left] at hbit
    · intro hdi
      refine eq_allOnes_of_or (d.msb || i.msb) (by simpa using hdi) fun k hk => ?_
      have hbit := hbits (24 + k) (by omega)
      rwa [getLsbD_calcu (by omega), getLsbD_word (by omega), if_neg (by omega), if_neg (by omega),
        if_neg (by omega), if_neg (by omega), Nat.add_sub_cancel_left, Bool.or_assoc] at hbit
  · rintro ⟨hd, hp⟩
    apply BitVec.eq_of_getLsbD_eq
    intro k hk
    rw [getLsbD_calcu hk, getLsbD_word hk]
    split_ifs with hlow hmid
    · rfl
    · -- a bit of the device's field
      by_cases hi : i.msb = true
      · rw [hd hi, hi, BitVec.getLsbD_allOnes, decide_eq_true (by omega), Bool.true_or]
      · rw [Bool.eq_false_of_not_eq_true hi, Bool.or_false]
    · -- a bit of the number's field
      by_cases hdi : d.msb = true ∨ i.msb = true
      · rw [hp hdi, BitVec.getLsbD_allOnes, decide_eq_true (by omega), Bool.true_or, Bool.true_or]
      · rw [not_or, Bool.not_eq_true, Bool.not_eq_true] at hdi
        rw [hdi.1, hdi.2, Bool.or_false, Bool.or_false]

/-! ## The program's word and the key -/

variable (MINOR : BitVec 64 → BitVec 64)

/-- **The key put together by hand.** The program's word is the key exactly if the highest bit of
the inode number's half is clear or the device's byte is full, and both highest bits are clear or
the number's byte is full. -/
theorem calcu_eq_ftok_iff (arg : CInt) (status : Stat) :
    calcu (arg.setWidth 8) ((MINOR status.st_dev).setWidth 8) (status.st_ino.setWidth 16) =
        ftok MINOR status arg ↔
      (status.st_ino.getLsbD 15 = true → (MINOR status.st_dev).setWidth 8 = BitVec.allOnes 8) ∧
        ((MINOR status.st_dev).getLsbD 7 = true ∨ status.st_ino.getLsbD 15 = true →
          arg.setWidth 8 = BitVec.allOnes 8) := by
  have hi : (status.st_ino.setWidth 16).msb = status.st_ino.getLsbD 15 := by
    rw [BitVec.msb_eq_getLsbD_last, BitVec.getLsbD_setWidth]
    rfl
  have hd : ((MINOR status.st_dev).setWidth 8).msb = (MINOR status.st_dev).getLsbD 7 := by
    rw [BitVec.msb_eq_getLsbD_last, BitVec.getLsbD_setWidth]
    rfl
  rw [ftok, calcu_eq_word_iff, hi, hd]

/-- What the program prints about the two words. -/
theorem equal_iff_of_main {argv : List CStr} {temp : TempFile} {keys : Keys}
    (h : main MINOR argv temp = .printed keys) : keys.equal = true ↔
      (keys.inode.msb = true → keys.devNum = .allOnes 8) ∧
        (keys.devNum.msb = true ∨ keys.inode.msb = true → keys.proj = .allOnes 8) := by
  have hlow : ∀ proj : BitVec 8, (proj.signExtend 32).setWidth 8 = proj := by decide
  unfold main at h
  split_ifs at h
  obtain ⟨opens, _ | status⟩ := temp
  · cases h
  · have hreport : report MINOR (projOf argv) status = .printed keys := h
    unfold report at hreport
    dsimp only at hreport
    split_ifs at hreport
    cases hreport
    rw [beq_iff_eq, ftok, hlow, calcu_eq_word_iff]

/-- The number 1 and a file with the inode number 32768. -/
theorem not_calcu_eq_ftok : ¬ ∀ (MINOR : BitVec 64 → BitVec 64) (arg : CInt) (status : Stat),
    calcu (arg.setWidth 8) ((MINOR status.st_dev).setWidth 8) (status.st_ino.setWidth 16) =
      ftok MINOR status arg := by
  intro h
  have hkey := h (fun dev => dev &&& 0xff) 1 ⟨0x802, 32768⟩
  revert hkey
  decide

end Ftok
end CodeStrudy
