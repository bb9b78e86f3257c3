import CodeStrudy.Foundation.CInt
import CodeStrudy.Foundation.CString
import CodeStrudy.Foundation.Separator
import CodeStrudy.Foundation.Substring
import CodeStrudy.GetNum.GetNum

/-!
# The processes of a user

`practice/12.1/main.c` reads `/proc/<pid>/status` of every process and prints the name and the
process id of those whose real user id is the requested one.  It finds a line with `strstr`,
anywhere in the buffer, and writes a zero byte behind each field before it goes on.  The first line
holds the name of the process, which the user of that process chooses.

## What is proved

* `lookAt_beginUid`, `nameAndPid_beginPid`: where no label comes too early, the fields are those of
  their lines.
* `id_of_shadowed`, `pid_of_shadowed`: where one does, the field that is read does not depend on the
  line it is meant to come from.
* `right_iff`: so the program is right for all ids of a process exactly if no label comes too early.
-/

namespace CodeStrudy
namespace ProcessLister

open Foundation GetNum

/-! ## `main.c` -/

/-- `strstr(file + i, pat)`, as an index of the file. -/
def strstr (file : List UInt8) (i : ℕ) (pat : List UInt8) : Option ℕ :=
  (findSub pat (cstr (file.drop i))).map (i + ·)

def atol (s : List UInt8) : ℤ := (strtol s 10).value

/-- `while(*temp1++ != 0x9); temp2 = strchr(temp1, stop); *temp2 = 0;`: where the field begins, and
the file with a zero byte where the field ends. -/
def cutField (stop : UInt8) (file : List UInt8) (temp1 : ℕ) : Option (ℕ × List UInt8) :=
  (skip 0x9 file temp1).bind fun temp1 =>
    (strstr file temp1 [stop]).map fun temp2 => (temp1, file.set temp2 0)

/-- What one pass of the loop finds: the id that is compared, and the name and the process id that
are printed, if any are. -/
structure Report where
  id : CInt
  printed : Option (List UInt8 × List UInt8)
  deriving DecidableEq

/-- What is printed of a file whose id is the requested one; nothing where there is no `Pid:`. -/
def nameAndPid (file : List UInt8) : Option (Option (List UInt8 × List UInt8)) :=
  match strstr file 0 (ascii "Pid:") with
  | none => some none
  | some temp1 =>
    (cutField 0x0a file temp1).bind fun (pid, file) =>
      (strstr file 0 (ascii "\n")).map fun temp1 =>
        some (cstr (file.set temp1 0), cstr ((file.set temp1 0).drop pid))

/-- One pass of the loop over the file in memory.  There is no result where the program follows a
null pointer or runs out of the buffer. -/
def lookAt (uid : CInt) (file : List UInt8) : Option Report :=
  (strstr file 0 (ascii "Uid:")).bind fun temp1 =>
    (cutField 0x9 file temp1).bind fun (temp1, file) =>
      let id := BitVec.ofInt 32 (atol (cstr (file.drop temp1)))
      if id = uid then (nameAndPid file).map fun printed => ⟨id, printed⟩
      else some ⟨id, none⟩

/-- `read(fd, file, 1024)`: what is left of the buffer keeps what was in it. -/
def readFile (old : CharArray 1024) (text : List UInt8) : List UInt8 :=
  (old.write (text.take 1024)).bytes

/-! ## The kernel's layout -/

/-- A line `Key:<tab>value`. -/
structure Line where
  key : List UInt8
  value : List UInt8
  key_plain : 0x9 ∉ key ∧ 0x0a ∉ key ∧ 0 ∉ key
  value_plain : 0x0a ∉ value ∧ 0 ∉ value

def Line.text (l : Line) : List UInt8 := l.key ++ 0x3a :: 0x9 :: (l.value ++ [0x0a])

/-- A file up to its `Uid:` line, the two ids left out: the name of the process, the lines between
the name and the process id, and the lines between the process id and the user id. -/
structure Layout where
  name : List UInt8
  beforePid : List Line
  afterPid : List Line
  name_plain : 0x0a ∉ name ∧ 0 ∉ name

namespace Layout

variable (L : Layout)

/-- The first line, without its newline. -/
def nameLine : List UInt8 := ascii "Name:" ++ 0x9 :: L.name

/-- What stands before the `Pid:` line. -/
def head : List UInt8 := L.nameLine ++ 0x0a :: L.beforePid.flatMap Line.text

/-- What stands between the `Pid:` line and the `Uid:` line. -/
def middle : List UInt8 := L.afterPid.flatMap Line.text

/-- The file up to the process id. -/
def beginPid : List UInt8 := L.head ++ ascii "Pid:" ++ [0x9]

/-- What stands before the label of the `Uid:` line. -/
def beforeUid (pid : ℕ) : List UInt8 := L.beginPid ++ (decimal pid ++ 0x0a :: L.middle)

/-- The file up to the real user id. -/
def beginUid (pid : ℕ) : List UInt8 := L.beforeUid pid ++ ascii "Uid:" ++ [0x9]

/-- The file of a process; the other user ids and the other lines are the rest. -/
def text (pid : ℕ) (uid : CInt) (rest : List UInt8) : List UInt8 :=
  L.beginUid pid ++ (decimal uid.toNat ++ 0x9 :: rest)

/-- The three fields are within the first 1023 bytes. -/
def Fits (pid : ℕ) (uid : CInt) : Prop :=
  (L.beginUid pid).length + (decimal uid.toNat).length + 1 ≤ 1023

instance (pid : ℕ) (uid : CInt) : Decidable (L.Fits pid uid) :=
  inferInstanceAs (Decidable (_ ≤ _))

/-! ## What it should do -/

/-- Whatever the ids of the process and the requested user are, and whatever was in the buffer, the
id that is compared is the one in the `Uid:` line, and what is printed if it is the requested one is
the `Name:` line and the process id. -/
def Right : Prop :=
  ∀ pid uid, L.Fits pid uid → ∀ rest old requested,
    lookAt requested (readFile old (L.text pid uid rest)) =
      some ⟨uid, if uid = requested then some (L.nameLine, decimal pid) else none⟩

/-- A text up to its last tab. -/
def upToTab (l : List UInt8) : List UInt8 := l.rdropWhile (· ≠ 0x9)

/-- No label comes so early that there is a tab between it and the line it belongs to. -/
def Clear : Prop :=
  ¬ ascii "Uid:" <:+: L.head ∧ ¬ ascii "Uid:" <:+: upToTab L.middle ∧
    ¬ ascii "Pid:" <:+: upToTab L.head

instance : Decidable L.Clear := inferInstanceAs (Decidable (_ ∧ _ ∧ _))

end Layout

/-! ## One field -/

theorem strstr_zero (file pat : List UInt8) : strstr file 0 pat = findSub pat (cstr file) := by
  simp [strstr]

theorem cutField_eq {stop : UInt8} {u x v : List UInt8} {temp1 : ℕ}
    (hskip : skip 0x9 (u ++ (x ++ stop :: v)) temp1 = some u.length) (hx0 : 0 ∉ x)
    (hx : stop ∉ x) (hstop : stop ≠ 0) :
    cutField stop (u ++ (x ++ stop :: v)) temp1 = some (u.length, u ++ (x ++ 0 :: v)) := by
  have hcstr : cstr (x ++ stop :: v) = x ++ stop :: cstr v := by
    rw [cstr_append_of_notMem hx0, cstr, List.takeWhile_cons_of_pos (by simpa using hstop)]
    rfl
  have hset : (u ++ (x ++ stop :: v)).set (u.length + x.length) 0 = u ++ (x ++ 0 :: v) := by
    rw [List.set_append_right _ _ (Nat.le_add_right _ _), Nat.add_sub_cancel_left,
      List.set_append_right _ _ (Nat.le_refl _), Nat.sub_self, List.set_cons_zero]
  rw [cutField, hskip, Option.bind_some, strstr, List.drop_left, hcstr, findSub_singleton hx]
  simp only [Option.map_some, hset]

/-- The pass over a file in which the field behind `Uid:` is known. -/
theorem lookAt_eq {u x v : List UInt8} (requested : CInt)
    (hbehind : behind 0x9 (ascii "Uid:") (cstr (u ++ (x ++ 0x9 :: v))) (u ++ (x ++ 0x9 :: v)) =
      some u.length) (hx0 : 0 ∉ x) (hx : 0x9 ∉ x) :
    lookAt requested (u ++ (x ++ 0x9 :: v)) =
      if BitVec.ofInt 32 (atol x) = requested then
        (nameAndPid (u ++ (x ++ 0 :: v))).map fun printed => ⟨BitVec.ofInt 32 (atol x), printed⟩
      else some ⟨BitVec.ofInt 32 (atol x), none⟩ := by
  obtain ⟨i, hi, hskip⟩ := Option.bind_eq_some_iff.mp hbehind
  rw [lookAt, strstr_zero, hi, Option.bind_some, cutField_eq hskip hx0 hx (by decide)]
  simp only [Option.bind_some, List.drop_left, cstr_append_zero hx0]

/-- What is printed of a file in which the field behind `Pid:` is known. -/
theorem nameAndPid_eq {u x v : List UInt8}
    (hbehind : behind 0x9 (ascii "Pid:") (cstr (u ++ (x ++ 0x0a :: v))) (u ++ (x ++ 0x0a :: v)) =
      some u.length) (hx0 : 0 ∉ x) (hx : 0x0a ∉ x) :
    nameAndPid (u ++ (x ++ 0x0a :: v)) =
      (findSub (ascii "\n") (cstr (u ++ (x ++ 0 :: v)))).map fun temp1 =>
        some (cstr ((u ++ (x ++ 0 :: v)).set temp1 0),
          cstr (((u ++ (x ++ 0 :: v)).set temp1 0).drop u.length)) := by
  obtain ⟨i, hi, hskip⟩ := Option.bind_eq_some_iff.mp hbehind
  rw [nameAndPid, strstr_zero, hi]
  simp only [cutField_eq hskip hx0 hx (by decide), Option.bind_some, strstr_zero]

/-! ## Labels and numbers -/

/-- A word with nothing in it that ends a field. -/
structure Plain (s : List UInt8) : Prop where
  zero_notMem : 0 ∉ s
  tab_notMem : 0x9 ∉ s
  newline_notMem : 0x0a ∉ s

theorem plain_name : Plain (ascii "Name:") := ⟨by decide, by decide, by decide⟩

theorem plain_pid : Plain (ascii "Pid:") := ⟨by decide, by decide, by decide⟩

theorem plain_uid : Plain (ascii "Uid:") := ⟨by decide, by decide, by decide⟩

theorem pid_ne_nil : ascii "Pid:" ≠ [] := by decide

theorem uid_ne_nil : ascii "Uid:" ≠ [] := by decide

theorem plain_decimal (n : ℕ) : Plain (decimal n) :=
  ⟨notMem_decimal (by decide) n, notMem_decimal (by decide) n, notMem_decimal (by decide) n⟩

/-! ## Which field is found -/

variable {label b l w : List UInt8}

/-- With a label before the last tab, some field before the right one is found, and it is the same
whatever comes behind. -/
theorem exists_field (stop : UInt8) (h0 : 0 ∉ b) (hb : b = l ++ 0x9 :: w)
    (hlabel : label <:+: l) (hstop : stop ∈ w) :
    ∃ u x z, b = u ++ (x ++ stop :: z) ∧ stop ∉ x ∧
      ∀ v, behind 0x9 label (cstr (b ++ v)) (b ++ v) = some u.length := by
  obtain ⟨t, ht, hbehind⟩ := behind_of_infix hlabel 0x9
  have hdrop : b.drop t = (l ++ [0x9]).drop t ++ w := by
    rw [hb, List.append_cons, List.drop_append_of_le_length]
    simpa using ht
  obtain ⟨x, z, hsplit, hx⟩ := List.eq_append_cons_of_mem (List.mem_append_right _ hstop)
  refine ⟨b.take t, x, z, ?_, hx, fun v => ?_⟩
  · rw [← hsplit, ← hdrop, List.take_append_drop]
  · have hlen : (b.take t).length = t := by
      refine List.length_take_of_le ?_
      rw [hb, List.length_append, List.length_cons]
      omega
    rw [cstr_append_of_notMem h0, hlen, hb, List.append_assoc, List.append_assoc, List.cons_append]
    exact hbehind _ _

/-- With no label before the last tab, the field behind the right one is found. -/
theorem behind_of_clear (h0 : 0 ∉ b) (hb : b = l ++ 0x9 :: (w ++ label ++ [0x9]))
    (hlabel : ¬ label <:+: l) (hplain : Plain label) (hne : label ≠ []) (hw : 0x9 ∉ w)
    (v : List UInt8) : behind 0x9 label (cstr (b ++ v)) (b ++ v) = some b.length := by
  have htab : 0x9 ∉ w ++ label := by simp [hw, hplain.tab_notMem]
  have hlen : b.length = l.length + 1 + (w ++ label).length + 1 := by
    rw [hb]
    simp only [List.length_append, List.length_cons, List.length_nil]
    omega
  have hstr : cstr (b ++ v) = l ++ 0x9 :: (w ++ label ++ 0x9 :: cstr v) := by
    rw [cstr_append_of_notMem h0, hb]
    simp
  have hmem : b ++ v = l ++ 0x9 :: (w ++ label ++ 0x9 :: v) := by
    rw [hb]
    simp
  rw [hstr, hmem, hlen]
  exact behind_of_not_infix hplain.tab_notMem hne hlabel (List.suffix_append w label).isInfix htab
    _ _

/-! ## The layout in memory -/

theorem zero_notMem_text (l : Line) : 0 ∉ l.text := by
  simp [Line.text, l.key_plain.2.2, l.value_plain.2]

/-- A newline and lines behind it end with a newline. -/
theorem exists_flatMap_text_eq (ls : List Line) :
    ∃ t, 0x0a :: ls.flatMap Line.text = t ++ [0x0a] := by
  induction ls using List.reverseRecOn with
  | nil => exact ⟨[], rfl⟩
  | append_singleton ls l _ =>
    refine ⟨0x0a :: ls.flatMap Line.text ++ (l.key ++ 0x3a :: 0x9 :: l.value), ?_⟩
    simp [Line.text, List.flatMap_append]

namespace Layout

variable {L : Layout}

theorem zero_notMem_nameLine : 0 ∉ L.nameLine := by
  simp [nameLine, plain_name.zero_notMem, L.name_plain.2]

theorem newline_notMem_nameLine : 0x0a ∉ L.nameLine := by
  simp [nameLine, plain_name.newline_notMem, L.name_plain.1]

theorem zero_notMem_head : 0 ∉ L.head := by
  simp [head, zero_notMem_nameLine, zero_notMem_text]

theorem zero_notMem_beginPid : 0 ∉ L.beginPid := by
  simp [beginPid, zero_notMem_head, plain_pid.zero_notMem]

theorem zero_notMem_beginUid (pid : ℕ) : 0 ∉ L.beginUid pid := by
  simp [beginUid, beforeUid, middle, zero_notMem_beginPid, zero_notMem_text,
    plain_uid.zero_notMem, (plain_decimal pid).zero_notMem]

/-- The lines before the `Pid:` line have a tab, and end with a newline. -/
theorem exists_head_eq : ∃ u v, L.head = u ++ 0x9 :: (v ++ [0x0a]) ∧ 0x9 ∉ v := by
  obtain ⟨t, ht⟩ := exists_flatMap_text_eq L.beforePid
  have hhead : L.head = L.nameLine ++ t ++ [0x0a] := by rw [head, ht, List.append_assoc]
  have htab : 0x9 ∈ L.nameLine ++ t := by simp [nameLine]
  obtain ⟨u, v, hsplit, hv⟩ := exists_eq_append_cons_of_mem htab
  exact ⟨u, v, by rw [hhead, hsplit, List.append_assoc, List.cons_append], hv⟩

theorem exists_beforeUid_eq (pid : ℕ) : ∃ u v, L.beforeUid pid = u ++ 0x9 :: v ∧ 0x9 ∉ v :=
  exists_eq_append_cons_of_mem (by simp [beforeUid, beginPid])

end Layout

/-- A label stands before the last tab exactly if it stands in what is before that tab. -/
theorem infix_upToTab_iff (hplain : Plain label) (hne : label ≠ []) (hb : b = l ++ 0x9 :: w)
    (hw : 0x9 ∉ w) : label <:+: Layout.upToTab b ↔ label <:+: l := by
  rw [hb, Layout.upToTab, rdropWhile_ne_append_cons, rdropWhile_ne_of_notMem hw,
    infix_append_cons_iff hplain.tab_notMem hne, List.infix_nil, or_iff_left hne]

/-- The label `Uid:` comes too early in a file exactly if it does in the lines that are given. -/
theorem uid_infix_iff {L : Layout} (pid : ℕ) :
    ascii "Uid:" <:+: Layout.upToTab (L.beforeUid pid) ↔
      ascii "Uid:" <:+: L.head ∨ ascii "Uid:" <:+: Layout.upToTab L.middle := by
  have hpid : ¬ ascii "Uid:" <:+: ascii "Pid:" := by decide
  have hdecimal : ¬ ascii "Uid:" <:+: decimal pid := fun h =>
    notMem_decimal (c := 0x55) (by decide) pid (h.subset (by decide))
  have hhead : ascii "Uid:" <:+: L.head ++ ascii "Pid:" ↔ ascii "Uid:" <:+: L.head := by
    obtain ⟨u, v, hL, -⟩ := L.exists_head_eq
    rw [hL, ← List.cons_append, ← List.append_assoc,
      infix_concat_append_iff plain_uid.newline_notMem uid_ne_nil, or_iff_left hpid]
  have hmiddle : ascii "Uid:" <:+: Layout.upToTab (decimal pid ++ 0x0a :: L.middle) ↔
      ascii "Uid:" <:+: Layout.upToTab L.middle := by
    by_cases hmem : 0x9 ∈ L.middle
    · have hup : Layout.upToTab (decimal pid ++ 0x0a :: L.middle) =
          decimal pid ++ 0x0a :: Layout.upToTab L.middle := by
        rw [List.append_cons, Layout.upToTab, rdropWhile_ne_append _ hmem, ← List.append_cons]
        rfl
      rw [hup, infix_append_cons_iff plain_uid.newline_notMem uid_ne_nil, or_iff_right hdecimal]
    · have hmem' : 0x9 ∉ decimal pid ++ 0x0a :: L.middle := by
        simp [(plain_decimal pid).tab_notMem, hmem]
      rw [Layout.upToTab, Layout.upToTab, rdropWhile_ne_of_notMem hmem,
        rdropWhile_ne_of_notMem hmem']
  have hsplit : Layout.upToTab (L.beforeUid pid) =
      L.head ++ ascii "Pid:" ++ 0x9 :: Layout.upToTab (decimal pid ++ 0x0a :: L.middle) := by
    rw [Layout.beforeUid, Layout.beginPid, ← List.append_cons]
    exact rdropWhile_ne_append_cons _ _
  rw [hsplit, infix_append_cons_iff plain_uid.tab_notMem uid_ne_nil, hhead, hmiddle]

/-! ## The user id -/

namespace Layout

variable {L : Layout}

theorem beginUid_eq {pid : ℕ} (h : L.beforeUid pid = l ++ 0x9 :: w) :
    L.beginUid pid = l ++ 0x9 :: (w ++ ascii "Uid:" ++ [0x9]) := by
  rw [beginUid, h, List.append_assoc, List.append_assoc, List.cons_append, List.append_assoc]

theorem zero_notMem_of_beginUid_eq {pid : ℕ} {u x v : List UInt8}
    (h : L.beginUid pid = u ++ (x ++ v)) : 0 ∉ x := by
  intro hmem
  refine L.zero_notMem_beginUid pid ?_
  rw [h]
  exact List.mem_append_right _ (List.mem_append_left _ hmem)

/-- **The user id of a file with a label too early** is the same whatever stands in the `Uid:` line.
-/
theorem id_of_shadowed {pid : ℕ} (h : ascii "Uid:" <:+: upToTab (L.beforeUid pid)) :
    ∃ id, ∀ requested v r, lookAt requested (L.beginUid pid ++ v) = some r → r.id = id := by
  obtain ⟨l, w, hbefore, hw⟩ := L.exists_beforeUid_eq pid
  have hlabel := (infix_upToTab_iff plain_uid uid_ne_nil hbefore hw).mp h
  obtain ⟨u, x, z, hbegin, hx, hbehind⟩ := exists_field 0x9 (L.zero_notMem_beginUid pid)
    (beginUid_eq hbefore) hlabel (by simp)
  refine ⟨BitVec.ofInt 32 (atol x), fun requested v r hr => ?_⟩
  have hfile : L.beginUid pid ++ v = u ++ (x ++ 0x9 :: (z ++ v)) := by
    rw [hbegin, List.append_assoc, List.append_assoc, List.cons_append]
  have hfield := hbehind v
  rw [hfile] at hr hfield
  rw [lookAt_eq requested hfield (zero_notMem_of_beginUid_eq hbegin) hx] at hr
  split at hr
  · obtain ⟨printed, -, rfl⟩ := Option.map_eq_some_iff.mp hr
    rfl
  · rw [← Option.some.inj hr]

/-- **The user id of a file with no label too early** is the one of the `Uid:` line. -/
theorem lookAt_beginUid {pid : ℕ} (h : ¬ ascii "Uid:" <:+: upToTab (L.beforeUid pid))
    (uid requested : CInt) (v : List UInt8) :
    lookAt requested (L.beginUid pid ++ (decimal uid.toNat ++ 0x9 :: v)) =
      if uid = requested then
        (nameAndPid (L.beginUid pid ++ (decimal uid.toNat ++ 0 :: v))).map fun printed =>
          ⟨uid, printed⟩
      else some ⟨uid, none⟩ := by
  obtain ⟨l, w, hbefore, hw⟩ := L.exists_beforeUid_eq pid
  rw [infix_upToTab_iff plain_uid uid_ne_nil hbefore hw] at h
  have hbehind := behind_of_clear (L.zero_notMem_beginUid pid) (beginUid_eq hbefore) h plain_uid
    uid_ne_nil hw (decimal uid.toNat ++ 0x9 :: v)
  have hid : BitVec.ofInt 32 (atol (decimal uid.toNat)) = uid := by
    have hlt := uid.isLt
    have hmax : (uid.toNat : ℤ) ≤ LONG_MAX := by
      unfold LONG_MAX
      omega
    rw [atol, strtol_decimal hmax]
    show BitVec.ofInt 32 (uid.toNat : ℤ) = uid
    rw [BitVec.ofInt_natCast, BitVec.ofNat_toNat, BitVec.setWidth_eq]
  rw [lookAt_eq requested hbehind (plain_decimal _).zero_notMem (plain_decimal _).tab_notMem, hid]

/-! ## The process id -/

theorem beginPid_eq (h : L.head = l ++ 0x9 :: w) :
    L.beginPid = l ++ 0x9 :: (w ++ ascii "Pid:" ++ [0x9]) := by
  rw [beginPid, h, List.append_assoc, List.append_assoc, List.cons_append, List.append_assoc]

/-- **The process id of a file with a label too early** is the same whatever stands in the `Pid:`
line. -/
theorem pid_of_shadowed (h : ascii "Pid:" <:+: upToTab L.head) :
    ∃ pid, ∀ v name found,
      nameAndPid (L.beginPid ++ v) = some (some (name, found)) → found = pid := by
  obtain ⟨l, w, hhead, hw⟩ := L.exists_head_eq
  have hw' : 0x9 ∉ w ++ [0x0a] := by simp [hw]
  have hlabel := (infix_upToTab_iff plain_pid pid_ne_nil hhead hw').mp h
  obtain ⟨u, x, z, hbegin, hx, hbehind⟩ := exists_field 0x0a L.zero_notMem_beginPid
    (beginPid_eq hhead) hlabel (by simp)
  have hux : 0 ∉ u ++ x := by
    intro hmem
    refine L.zero_notMem_beginPid ?_
    rw [hbegin, ← List.append_assoc]
    exact List.mem_append_left _ hmem
  have hprinted : ∀ v, nameAndPid (L.beginPid ++ v) =
      (findSub (ascii "\n") (u ++ x)).map fun temp1 =>
        some (cstr ((u ++ (x ++ 0 :: (z ++ v))).set temp1 0),
          cstr (((u ++ (x ++ 0 :: (z ++ v))).set temp1 0).drop u.length)) := by
    intro v
    have hfile : L.beginPid ++ v = u ++ (x ++ 0x0a :: (z ++ v)) := by
      rw [hbegin, List.append_assoc, List.append_assoc, List.cons_append]
    have hcstr : cstr (u ++ (x ++ 0 :: (z ++ v))) = u ++ x := by
      rw [← List.append_assoc, cstr_append_zero hux]
    have hfield := hbehind v
    rw [hfile] at hfield ⊢
    rw [nameAndPid_eq hfield (fun h => hux (List.mem_append_right u h)) hx, hcstr]
  -- the newline that ends the name is before the end of the field, so what is behind has no part
  cases hfind : findSub (ascii "\n") (u ++ x) with
  | none =>
    refine ⟨[], fun v name found hfound => ?_⟩
    rw [hprinted, hfind] at hfound
    cases hfound
  | some n =>
    have hn : n < (u ++ x).length := Nat.lt_of_succ_le (findSub_add_le hfind)
    refine ⟨cstr (((u ++ x).set n 0).drop u.length ++ [0]), fun v name found hfound => ?_⟩
    rw [hprinted, hfind, Option.map_some, Option.some.injEq, Option.some.injEq] at hfound
    have hle : u.length ≤ ((u ++ x).set n 0).length := by
      rw [List.length_set, List.length_append]
      exact Nat.le_add_right _ _
    rw [← (Prod.mk.inj hfound).2, ← List.append_assoc, List.set_append_left _ _ hn,
      List.drop_append_of_le_length hle, List.append_cons]
    exact cstr_append_of_mem (by simp) _

/-- **What is printed of a file with no label too early** is the `Name:` line and the process id. -/
theorem nameAndPid_beginPid (h : ¬ ascii "Pid:" <:+: upToTab L.head) (pid : ℕ) (v : List UInt8) :
    nameAndPid (L.beginPid ++ (decimal pid ++ 0x0a :: v)) =
      some (some (L.nameLine, decimal pid)) := by
  obtain ⟨l, w, hhead, hw⟩ := L.exists_head_eq
  have hw' : 0x9 ∉ w ++ [0x0a] := by simp [hw]
  rw [infix_upToTab_iff plain_pid pid_ne_nil hhead hw'] at h
  have hbehind := behind_of_clear L.zero_notMem_beginPid (beginPid_eq hhead) h plain_pid pid_ne_nil
    hw' (decimal pid ++ 0x0a :: v)
  have hdecimal : 0 ∉ decimal pid := (plain_decimal pid).zero_notMem
  obtain ⟨t, ht⟩ : ∃ t, L.beginPid = L.nameLine ++ 0x0a :: t :=
    ⟨_, by rw [beginPid, head, List.append_assoc, List.append_assoc, List.cons_append]⟩
  -- the file with a zero byte behind the process id, split at its first newline
  have hfile : L.beginPid ++ (decimal pid ++ 0 :: v) =
      L.nameLine ++ 0x0a :: (t ++ (decimal pid ++ 0 :: v)) := by
    rw [ht, List.append_assoc, List.cons_append]
  have hset : (L.beginPid ++ (decimal pid ++ 0 :: v)).set L.nameLine.length 0 =
      L.nameLine ++ 0 :: t ++ (decimal pid ++ 0 :: v) := by
    rw [hfile, List.set_append_right _ _ (Nat.le_refl _), Nat.sub_self, List.set_cons_zero,
      List.append_assoc, List.cons_append]
  have hlen : L.beginPid.length = (L.nameLine ++ 0 :: t).length := by
    rw [ht, List.length_append, List.length_append, List.length_cons, List.length_cons]
  have hcstr : cstr (L.beginPid ++ (decimal pid ++ 0 :: v)) =
      L.nameLine ++ 0x0a :: (t ++ decimal pid) := by
    have hnot : 0 ∉ L.beginPid ++ decimal pid := by
      rw [List.mem_append, not_or]
      exact ⟨L.zero_notMem_beginPid, hdecimal⟩
    rw [← List.append_assoc, cstr_append_zero hnot, ht, List.append_assoc, List.cons_append]
  have hnewline : findSub (ascii "\n") (L.nameLine ++ 0x0a :: (t ++ decimal pid)) =
      some L.nameLine.length :=
    findSub_singleton L.newline_notMem_nameLine _
  rw [nameAndPid_eq hbehind hdecimal (plain_decimal pid).newline_notMem, hcstr, hnewline,
    Option.map_some, hset, hlen, List.drop_left, cstr_append_zero hdecimal, List.append_assoc,
    List.cons_append, cstr_append_zero L.zero_notMem_nameLine]

/-! ## When it is right -/

/-- What is in memory behind the last field does not matter. -/
theorem readFile_text {pid : ℕ} {uid : CInt} (h : L.Fits pid uid) (rest : List UInt8)
    (old : CharArray 1024) :
    ∃ v, readFile old (L.text pid uid rest) =
      L.beginUid pid ++ (decimal uid.toNat ++ 0x9 :: v) := by
  have htext : L.text pid uid rest = L.beginUid pid ++ (decimal uid.toNat ++ [0x9]) ++ rest := by
    rw [text, List.append_assoc, List.append_assoc, List.singleton_append]
  have hlen : (L.beginUid pid ++ (decimal uid.toNat ++ [0x9])).length ≤ 1024 := by
    unfold Fits at h
    simp only [List.length_append, List.length_singleton]
    omega
  obtain ⟨r, hr⟩ : ∃ r, (L.text pid uid rest).take 1024 =
      L.beginUid pid ++ (decimal uid.toNat ++ 0x9 :: r) := by
    refine ⟨rest.take (1024 - (L.beginUid pid ++ (decimal uid.toNat ++ [0x9])).length), ?_⟩
    rw [htext, List.take_append, List.take_of_length_le hlen]
    simp only [List.append_assoc, List.singleton_append]
  refine ⟨r ++ old.bytes.drop (L.beginUid pid ++ (decimal uid.toNat ++ 0x9 :: r)).length, ?_⟩
  rw [readFile, CharArray.bytes_write (List.length_take_le _ _), hr]
  simp only [List.append_assoc, List.cons_append]

theorem right_of_clear (h : L.Clear) : L.Right := by
  intro pid uid hfits rest old requested
  obtain ⟨v, hv⟩ := readFile_text hfits rest old
  have huid : ¬ ascii "Uid:" <:+: upToTab (L.beforeUid pid) := by
    rw [uid_infix_iff, not_or]
    exact ⟨h.1, h.2.1⟩
  have hprinted : nameAndPid (L.beginUid pid ++ (decimal uid.toNat ++ 0 :: v)) =
      some (some (L.nameLine, decimal pid)) := by
    rw [beginUid, beforeUid, List.append_assoc, List.append_assoc, List.append_assoc,
      List.append_assoc, List.cons_append]
    exact nameAndPid_beginPid h.2.2 pid _
  rw [hv, lookAt_beginUid huid, hprinted]
  split <;> rfl

theorem lookAt_of_right (h : L.Right) {pid : ℕ} {uid : CInt} (hfits : L.Fits pid uid)
    (requested : CInt) :
    ∃ v, lookAt requested (L.beginUid pid ++ (decimal uid.toNat ++ 0x9 :: v)) =
      some ⟨uid, if uid = requested then some (L.nameLine, decimal pid) else none⟩ := by
  obtain ⟨v, hv⟩ := readFile_text hfits [] default
  exact ⟨v, hv ▸ h pid uid hfits [] default requested⟩

theorem nameAndPid_of_right (h : L.Right) {pid : ℕ} (hfits : L.Fits pid 0)
    (huid : ¬ ascii "Uid:" <:+: upToTab (L.beforeUid pid)) :
    ∃ v, nameAndPid (L.beginPid ++ v) = some (some (L.nameLine, decimal pid)) := by
  obtain ⟨v, hv⟩ := lookAt_of_right h hfits 0
  rw [lookAt_beginUid huid, if_pos rfl, if_pos rfl, Option.map_eq_some_iff] at hv
  obtain ⟨printed, hprinted, hreport⟩ := hv
  obtain rfl := (Report.mk.inj hreport).2
  rw [beginUid, beforeUid, List.append_assoc, List.append_assoc, List.append_assoc] at hprinted
  exact ⟨_, hprinted⟩

/-- The ids 0 and 1 are read from two files that are the same up to the id, so a field that does not
depend on the id is wrong in one of them. -/
theorem clear_of_right (hfits : L.Fits 0 0) (h : L.Right) : L.Clear := by
  have huid : ∀ pid, L.Fits pid 0 → ¬ ascii "Uid:" <:+: upToTab (L.beforeUid pid) := by
    intro pid hpid hinfix
    obtain ⟨id, hid⟩ := id_of_shadowed hinfix
    obtain ⟨v, hv⟩ := @lookAt_of_right L h pid 0 hpid 0
    obtain ⟨w, hw⟩ := @lookAt_of_right L h pid 1 hpid 0
    have hsame : (0 : CInt) = 1 := (hid _ _ _ hv).trans (hid _ _ _ hw).symm
    exact absurd hsame (by decide)
  have hone : L.Fits 1 0 := by
    unfold Fits beginUid beforeUid at hfits ⊢
    simp only [List.length_append] at hfits ⊢
    exact hfits
  have hpid : ¬ ascii "Pid:" <:+: upToTab L.head := by
    intro hinfix
    obtain ⟨found, hfound⟩ := pid_of_shadowed hinfix
    obtain ⟨v, hv⟩ := nameAndPid_of_right h hfits (huid 0 hfits)
    obtain ⟨w, hw⟩ := nameAndPid_of_right h hone (huid 1 hone)
    have hsame : decimal 0 = decimal 1 := (hfound _ _ _ hv).trans (hfound _ _ _ hw).symm
    exact absurd hsame (by decide)
  have hclear := huid 0 hfits
  rw [uid_infix_iff, not_or] at hclear
  exact ⟨hclear.1, hclear.2, hpid⟩

/-- **When the program is right for all ids of a process**: no label comes too early. -/
theorem right_iff (hfits : L.Fits 0 0) : L.Right ↔ L.Clear :=
  ⟨clear_of_right hfits, right_of_clear⟩

/-- A file with some of the kernel's lines and any name. -/
def sleeping (name : List UInt8) (h : 0x0a ∉ name ∧ 0 ∉ name) : Layout where
  name := name
  beforePid := [⟨ascii "Umask", ascii "0022", by decide, by decide⟩,
    ⟨ascii "State", ascii "S (sleeping)", by decide, by decide⟩]
  afterPid := [⟨ascii "PPid", ascii "1", by decide, by decide⟩]
  name_plain := h

theorem right_sleeping_sh : (sleeping (ascii "sh") (by decide)).Right :=
  (right_iff (by decide)).mpr (by decide)

/-- A process with the name `Uid:`, whose mode mask is taken for the id of its user. -/
theorem not_right : ¬ ∀ L : Layout, L.Right := by
  intro h
  have hreport := h (sleeping (ascii "Uid:") (by decide)) 5 1000 (by decide) (ascii "1000\n")
    default 1000
  revert hreport
  decide +kernel

end Layout

end ProcessLister
end CodeStrudy
