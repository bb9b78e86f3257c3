import CodeStrudy.Foundation.FileIO
import CodeStrudy.Foundation.Loop
import CodeStrudy.ProcessLister.Status

/-!
# The scan over all processes

The loop of `practice/12.1/main.c` over the entries of `/proc`.  A process may be gone when its
status file is opened, or when it is read: then `read` returns zero, and the program closes the file
and goes back to the same entry without a call of `readdir`.  A `read` that fails goes unnoticed,
and what is then in the buffer is searched.

## What is proved

* `cutLabel_eq_some_iff`: which field is found behind a label, said without the search.
* `lookAt_ne_none_iff`: the pass over a file does not follow a null pointer or run out of the buffer
  exactly if the fields it looks for are there.
* `scans_iff`: the loop ends after one pass for each entry, and every pass finds its fields, exactly
  if each status file cannot be opened, or is read, is not empty, and has its fields.
-/

namespace CodeStrudy
namespace ProcessLister

open Foundation GetNum Loop

/-! ## `main.c` -/

/-- The number of calls of `open`, the entry that `dirent` points to, the buffer, the entries that
were looked at, and what was printed. -/
structure ScanState where
  passes : ℕ
  dirent : ℕ
  file : CharArray 1024
  visited : List ℕ
  printed : List (List UInt8 × List UInt8)

/-- How the loop is left: at the end of the directory, or by a null pointer or an index out of the
buffer. -/
inductive ScanExit where
  | finished (visited : List ℕ) (printed : List (List UInt8 × List UInt8))
  | outOfRange

/-- What follows a `read` that did not return zero: the search in the buffer, `memset` and
`readdir`. -/
def search (uid : CInt) (s : ScanState) (file : CharArray 1024) : ScanState ⊕ ScanExit :=
  match lookAt uid file.bytes with
  | none => .inr .outOfRange
  | some report =>
    .inl ⟨s.passes + 1, s.dirent + 1, .zeros 1024, s.visited ++ [s.dirent],
      s.printed ++ report.printed.toList⟩

/-- The loop's test and its body.  `net` says what becomes of `open` and `read`: the file cannot be
opened, `read` returns the bytes of the file, or it fails. -/
def scanPass (entries : List (List UInt8)) (net : ℕ → List UInt8 → Option ReadResult) (uid : CInt)
    (s : ScanState) : ScanState ⊕ ScanExit :=
  match entries[s.dirent]? with
  | none => .inr (.finished s.visited s.printed)
  | some name =>
    match net s.passes name with
    | none =>
      .inl { s with
        passes := s.passes + 1
        dirent := s.dirent + 1
        visited := s.visited ++ [s.dirent] }
    | some .error => search uid s s.file
    | some (.data text) =>
      -- `numRd` is zero: the next pass has the same entry
      if text = [] then .inl { s with passes := s.passes + 1, visited := s.visited ++ [s.dirent] }
      else search uid s (s.file.write (text.take 1024))

/-- Before the loop the buffer is not initialised. -/
def scanStart (file : CharArray 1024) : ScanState := ⟨0, 0, file, [], []⟩

/-- Each entry was looked at once, in order. -/
def EachOnce (entries : List (List UInt8)) (e : ScanExit) : Prop :=
  ∃ printed, e = .finished (List.range entries.length) printed

/-- The loop comes to the end of the directory and has looked at each entry once. -/
def Scans (entries : List (List UInt8)) (net : ℕ → List UInt8 → Option ReadResult) (uid : CInt)
    (file : CharArray 1024) : Prop :=
  ∃ e, Returns (scanPass entries net uid) (scanStart file) e ∧ EachOnce entries e

/-! ## Fields in a buffer -/

/-- The file has a field `x` behind the first occurrence of a label and the next tab, and becomes
`file'` when a zero byte is written at its end. -/
def HasField (label : List UInt8) (stop : UInt8) (file x file' : List UInt8) : Prop :=
  ∃ a c e, file = a ++ label ++ c ++ 0x9 :: (x ++ stop :: e) ∧ 0 ∉ a ∧
    ¬ label <:+: (a ++ label).dropLast ∧ 0x9 ∉ c ∧ 0 ∉ x ∧ stop ∉ x ∧
    file' = a ++ label ++ c ++ 0x9 :: (x ++ 0 :: e)

/-- The file has a user id; and if it is the requested one, it has no process id, or has it and a
first line. -/
def Readable (uid : CInt) (file : List UInt8) : Prop :=
  ∃ x file', HasField (ascii "Uid:") 0x9 file x file' ∧
    (BitVec.ofInt 32 (atol x) = uid →
      ascii "Pid:" <:+: cstr file' →
        ∃ pid file'', HasField (ascii "Pid:") 0x0a file' pid file'' ∧ 0x0a ∈ cstr file'')

/-- The buffer before pass `k`, if there was one pass for each entry so far: it is cleared behind
every file that was opened. -/
def bufferBefore (entries : List (List UInt8)) (net : ℕ → List UInt8 → Option ReadResult)
    (file : CharArray 1024) : ℕ → CharArray 1024
  | 0 => file
  | k + 1 =>
    if (entries[k]?.bind (net k)).isSome then .zeros 1024 else bufferBefore entries net file k

/-- The status file of entry `k` cannot be opened, or is not empty and has its fields; or `read`
fails and the buffer happens to have them. -/
def Fine (entries : List (List UInt8)) (net : ℕ → List UInt8 → Option ReadResult) (uid : CInt)
    (file : CharArray 1024) (k : ℕ) : Prop :=
  match entries[k]?.bind (net k) with
  | none => True
  | some .error => Readable uid (bufferBefore entries net file k).bytes
  | some (.data text) =>
    text ≠ [] ∧ Readable uid (readFile (bufferBefore entries net file k) text)

/-! ## One field -/

theorem tab_ne_zero : (0x9 : UInt8) ≠ 0 := by decide

theorem newline_ne_zero : (0x0a : UInt8) ≠ 0 := by decide

/-- A string in memory is followed by a zero byte or by the end of what is known. -/
theorem cstr_isPrefix (mem : List UInt8) : cstr mem <+: mem := List.takeWhile_prefix _

/-- `strchr` finds the first occurrence, if it is in the string. -/
theorem strstr_singleton_eq_some_iff {file : List UInt8} {temp1 temp2 : ℕ} {stop : UInt8}
    (hstop : stop ≠ 0) :
    strstr file temp1 [stop] = some temp2 ↔
      ∃ x e, file.drop temp1 = x ++ stop :: e ∧ 0 ∉ x ∧ stop ∉ x ∧ temp1 + x.length = temp2 := by
  rw [strstr, Option.map_eq_some_iff]
  constructor
  · rintro ⟨j, hj, rfl⟩
    obtain ⟨x, z, hcstr, hx, rfl⟩ := findSub_singleton_eq_some_iff.mp hj
    have hx0 : 0 ∉ x := fun h => zero_notMem_cstr (file.drop temp1)
      (hcstr ▸ List.mem_append_left _ h)
    obtain ⟨r, hr⟩ := cstr_isPrefix (file.drop temp1)
    rw [hcstr, List.append_assoc, List.cons_append] at hr
    exact ⟨x, z ++ r, hr.symm, hx0, hx, rfl⟩
  · rintro ⟨x, e, hdrop, hx0, hx, rfl⟩
    have hcstr : cstr (x ++ stop :: e) = x ++ stop :: cstr e := by
      rw [cstr_append_of_notMem hx0, cstr, List.takeWhile_cons_of_pos (by simpa using hstop)]
      rfl
    exact ⟨x.length, by rw [hdrop, hcstr, findSub_singleton hx], rfl⟩

/-- What `cutField` finds and writes, if the search for the tab ends. -/
theorem cutField_eq_some_iff {file file' : List UInt8} {stop : UInt8} {i temp1 : ℕ}
    (hstop : stop ≠ 0) :
    cutField stop file i = some (temp1, file') ↔
      ∃ u x e, skip 0x9 file i = some u.length ∧ file = u ++ (x ++ stop :: e) ∧ 0 ∉ x ∧
        stop ∉ x ∧ u.length = temp1 ∧ u ++ (x ++ 0 :: e) = file' := by
  constructor
  · intro h
    obtain ⟨t, hskip, hcut⟩ := Option.bind_eq_some_iff.mp h
    obtain ⟨temp2, hstr, -⟩ := Option.map_eq_some_iff.mp hcut
    obtain ⟨x, e, hdrop, hx0, hx, -⟩ := (strstr_singleton_eq_some_iff hstop).mp hstr
    have hlen : (file.take t).length = t := by
      obtain ⟨y, r, hmem, -, rfl⟩ := skip_eq_some_iff.mp hskip
      refine List.length_take_of_le ?_
      have hlong := congrArg List.length hmem
      simp only [List.length_drop, List.length_append, List.length_cons] at hlong
      omega
    have hfile : file = file.take t ++ (x ++ stop :: e) := by
      rw [← hdrop, List.take_append_drop]
    rw [← hlen] at hskip
    generalize file.take t = u at hfile hskip
    subst hfile
    rw [cutField_eq hskip hx0 hx hstop, Option.some.injEq, Prod.mk.injEq] at h
    exact ⟨u, x, e, hskip, rfl, hx0, hx, h.1, h.2⟩
  · rintro ⟨u, x, e, hskip, rfl, hx0, hx, rfl, rfl⟩
    exact cutField_eq hskip hx0 hx hstop

/-- `strstr` for a label, and the field behind it. -/
def cutLabel (label : List UInt8) (stop : UInt8) (file : List UInt8) :
    Option (ℕ × List UInt8) :=
  (strstr file 0 label).bind (cutField stop file)

/-- **The field behind a label**, with the position where it begins. -/
theorem cutLabel_eq_some_iff {label : List UInt8} {stop : UInt8} (hplain : Plain label)
    (hne : label ≠ []) (hstop : stop ≠ 0) {file x file' : List UInt8} :
    (∃ temp1, cutLabel label stop file = some (temp1, file') ∧ cstr (file'.drop temp1) = x) ↔
      HasField label stop file x file' := by
  constructor
  · rintro ⟨temp1, hcut, rfl⟩
    obtain ⟨i, hi, hfield⟩ := Option.bind_eq_some_iff.mp hcut
    obtain ⟨u, x, e, hskip, hfile, hx0, hx, rfl, rfl⟩ := (cutField_eq_some_iff hstop).mp hfield
    have hbehind : behind 0x9 label (cstr file) file = some u.length :=
      Option.bind_eq_some_iff.mpr ⟨i, strstr_zero file label ▸ hi, hskip⟩
    obtain ⟨a, c, r, hsplit, hpre, hfirst, hc, hlen⟩ :=
      (behind_eq_some_iff hplain.tab_notMem hne (cstr_isPrefix file)).mp hbehind
    have ha : 0 ∉ a := fun h => zero_notMem_cstr file (hpre.subset (List.mem_append_left label h))
    have hlen' : (a ++ label ++ c ++ [0x9]).length = u.length := by
      rw [List.length_append, List.length_singleton, hlen]
    have hsplit' : file = a ++ label ++ c ++ [0x9] ++ r := by
      rw [hsplit, ← List.append_assoc, List.append_cons]
    obtain ⟨rfl, rfl⟩ := List.append_inj (hsplit'.symm.trans hfile) hlen'
    rw [List.drop_left, cstr_append_zero hx0]
    refine ⟨a, c, e, ?_, ha, hfirst, hc, hx0, hx, ?_⟩
    · rw [hfile, ← List.append_cons]
    · rw [← List.append_cons]
  · rintro ⟨a, c, e, rfl, ha, hfirst, hc, hx0, hx, rfl⟩
    have hlabel : 0 ∉ a ++ label := by
      rw [List.mem_append, not_or]
      exact ⟨ha, hplain.zero_notMem⟩
    have hpre : a ++ label <+: cstr (a ++ label ++ c ++ 0x9 :: (x ++ stop :: e)) := by
      rw [List.append_assoc, cstr_append_of_notMem hlabel]
      exact List.prefix_append _ _
    have hbehind : behind 0x9 label (cstr (a ++ label ++ c ++ 0x9 :: (x ++ stop :: e)))
        (a ++ label ++ c ++ 0x9 :: (x ++ stop :: e)) = some ((a ++ label ++ c).length + 1) :=
      (behind_eq_some_iff hplain.tab_notMem hne (cstr_isPrefix _)).mpr
        ⟨a, c, x ++ stop :: e, List.append_assoc _ _ _, hpre, hfirst, hc, rfl⟩
    obtain ⟨i, hi, hskip⟩ := Option.bind_eq_some_iff.mp hbehind
    have hlen : (a ++ label ++ c ++ [0x9]).length = (a ++ label ++ c).length + 1 := by
      rw [List.length_append, List.length_singleton]
    refine ⟨(a ++ label ++ c ++ [0x9]).length, Option.bind_eq_some_iff.mpr ⟨i, ?_, ?_⟩, ?_⟩
    · rw [strstr_zero, hi]
    · refine (cutField_eq_some_iff hstop).mpr
        ⟨a ++ label ++ c ++ [0x9], x, e, ?_, ?_, hx0, hx, rfl, ?_⟩
      · rw [hskip, hlen]
      · rw [← List.append_cons]
      · rw [← List.append_cons]
    · rw [List.append_cons _ 0x9 (x ++ 0 :: e), List.drop_left, cstr_append_zero hx0]

/-- A newline is found exactly if there is one. -/
theorem strstr_newline_eq_none_iff {file : List UInt8} :
    strstr file 0 (ascii "\n") = none ↔ 0x0a ∉ cstr file := by
  rw [strstr_zero, findSub_eq_none_iff]
  exact not_congr (List.singleton_infix_iff _ _)

/-! ## One file -/

/-- There is no process id, or it has an end and a newline before the end. -/
theorem nameAndPid_ne_none_iff {file : List UInt8} :
    nameAndPid file ≠ none ↔
      (ascii "Pid:" <:+: cstr file →
        ∃ pid file', HasField (ascii "Pid:") 0x0a file pid file' ∧ 0x0a ∈ cstr file') := by
  cases hlabel : strstr file 0 (ascii "Pid:") with
  | none =>
    have hnot : ¬ ascii "Pid:" <:+: cstr file := by
      rwa [strstr_zero, findSub_eq_none_iff] at hlabel
    refine iff_of_true ?_ fun h => absurd h hnot
    rw [nameAndPid, hlabel]
    exact Option.some_ne_none none
  | some temp1 =>
    have hinfix : ascii "Pid:" <:+: cstr file := by
      by_contra hnot
      rw [← findSub_eq_none_iff, ← strstr_zero, hlabel] at hnot
      cases hnot
    have hcut : cutLabel (ascii "Pid:") 0x0a file = cutField 0x0a file temp1 := by
      rw [cutLabel, hlabel, Option.bind_some]
    rw [imp_iff_right hinfix, nameAndPid, hlabel]
    rw [Ne, Option.bind_eq_none_iff]
    simp only [not_forall, Prod.exists, Option.map_eq_none_iff, strstr_newline_eq_none_iff, not_not,
      ← cutLabel_eq_some_iff plain_pid pid_ne_nil newline_ne_zero, hcut]
    constructor
    · rintro ⟨t, file', hfield, hnewline⟩
      exact ⟨_, file', ⟨t, hfield, rfl⟩, hnewline⟩
    · rintro ⟨pid, file', ⟨t, hfield, -⟩, hnewline⟩
      exact ⟨t, file', hfield, hnewline⟩

/-- **The pass over a file** does not follow a null pointer or run out of the buffer exactly if the
fields it looks for are there. -/
theorem lookAt_ne_none_iff {uid : CInt} {file : List UInt8} :
    lookAt uid file ≠ none ↔ Readable uid file := by
  have hlook : lookAt uid file = (cutLabel (ascii "Uid:") 0x9 file).bind fun p =>
      if BitVec.ofInt 32 (atol (cstr (p.2.drop p.1))) = uid then
        (nameAndPid p.2).map fun printed =>
          ⟨BitVec.ofInt 32 (atol (cstr (p.2.drop p.1))), printed⟩
      else some ⟨BitVec.ofInt 32 (atol (cstr (p.2.drop p.1))), none⟩ := by
    rw [cutLabel, Option.bind_assoc]
    rfl
  have hbranch : ∀ (id : CInt) (file' : List UInt8),
      (if id = uid then (nameAndPid file').map (fun printed => Report.mk id printed)
        else some ⟨id, none⟩) ≠ none ↔ (id = uid → nameAndPid file' ≠ none) := by
    intro id file'
    split
    · rename_i hid
      rw [Ne, Option.map_eq_none_iff, imp_iff_right hid]
    · rename_i hid
      exact iff_of_true (Option.some_ne_none _) fun hid' => absurd hid' hid
  rw [hlook, Ne, Option.bind_eq_none_iff]
  simp only [not_forall, Prod.exists, hbranch, nameAndPid_ne_none_iff]
  constructor
  · rintro ⟨temp1, file', hcut, hrest⟩
    exact ⟨_, file', (cutLabel_eq_some_iff plain_uid uid_ne_nil tab_ne_zero).mp
      ⟨temp1, hcut, rfl⟩, hrest⟩
  · rintro ⟨x, file', hfield, hrest⟩
    obtain ⟨temp1, hcut, rfl⟩ :=
      (cutLabel_eq_some_iff plain_uid uid_ne_nil tab_ne_zero).mpr hfield
    exact ⟨temp1, file', hcut, hrest⟩

/-! ## The passes -/

section Passes

variable {entries : List (List UInt8)} {net : ℕ → List UInt8 → Option ReadResult} {uid : CInt}
  {file : CharArray 1024}

/-- The state before pass `k`, if there was one pass for each entry so far. -/
structure OnePassEach (entries : List (List UInt8)) (net : ℕ → List UInt8 → Option ReadResult)
    (file : CharArray 1024) (k : ℕ) (s : ScanState) : Prop where
  passes_eq : s.passes = k
  dirent_eq : s.dirent = k
  file_eq : s.file = bufferBefore entries net file k
  visited_eq : s.visited = List.range k

/-- More entries were looked at than `dirent` went by, so one of them was looked at twice, or the
loop stays at it. -/
def Behind (s : ScanState) : Prop := s.dirent < s.visited.length

/-- The search in a buffer with the fields, and in one without. -/
theorem search_of_readable {s : ScanState} {b : CharArray 1024} (h : Readable uid b.bytes) :
    ∃ printed, search uid s b =
      .inl ⟨s.passes + 1, s.dirent + 1, .zeros 1024, s.visited ++ [s.dirent], printed⟩ := by
  obtain ⟨report, hreport⟩ := Option.ne_none_iff_exists'.mp (lookAt_ne_none_iff.mpr h)
  exact ⟨s.printed ++ report.printed.toList, by rw [search, hreport]⟩

theorem search_of_not_readable {s : ScanState} {b : CharArray 1024}
    (h : ¬ Readable uid b.bytes) : search uid s b = .inr .outOfRange := by
  rw [← lookAt_ne_none_iff, Ne, not_not] at h
  rw [search, h]

/-- A pass looks at one entry, and goes by at most one. -/
theorem scanPass_inl {s t : ScanState} (h : scanPass entries net uid s = .inl t) :
    t.visited = s.visited ++ [s.dirent] ∧ t.dirent ≤ s.dirent + 1 := by
  have hsearch : ∀ b, search uid s b = .inl t →
      t.visited = s.visited ++ [s.dirent] ∧ t.dirent ≤ s.dirent + 1 := by
    intro b hb
    rw [search] at hb
    split at hb
    · cases hb
    · cases hb
      exact ⟨rfl, Nat.le_refl _⟩
  rw [scanPass] at h
  split at h
  · cases h
  · split at h
    · cases h
      exact ⟨rfl, Nat.le_refl _⟩
    · exact hsearch _ h
    · split at h
      · cases h
        exact ⟨rfl, Nat.le_succ _⟩
      · exact hsearch _ h

/-- The loop is left at the end of the directory or by the search. -/
theorem scanPass_inr {s : ScanState} {e : ScanExit} (h : scanPass entries net uid s = .inr e) :
    (entries.length ≤ s.dirent ∧ e = .finished s.visited s.printed) ∨ e = .outOfRange := by
  have hsearch : ∀ b, search uid s b = .inr e → e = .outOfRange := by
    intro b hb
    rw [search] at hb
    split at hb
    · cases hb
      rfl
    · cases hb
  rw [scanPass] at h
  split at h
  · rename_i hend
    cases h
    exact .inl ⟨List.getElem?_eq_none_iff.mp hend, rfl⟩
  · split at h
    · cases h
    · exact .inr (hsearch _ h)
    · split at h
      · cases h
      · exact .inr (hsearch _ h)

/-- **Once behind, always behind**: such a loop does not look at each entry once. -/
theorem Behind.not_finished {s : ScanState} {e : ScanExit} (hs : Behind s)
    (h : Returns (scanPass entries net uid) s e) : ¬ EachOnce entries e := by
  refine h.invariant Behind (fun e => ¬ EachOnce entries e) (fun s t hs hst => ?_)
    (fun s e hs hse => ?_) hs
  · obtain ⟨hvisited, hdirent⟩ := scanPass_inl hst
    unfold Behind at hs ⊢
    rw [hvisited, List.length_append, List.length_singleton]
    omega
  · rintro ⟨printed, rfl⟩
    obtain ⟨hend, hexit⟩ | hexit := scanPass_inr hse
    · have hlen : s.visited.length = entries.length := by
        rw [← (ScanExit.finished.inj hexit).1, List.length_range]
      unfold Behind at hs
      omega
    · cases hexit

theorem bufferBefore_succ_of_none {k : ℕ} (h : entries[k]?.bind (net k) = none) :
    bufferBefore entries net file (k + 1) = bufferBefore entries net file k := by
  rw [bufferBefore, h]
  rfl

theorem bufferBefore_succ_of_some {k : ℕ} {r : ReadResult}
    (h : entries[k]?.bind (net k) = some r) :
    bufferBefore entries net file (k + 1) = .zeros 1024 := by
  rw [bufferBefore, h]
  rfl

/-- The state after a pass that goes on to the next entry. -/
theorem OnePassEach.succ {k : ℕ} {s : ScanState} (hs : OnePassEach entries net file k s)
    {b : CharArray 1024} (hb : bufferBefore entries net file (k + 1) = b)
    (printed : List (List UInt8 × List UInt8)) :
    OnePassEach entries net file (k + 1)
      ⟨s.passes + 1, s.dirent + 1, b, s.visited ++ [s.dirent], printed⟩ where
  passes_eq := congrArg (· + 1) hs.passes_eq
  dirent_eq := congrArg (· + 1) hs.dirent_eq
  file_eq := hb.symm
  visited_eq := by
    show s.visited ++ [s.dirent] = List.range (k + 1)
    rw [hs.visited_eq, hs.dirent_eq, List.range_succ]

/-- What pass `k` does, if there was one pass for each entry so far. -/
theorem OnePassEach.scanPass_eq {k : ℕ} {s : ScanState} (hs : OnePassEach entries net file k s)
    (uid : CInt) (hk : k < entries.length) :
    scanPass entries net uid s =
      match entries[k]?.bind (net k) with
      | none =>
        .inl { s with
          passes := s.passes + 1
          dirent := s.dirent + 1
          visited := s.visited ++ [s.dirent] }
      | some .error => search uid s (bufferBefore entries net file k)
      | some (.data text) =>
        if text = [] then .inl { s with passes := s.passes + 1, visited := s.visited ++ [s.dirent] }
        else search uid s ((bufferBefore entries net file k).write (text.take 1024)) := by
  rw [scanPass, hs.dirent_eq, hs.passes_eq, hs.file_eq, List.getElem?_eq_getElem hk]
  rfl

/-- A fine pass goes on to the next entry. -/
theorem OnePassEach.step {k : ℕ} {s : ScanState} (hs : OnePassEach entries net file k s)
    (hk : k < entries.length) (hfine : Fine entries net uid file k) :
    ∃ t, scanPass entries net uid s = .inl t ∧ OnePassEach entries net file (k + 1) t := by
  rw [hs.scanPass_eq uid hk]
  unfold Fine at hfine
  cases hopen : entries[k]?.bind (net k) with
  | none =>
    exact ⟨_, rfl, hs.succ ((bufferBefore_succ_of_none hopen).trans hs.file_eq.symm) s.printed⟩
  | some result =>
    rw [hopen] at hfine
    have hsucc : bufferBefore entries net file (k + 1) = .zeros 1024 :=
      bufferBefore_succ_of_some hopen
    cases result with
    | error =>
      obtain ⟨printed, hsearch⟩ := search_of_readable (s := s) hfine
      exact ⟨_, hsearch, hs.succ hsucc printed⟩
    | data text =>
      obtain ⟨printed, hsearch⟩ := search_of_readable (s := s) hfine.2
      exact ⟨_, (if_neg hfine.1).trans hsearch, hs.succ hsucc printed⟩

/-- A pass that is not fine leaves the loop, or leaves it behind. -/
theorem OnePassEach.not_finished {k : ℕ} {s : ScanState} {e : ScanExit}
    (hs : OnePassEach entries net file k s) (hk : k < entries.length)
    (hfine : ¬ Fine entries net uid file k) (h : Returns (scanPass entries net uid) s e) :
    ¬ EachOnce entries e := by
  have hpass := hs.scanPass_eq uid hk
  have hout : ∀ b, ¬ Readable uid b.bytes → scanPass entries net uid s = search uid s b →
      ¬ EachOnce entries e := by
    rintro b hb hsearch ⟨printed, rfl⟩
    rw [search_of_not_readable hb] at hsearch
    cases (returns_inr_iff hsearch).mp h
  unfold Fine at hfine
  cases hopen : entries[k]?.bind (net k) with
  | none =>
    rw [hopen] at hfine
    exact absurd trivial hfine
  | some result =>
    rw [hopen] at hfine hpass
    cases result with
    | error => exact hout _ hfine hpass
    | data text =>
      by_cases htext : text = []
      · rw [returns_inl_iff (hpass.trans (if_pos htext))] at h
        refine Behind.not_finished ?_ h
        show s.dirent < (s.visited ++ [s.dirent]).length
        rw [hs.visited_eq, hs.dirent_eq, List.length_append, List.length_range,
          List.length_singleton]
        exact Nat.lt_succ_self k
      · exact hout _ (fun hread => hfine ⟨htext, hread⟩) (hpass.trans (if_neg htext))

/-- **When each entry is looked at once**: no status file is empty, and in each that is searched the
fields are found. -/
theorem scans_iff :
    Scans entries net uid file ↔ ∀ k < entries.length, Fine entries net uid file k := by
  refine exists_returns_iff_forall entries.length (OnePassEach entries net file)
    (Fine entries net uid file) _ (fun k s hk hs hfine => hs.step hk hfine) (fun s hs => ?_)
    (fun k s e hk hs hfine h => hs.not_finished hk hfine h) ⟨rfl, rfl, rfl, rfl⟩
  have hend : entries[s.dirent]? = none :=
    List.getElem?_eq_none_iff.mpr (Nat.le_of_eq hs.dirent_eq.symm)
  refine ⟨.finished s.visited s.printed, ?_, s.printed, by rw [hs.visited_eq]⟩
  rw [scanPass, hend]

/-- A status file that is empty whenever it is read: the loop stays at its entry. -/
theorem not_scans :
    ¬ ∀ (entries : List (List UInt8)) (net : ℕ → List UInt8 → Option ReadResult) (uid : CInt)
      (file : CharArray 1024), Scans entries net uid file := by
  intro h
  obtain ⟨e, hreturns, hexit⟩ := h [ascii "1"] (fun _ _ => some (.data [])) 0 (.zeros 1024)
  have hpass : scanPass [ascii "1"] (fun _ _ => some (.data [])) 0 (scanStart (.zeros 1024)) =
      .inl ⟨1, 0, .zeros 1024, [0], []⟩ := rfl
  rw [returns_inl_iff hpass] at hreturns
  have hbehind : Behind ⟨1, 0, .zeros 1024, [0], []⟩ := Nat.lt_succ_self 0
  exact hbehind.not_finished hreturns hexit

end Passes

end ProcessLister
end CodeStrudy
