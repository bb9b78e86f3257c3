import CodeStrudy.Foundation.CString
import CodeStrudy.Foundation.Machine
import Mathlib.Data.List.Infix

/-!
# The echo client and its server

`routines/60.4.id_echo_tcp`: for each of its arguments the client writes the message, reads once and
prints what the read returned; the server writes back what it reads.  TCP keeps the bytes of a
connection in order and nothing more: a `read` returns any number of the bytes that have arrived, at
least one and at most the size of the buffer.

The bytes that the client has written and not read are in three places: on the way to the server, in
the server's buffer, and on the way back.

## What is proved

`echoed_throughout_iff`: the lines are the messages, and the client never waits for an echo that
does not come, exactly if no message is empty and each `read` of the client returns all that is
outstanding.
-/

namespace CodeStrudy
namespace IdEcho

open Foundation

def BUF_SIZE : ℕ := 512

/-- The bytes of `"--help"`. -/
def helpFlag : List UInt8 := [0x2d, 0x2d, 0x68, 0x65, 0x6c, 0x70]

/-- What the client prints: the count and the characters of `"[%ld bytes] %.*s\n"`. -/
structure Line where
  numRead : ℕ
  text : List UInt8
  deriving DecidableEq

/-- The line for the bytes of a `read`: `%.*s` stops at a zero byte. -/
def Line.print (bytes : List UInt8) : Line := ⟨bytes.length, cstr bytes⟩

/-- The line that carries a message. -/
def Line.of (m : CStr) : Line := ⟨m.chars.length, m.chars⟩

/-- A line printed for the bytes of a message carries the message. -/
theorem Line.print_chars (m : CStr) : Line.print m.chars = Line.of m := by
  rw [Line.print, cstr_of_notMem m.zero_notMem]
  rfl

/-- Where the client is: at the `write` or the `read` of its loop, or past its exit. -/
inductive ClientPc where
  | write
  | read
  | exited
  deriving DecidableEq

/-- Where `handRequest` is: at its `read`, at its `write` with the bytes it has read, or returned.
-/
inductive ServerPc where
  | read
  | write (buf : List UInt8)
  | returned
  deriving DecidableEq

/-- The bytes in the server's buffer that are to be written back. -/
def ServerPc.buf : ServerPc → List UInt8
  | .write buf => buf
  | .read | .returned => []

/-- The client, the server's child, and the connection between them. -/
structure State where
  client : ClientPc
  server : ServerPc
  /-- How many messages the client has gone through. -/
  i : ℕ
  /-- Written by the client and not read by the server. -/
  up : List UInt8
  /-- Written by the server and not read by the client. -/
  down : List UInt8
  lines : List Line
  deriving DecidableEq

/-- The messages that the client's loop goes through; none if it exits with its usage text. -/
def messages (argv : List CStr) : List CStr :=
  if charArgc argv.length < 2 ∨ argv[1]?.map CStr.chars = some helpFlag then []
  else (argv.take (charArgc argv.length).toNat).drop 2

/-- One move: a call of the client or of the server, with the number of bytes it reads. -/
inductive Label where
  | clientWrite
  | clientRead (numRead : ℕ)
  | serverRead (numRd : ℕ)
  | serverWrite
  | serverEof
  deriving DecidableEq

/-- A `read` may return this many of the bytes that have arrived. -/
def Readable (n : ℕ) (arrived : List UInt8) : Prop := 0 < n ∧ n ≤ BUF_SIZE ∧ n ≤ arrived.length

instance (n : ℕ) (arrived : List UInt8) : Decidable (Readable n arrived) :=
  inferInstanceAs (Decidable (_ ∧ _ ∧ _))

/-- One step. -/
def step (argv : List CStr) (s : State) : Label → Option State
  | .clientWrite =>
    if s.client = .write then
      match (messages argv)[s.i]? with
      | none => some { s with client := .exited }
      | some m => some { s with client := .read, up := s.up ++ m.chars }
    else none
  | .clientRead numRead =>
    if s.client = .read ∧ Readable numRead s.down then
      some { s with
        client := .write
        i := s.i + 1
        down := s.down.drop numRead
        lines := s.lines ++ [Line.print (s.down.take numRead)] }
    else none
  | .serverRead numRd =>
    if s.server = .read ∧ Readable numRd s.up then
      some { s with server := .write (s.up.take numRd), up := s.up.drop numRd }
    else none
  | .serverWrite =>
    match s.server with
    | .write buf => some { s with server := .read, down := s.down ++ buf }
    | _ => none
  | .serverEof =>
    if s.server = .read ∧ s.client = .exited ∧ s.up = [] then some { s with server := .returned }
    else none

/-- The connection is made. -/
def initial : State := ⟨.write, .read, 0, [], [], []⟩

/-- The client, called with `argv`, and the server's child. -/
def machine (argv : List CStr) : Machine State Label where
  init s := s = initial
  step := step argv

/-! ## The property -/

/-- The bytes of the client's messages that it has not read back. -/
def State.outstanding (s : State) : List UInt8 := s.down ++ s.server.buf ++ s.up

/-- The lines carry the messages in order, and the client does not wait for an echo that will not
come. -/
structure Echoed (argv : List CStr) (s : State) : Prop where
  lines : s.lines <+: (argv.drop 2).map Line.of
  waits : s.client = .read → s.outstanding ≠ []

/-- The messages written are not empty, and the client reads all that is outstanding at once. -/
def Whole (argv : List CStr) (s : State) : Label → Prop
  | .clientWrite => ∀ m ∈ (messages argv)[s.i]?, m.chars ≠ []
  | .clientRead numRead => numRead = s.outstanding.length
  | _ => True

/-- What holds as long as every step has met `Whole`. -/
structure Inv (argv : List CStr) (s : State) : Prop where
  lines : s.lines = ((messages argv).take s.i).map Line.of
  i_le : s.i ≤ (messages argv).length
  /-- What is outstanding is the message that the client waits for. -/
  waits : s.client = .read → ∃ m, (messages argv)[s.i]? = some m ∧ s.outstanding = m.chars ∧
    m.chars ≠ []
  idle : s.client ≠ .read → s.outstanding = []

variable {argv : List CStr} {s t : State}

theorem getElem?_of_isPrefix {α : Type*} {l₁ l₂ : List α} {i : ℕ} {x : α} (h : l₁ <+: l₂)
    (hi : l₁[i]? = some x) : l₂[i]? = some x := by
  obtain ⟨r, rfl⟩ := h
  rw [List.getElem?_append_left (List.getElem?_eq_some_iff.mp hi).1, hi]

/-- The loop goes through the arguments in order. -/
theorem messages_isPrefix (argv : List CStr) : messages argv <+: argv.drop 2 := by
  unfold messages
  split
  · exact List.nil_prefix
  · exact List.IsPrefix.drop (List.take_prefix _ _) 2

theorem Inv.echoed (h : Inv argv s) : Echoed argv s where
  lines := by
    rw [h.lines]
    exact ((List.take_prefix _ _).trans (messages_isPrefix argv)).map Line.of
  waits := by
    intro hread
    obtain ⟨m, -, hout, hne⟩ := h.waits hread
    rw [hout]
    exact hne

theorem inv_initial (argv : List CStr) : Inv argv initial where
  lines := rfl
  i_le := Nat.zero_le _
  waits := fun h => nomatch h
  idle := fun _ => rfl

/-! ## Steps -/

/-- A step of the server moves bytes and loses none. -/
theorem Inv.of_outstanding (h : Inv argv s) (hout : t.outstanding = s.outstanding)
    (hclient : t.client = s.client) (hi : t.i = s.i) (hlines : t.lines = s.lines) :
    Inv argv t where
  lines := by rw [hlines, hi, h.lines]
  i_le := hi ▸ h.i_le
  waits := by
    rw [hclient, hi, hout]
    exact h.waits
  idle := by
    rw [hclient, hout]
    exact h.idle

theorem Inv.clientWrite (h : Inv argv s) (hs : (machine argv).step s .clientWrite = some t)
    (hC : Whole argv s .clientWrite) : Inv argv t := by
  obtain ⟨hpc, ht⟩ := Option.ite_none_right_eq_some.mp hs
  have hempty : s.outstanding = [] := h.idle (by simp [hpc])
  cases hm : (messages argv)[s.i]? with
  | none =>
    rw [hm] at ht
    obtain rfl := Option.some.inj ht
    exact ⟨h.lines, h.i_le, (fun hread => nomatch hread), fun _ => hempty⟩
  | some m =>
    rw [hm] at ht
    obtain rfl := Option.some.inj ht
    refine ⟨h.lines, h.i_le, fun _ => ⟨m, hm, ?_, hC m hm⟩, fun hne => absurd rfl hne⟩
    show s.down ++ s.server.buf ++ (s.up ++ m.chars) = m.chars
    rw [← List.append_assoc, show s.down ++ s.server.buf ++ s.up = [] from hempty,
      List.nil_append]

/-- What a `read` of the client returns is the beginning of what is outstanding. -/
theorem take_outstanding {n : ℕ} (h : n ≤ s.down.length) :
    s.outstanding.take n = s.down.take n := by
  rw [State.outstanding, List.append_assoc, List.take_append_of_le_length h]

theorem Inv.clientRead {numRead : ℕ} (h : Inv argv s)
    (hs : (machine argv).step s (.clientRead numRead) = some t)
    (hC : Whole argv s (.clientRead numRead)) : Inv argv t := by
  obtain ⟨⟨hpc, -, -, hle⟩, ht⟩ := Option.ite_none_right_eq_some.mp hs
  obtain ⟨m, hm, hout, -⟩ := h.waits hpc
  have hlen : numRead = s.down.length + s.server.buf.length + s.up.length := by
    rw [hC, State.outstanding, List.length_append, List.length_append]
  have htake : s.down.take numRead = m.chars := by
    rw [← take_outstanding hle, hC, List.take_length, hout]
  obtain rfl := Option.some.inj ht
  have hlt := (List.getElem?_eq_some_iff.mp hm).1
  refine ⟨?_, hlt, (fun hread => nomatch hread), fun _ => ?_⟩
  · show s.lines ++ [Line.print (s.down.take numRead)] = _
    rw [h.lines, htake, Line.print_chars, List.take_add_one, hm, List.map_append]
    rfl
  · -- nothing is left behind what was read
    have hbuf : s.server.buf = [] := List.eq_nil_of_length_eq_zero (by omega)
    have hup : s.up = [] := List.eq_nil_of_length_eq_zero (by omega)
    show s.down.drop numRead ++ s.server.buf ++ s.up = []
    rw [hbuf, hup, List.append_nil, List.append_nil, List.drop_eq_nil_iff]
    omega

theorem Inv.step (s : State) (a : Label) (t : State) (h : Inv argv s)
    (hs : (machine argv).step s a = some t) (hC : Whole argv s a) : Inv argv t := by
  rcases a with _ | numRead | numRd | _ | _
  · exact h.clientWrite hs hC
  · exact h.clientRead hs hC
  · obtain ⟨⟨hpc, -⟩, ht⟩ := Option.ite_none_right_eq_some.mp hs
    obtain rfl := Option.some.inj ht
    refine h.of_outstanding ?_ rfl rfl rfl
    show s.down ++ s.up.take numRd ++ s.up.drop numRd = s.down ++ s.server.buf ++ s.up
    rw [hpc, List.append_assoc, List.take_append_drop, ServerPc.buf, List.append_nil]
  · simp only [machine, IdEcho.step] at hs
    split at hs
    · rename_i buf hpc
      obtain rfl := Option.some.inj hs
      refine h.of_outstanding ?_ rfl rfl rfl
      show s.down ++ buf ++ [] ++ s.up = s.down ++ s.server.buf ++ s.up
      rw [hpc, List.append_nil, ServerPc.buf]
    · cases hs
  · obtain ⟨⟨hpc, -⟩, ht⟩ := Option.ite_none_right_eq_some.mp hs
    obtain rfl := Option.some.inj ht
    refine h.of_outstanding ?_ rfl rfl rfl
    show s.down ++ [] ++ s.up = s.down ++ s.server.buf ++ s.up
    rw [hpc, ServerPc.buf]

/-- A step that fails `Whole` prints a wrong line, or leaves the client waiting for nothing. -/
theorem not_echoed_of_not_whole (s : State) (a : Label) (t : State) (h : Inv argv s)
    (hs : (machine argv).step s a = some t) (hC : ¬ Whole argv s a) : ¬ Echoed argv t := by
  intro ht
  rcases a with _ | numRead | numRd | _ | _
  · obtain ⟨hpc, hst⟩ := Option.ite_none_right_eq_some.mp hs
    have hempty : s.outstanding = [] := h.idle (by simp [hpc])
    refine hC fun m hm hchars => ?_
    rw [show (messages argv)[s.i]? = some m from hm] at hst
    obtain rfl := Option.some.inj hst
    refine ht.waits rfl ?_
    show s.down ++ s.server.buf ++ (s.up ++ m.chars) = []
    rw [hchars, List.append_nil]
    exact hempty
  · obtain ⟨⟨hpc, -, -, hle⟩, hst⟩ := Option.ite_none_right_eq_some.mp hs
    obtain ⟨m, hm, hout, -⟩ := h.waits hpc
    obtain rfl := Option.some.inj hst
    have hlines : s.lines ++ [Line.print (s.down.take numRead)] <+: (argv.drop 2).map Line.of :=
      ht.lines
    have hi : s.lines.length = s.i := by
      rw [h.lines, List.length_map, List.length_take, Nat.min_eq_left h.i_le]
    -- the line just printed is the one of the message
    have hline : Line.print (s.down.take numRead) = Line.of m := by
      have harg : (argv.drop 2)[s.i]? = some m :=
        getElem?_of_isPrefix (messages_isPrefix argv) hm
      have hlast : (s.lines ++ [Line.print (s.down.take numRead)])[s.i]? =
          some (Line.print (s.down.take numRead)) := by
        rw [List.getElem?_append_right hi.le, hi, Nat.sub_self]
        rfl
      have hget := getElem?_of_isPrefix hlines hlast
      rw [List.getElem?_map, harg] at hget
      exact (Option.some.inj hget).symm
    have hnum : min numRead s.down.length = m.chars.length := by
      rw [← List.length_take]
      exact congrArg Line.numRead hline
    refine hC ?_
    rw [Nat.min_eq_left hle] at hnum
    rw [hnum, ← hout]
    rfl
  · exact hC trivial
  · exact hC trivial
  · exact hC trivial

/-! ## The result -/

/-- **When the lines carry the messages.**  For every argument list and every way in which the reads
of both sides split the stream: in every state of the run the lines are the messages in order and
the client does not wait for an echo that will not come, exactly when every step of the run meets
`Whole`. -/
theorem echoed_throughout_iff (argv : List CStr) (as : List Label) :
    (machine argv).Throughout (Echoed argv) initial as ↔
      (machine argv).Respects (Whole argv) initial as :=
  Machine.throughout_iff_respects_of_invariant (M := machine argv) (fun _ h => h.echoed)
    Inv.step not_echoed_of_not_whole as (inv_initial argv)

/-- The message `"ab"` comes back in two pieces: the first line is the first piece. -/
theorem not_echoed : ¬ ∀ argv s, (machine argv).Reachable s → Echoed argv s := by
  intro h
  let argv : List CStr := [⟨[], by decide⟩, ⟨[0x68], by decide⟩, ⟨[0x61, 0x62], by decide⟩]
  have hrun := (Machine.Reachable.init (M := machine argv) (s := initial) rfl).run
    [.clientWrite, .serverRead 1, .serverWrite, .clientRead 1] rfl
  have hlines : [(⟨1, [0x61]⟩ : Line)] <+: [⟨2, [0x61, 0x62]⟩] := (h argv _ hrun).lines
  exact absurd hlines (by decide)

end IdEcho
end CodeStrudy
