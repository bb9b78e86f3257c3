import CodeStrudy.Foundation.CInt
import CodeStrudy.Foundation.Machine

/-!
# The datagram client that counts what it has sent

`practice/57.1/client.c` reads chunks of up to ten bytes from standard input and sends each of them
as one datagram on a socket that does not block.  When `sendto` returns -1 with `EAGAIN` the client
sends the chunk again and again until it is accepted, whatever the error is then; any other error of
the first call goes unnoticed.  What it adds to `sendnum` is the result of the first `sendto` in all
cases.

A datagram is accepted whole or not at all.  A label is one call with its result.

## What is proved

* `Counted.step`: the count and the chunks stay right in a step that meets `Sound`.
* `not_accounted_of_step`, `Retrying.step`: after any other step they are wrong, or the client is in
  its inner loop, which it leaves with a wrong count or not at all.
* `chunks_accounted_iff`: so the reports of a whole run are right, and every chunk is sent, exactly
  if all its steps meet `Sound`.
-/

namespace CodeStrudy
namespace DatagramClient

open Foundation

/-! ## `client.c` -/

/-- Where the client is: at `read`, at the first `sendto`, at the one in the inner loop, at the
`printf` of the report, or past the loop. -/
inductive Pc where
  | read
  | sendto
  | retry
  | report
  | ended
  deriving DecidableEq

/-- The client, and what it has read and the socket has accepted so far. -/
structure State where
  pc : Pc
  /-- The first `len` bytes of `buf`. -/
  buf : List UInt8
  lens : CInt
  sendnum : CInt
  chunks : List (List UInt8)
  accepted : List (List UInt8)

def start : State := ⟨.read, [], 0, 0, [], []⟩

/-- The result of a `sendto`: the length of the chunk, or -1. -/
inductive SendResult where
  | accepted
  | eagain
  | error
  deriving DecidableEq

/-- One call; `read` returns a chunk, or no more than zero at the end of the input or on failure. -/
inductive Label where
  | read (chunk : Option (List UInt8))
  | sendto (r : SendResult)
  | report

/-- `sendnum += lens;` -/
def State.count (s : State) : State := { s with pc := .report, sendnum := s.sendnum + s.lens }

/-- The socket accepts the chunk. -/
def State.accept (s : State) : State := { s with accepted := s.accepted ++ [s.buf] }

/-- One step. -/
def step (s : State) : Label → Option State
  | .read none => if s.pc = .read then some { s with pc := .ended } else none
  | .read (some chunk) =>
    if s.pc = .read ∧ 0 < chunk.length ∧ chunk.length ≤ 10 then
      some { s with pc := .sendto, buf := chunk, chunks := s.chunks ++ [chunk] }
    else none
  | .sendto r =>
    match s.pc, r with
    | .sendto, .accepted =>
      some { s.accept with lens := BitVec.ofNat 32 s.buf.length }.count
    | .sendto, .eagain => some { s with pc := .retry, lens := -1 }
    | .sendto, .error => some { s with lens := -1 }.count
    | .retry, .accepted => some s.accept.count
    | .retry, _ => some s
    | _, _ => none
  | .report => if s.pc = .report then some { s with pc := .read } else none

def machine : Machine State Label where
  init s := s = start
  step := step

/-! ## The account -/

/-- The chunk that is read and not yet sent. -/
def State.pending (s : State) : List (List UInt8) :=
  if s.pc = .sendto ∨ s.pc = .retry then [s.buf] else []

/-- A report gives the total length of the datagrams accepted, and these are the chunks read, in
order, up to the one at hand. -/
def Accounted (s : State) : Prop :=
  (s.pc = .report → s.sendnum.toInt = s.accepted.flatten.length) ∧
    s.chunks = s.accepted ++ s.pending

/-- Every chunk is accepted, behind those before it, or the client stops with an error; the latter
never happens, since no call in the loop is followed by `ERROUT`. -/
def AllSent (e : machine.Execution start) : Prop :=
  ∀ n, (e.state n).pc = .sendto →
    ∃ m, n ≤ m ∧ (e.state m).accepted = (e.state n).accepted ++ [(e.state n).buf]

/-- The first `sendto` for a chunk succeeds, and the total length is within an `int`. -/
def Sound (s : State) : Label → Prop
  | .sendto r => s.pc = .sendto →
      r = .accepted ∧ s.accepted.flatten.length + s.buf.length ≤ 2147483647
  | _ => True

/-! ## The invariant -/

/-- The count is right all the time, not only when it is reported. -/
structure Counted (s : State) : Prop where
  sendnum : s.sendnum.toInt = s.accepted.flatten.length
  chunks : s.chunks = s.accepted ++ s.pending
  /-- There are at most ten bytes in the buffer. -/
  length_le : s.buf.length ≤ 10
  not_retry : s.pc ≠ .retry

/-- The client is in its inner loop, and what it will count is -1. -/
structure Retrying (s : State) : Prop where
  pc : s.pc = .retry
  sendnum : s.sendnum.toInt = s.accepted.flatten.length
  lens : s.lens = -1

theorem Counted.accounted {s : State} (h : Counted s) : Accounted s :=
  ⟨fun _ => h.sendnum, h.chunks⟩

theorem counted_start : Counted start where
  sendnum := rfl
  chunks := rfl
  length_le := Nat.zero_le _
  not_retry := fun h => by cases h

/-- The length of a chunk added to the count. -/
theorem toInt_add_ofNat {sendnum : CInt} {total len : ℕ} (h : sendnum.toInt = total)
    (hlen : len ≤ 10) (hsum : total + len ≤ 2147483647) :
    (sendnum + BitVec.ofNat 32 len).toInt = (total + len : ℕ) := by
  rw [BitVec.toInt_add, CInt.toInt_ofNat_of_lt (by omega), h, Int.bmod]
  split <;> omega

/-- The result -1 added to the count. -/
theorem toInt_add_neg_one {sendnum : CInt} {total : ℕ} (h : sendnum.toInt = total) :
    (sendnum + -1).toInt = (total : ℤ) - 1 := by
  have hlt := sendnum.toInt_lt
  have hone : (-1 : CInt).toInt = -1 := by decide
  rw [h] at hlt
  rw [BitVec.toInt_add, hone, h, Int.bmod]
  split <;> omega

/-- What a step can do: one case for each call and result. -/
inductive Effect (s : State) : Label → State → Prop
  | ended (hpc : s.pc = .read) : Effect s (.read none) { s with pc := .ended }
  | read (chunk : List UInt8) (hlen : chunk.length ≤ 10) (hpc : s.pc = .read) :
      Effect s (.read (some chunk))
        { s with pc := .sendto, buf := chunk, chunks := s.chunks ++ [chunk] }
  | sent (hpc : s.pc = .sendto) :
      Effect s (.sendto .accepted) { s.accept with lens := BitVec.ofNat 32 s.buf.length }.count
  | blocked (hpc : s.pc = .sendto) :
      Effect s (.sendto .eagain) { s with pc := .retry, lens := -1 }
  | lost (hpc : s.pc = .sendto) : Effect s (.sendto .error) { s with lens := -1 }.count
  | sentLater (hpc : s.pc = .retry) : Effect s (.sendto .accepted) s.accept.count
  | blockedAgain (r : SendResult) (hr : r ≠ .accepted) (hpc : s.pc = .retry) :
      Effect s (.sendto r) s
  | reported (hpc : s.pc = .report) : Effect s .report { s with pc := .read }

theorem effect_of_step {s t : State} {a : Label} (h : step s a = some t) : Effect s a t := by
  unfold step at h
  split at h
  · obtain ⟨hpc, h⟩ := Option.ite_none_right_eq_some.mp h
    exact Option.some.inj h ▸ .ended hpc
  · obtain ⟨⟨hpc, -, hlen⟩, h⟩ := Option.ite_none_right_eq_some.mp h
    exact Option.some.inj h ▸ .read _ hlen hpc
  · split at h
    · exact Option.some.inj h ▸ .sent ‹_›
    · exact Option.some.inj h ▸ .blocked ‹_›
    · exact Option.some.inj h ▸ .lost ‹_›
    · exact Option.some.inj h ▸ .sentLater ‹_›
    · exact Option.some.inj h ▸ .blockedAgain _ ‹_› ‹_›
    · cases h
  · obtain ⟨hpc, h⟩ := Option.ite_none_right_eq_some.mp h
    exact Option.some.inj h ▸ .reported hpc

theorem length_flatten_accept (s : State) :
    s.accept.accepted.flatten.length = s.accepted.flatten.length + s.buf.length := by
  rw [State.accept, List.flatten_append, List.flatten_singleton, List.length_append]

theorem pending_of_sendto {s : State} (h : s.pc = .sendto ∨ s.pc = .retry) :
    s.pending = [s.buf] := if_pos h

theorem pending_of_read {s : State} (h : s.pc = .read) : s.pending = [] :=
  if_neg (by rw [h]; decide)

/-- The steps that meet the condition keep the account. -/
theorem Counted.step {s t : State} {a : Label} (hs : Counted s) (h : step s a = some t)
    (ha : Sound s a) : Counted t := by
  have hchunks := hs.chunks
  cases effect_of_step h with
  | ended hpc =>
    rw [pending_of_read hpc] at hchunks
    exact ⟨hs.sendnum, hchunks, hs.length_le, fun h => by cases h⟩
  | read chunk hlen hpc =>
    rw [pending_of_read hpc, List.append_nil] at hchunks
    exact ⟨hs.sendnum, congrArg (· ++ [chunk]) hchunks, hlen, fun h => by cases h⟩
  | sent hpc =>
    rw [pending_of_sendto (.inl hpc)] at hchunks
    refine ⟨?_, hchunks.trans (List.append_nil _).symm, hs.length_le, fun h => by cases h⟩
    show (s.sendnum + BitVec.ofNat 32 s.buf.length).toInt = s.accept.accepted.flatten.length
    rw [length_flatten_accept]
    exact toInt_add_ofNat hs.sendnum hs.length_le (ha hpc).2
  | blocked hpc => cases (ha hpc).1
  | lost hpc => cases (ha hpc).1
  | sentLater hpc => exact absurd hpc hs.not_retry
  | blockedAgain r hr hpc => exact absurd hpc hs.not_retry
  | reported hpc =>
    refine ⟨hs.sendnum, hchunks.trans ?_, hs.length_le, fun h => by cases h⟩
    rw [State.pending, if_neg (by rw [hpc]; decide)]
    rfl

/-- Any other step makes the account wrong, or leads to the inner loop. -/
theorem not_accounted_of_step {s t : State} {a : Label} (hs : Counted s) (h : step s a = some t)
    (ha : ¬ Sound s a) :
    ¬ Accounted t ∨ Retrying t ∧ s.pc = .sendto ∧ t.accepted = s.accepted := by
  have hchunks := hs.chunks
  cases effect_of_step h with
  | ended hpc | read chunk hlen hpc | reported hpc => exact absurd trivial ha
  | sent hpc =>
    -- the total is not within an `int`
    refine .inl fun hacc => ha fun _ => ⟨rfl, ?_⟩
    have hcount : (s.sendnum + BitVec.ofNat 32 s.buf.length).toInt =
        s.accept.accepted.flatten.length := hacc.1 rfl
    have hlt := (s.sendnum + BitVec.ofNat 32 s.buf.length).toInt_lt
    rw [hcount, length_flatten_accept] at hlt
    omega
  | blocked hpc => exact .inr ⟨⟨rfl, hs.sendnum, rfl⟩, hpc, rfl⟩
  | lost hpc =>
    -- the chunk is left out
    refine .inl fun hacc => ?_
    rw [pending_of_sendto (.inl hpc)] at hchunks
    have hlost : s.accepted ++ [s.buf] = s.accepted ++ [] := hchunks.symm.trans hacc.2
    exact absurd (List.append_cancel_left hlost) (List.cons_ne_nil _ _)
  | sentLater hpc => exact absurd hpc hs.not_retry
  | blockedAgain r hr hpc => exact absurd hpc hs.not_retry

/-- The inner loop is left with a wrong count, since the first result is counted and not the last;
or it goes on. -/
theorem Retrying.step {s t : State} {a : Label} (hs : Retrying s) (h : step s a = some t) :
    ¬ Accounted t ∨ t = s := by
  have hpc := hs.pc
  cases effect_of_step h with
  | ended hpc' | read chunk hlen hpc' | sent hpc' | blocked hpc' | lost hpc' | reported hpc' =>
    cases hpc.symm.trans hpc'
  | sentLater _ =>
    refine .inl fun hacc => ?_
    have hcount : (s.sendnum + s.lens).toInt = s.accept.accepted.flatten.length := hacc.1 rfl
    rw [hs.lens, toInt_add_neg_one hs.sendnum, length_flatten_accept] at hcount
    omega
  | blockedAgain r hr _ => exact .inr rfl

/-- A `sendto` that is as it should be. -/
theorem accepted_of_step {s t : State} {a : Label} (hpc : s.pc = .sendto) (h : step s a = some t)
    (ha : Sound s a) : t.accepted = s.accepted ++ [s.buf] := by
  cases effect_of_step h with
  | ended hpc' | read chunk hlen hpc' | sentLater hpc' | blockedAgain r hr hpc' | reported hpc' =>
    cases hpc.symm.trans hpc'
  | sent _ => rfl
  | blocked _ => cases (ha hpc).1
  | lost _ => cases (ha hpc).1

theorem not_stuck_of_sendto {s : State} (h : s.pc = .sendto) : ¬ machine.Stuck s := by
  intro hstuck
  have hnone : DatagramClient.step s (.sendto .error) = none :=
    hstuck (.sendto .error)
  simp [DatagramClient.step, h] at hnone

/-- A run whose reports are right does not leave the inner loop. -/
theorem Retrying.forever {e : machine.Execution start} (hacc : ∀ n, Accounted (e.state n)) {n : ℕ}
    (hs : Retrying (e.state n)) {m : ℕ} (hm : n ≤ m) : e.state m = e.state n := by
  induction m, hm using Nat.le_induction with
  | base => rfl
  | succ m _ ih =>
    rcases e.next m with hst | ⟨-, hsame⟩
    · rw [ih] at hst
      exact (hs.step hst).resolve_left fun hnot => hnot (hacc (m + 1))
    · rw [hsame, ih]

/-- A step with a chunk at hand that is not as it should be: the chunk is not sent. -/
theorem sound_of_accounted {e : machine.Execution start} (hacc : ∀ n, Accounted (e.state n))
    (hsent : AllSent e) {n : ℕ} (hs : Counted (e.state n)) : Sound (e.state n) (e.label n) := by
  by_contra hnot
  have hpc : (e.state n).pc = .sendto := by
    by_contra hpc
    refine hnot ?_
    cases e.label n with
    | sendto r => exact fun h => absurd h hpc
    | read chunk => trivial
    | report => trivial
  have hst := e.step_of_not_stuck (not_stuck_of_sendto hpc)
  rcases not_accounted_of_step hs hst hnot with hwrong | ⟨hretry, -, hsame⟩
  · exact hwrong (hacc (n + 1))
  · obtain ⟨m, hm, haccepted⟩ := hsent n hpc
    have hstays : (e.state m).accepted = (e.state n).accepted := by
      rcases Nat.eq_or_lt_of_le hm with rfl | hlt
      · rfl
      · rw [hretry.forever hacc hlt, hsame]
    rw [hstays] at haccepted
    exact absurd (List.append_right_eq_self.mp haccepted.symm) (List.cons_ne_nil _ _)

/-- **When the client's account is right.**  For every whole run, whatever is read and whatever
`sendto` returns: each report gives the number of bytes accepted so far, the datagrams accepted are
the chunks read, in order, and every chunk is sent, exactly if the first `sendto` for each chunk
succeeds and the number of bytes stays within an `int`. -/
theorem chunks_accounted_iff (e : machine.Execution start) :
    ((∀ n, Accounted (e.state n)) ∧ AllSent e) ↔ ∀ n, Sound (e.state n) (e.label n) := by
  have hkeep : ∀ s a t, Counted s → Sound s a → machine.step s a = some t → Counted t :=
    fun s a t hs ha hst => hs.step hst ha
  constructor
  · rintro ⟨hacc, hsent⟩ n
    have hsound : ∀ n, Counted (e.state n) → Sound (e.state n) (e.label n) := fun n hs =>
      sound_of_accounted hacc hsent hs
    exact hsound n (e.invariant counted_start hsound hkeep n)
  · intro hsound
    have hcounted := e.invariant counted_start (fun n _ => hsound n) hkeep
    refine ⟨fun n => (hcounted n).accounted, fun n hpc => ⟨n + 1, Nat.le_succ n, ?_⟩⟩
    exact accepted_of_step hpc (e.step_of_not_stuck (not_stuck_of_sendto hpc)) (hsound n)

/-- The states of a run in which a chunk is accepted on the second attempt. -/
def secondAttempt : ℕ → State
  | 0 => start
  | 1 => ⟨.sendto, [0x61], 0, 0, [[0x61]], []⟩
  | 2 => ⟨.retry, [0x61], -1, 0, [[0x61]], []⟩
  | 3 => ⟨.report, [0x61], -1, -1, [[0x61]], [[0x61]]⟩
  | 4 => ⟨.read, [0x61], -1, -1, [[0x61]], [[0x61]]⟩
  | _ => ⟨.ended, [0x61], -1, -1, [[0x61]], [[0x61]]⟩

theorem stuck_of_ended {s : State} (h : s.pc = .ended) : machine.Stuck s := by
  intro a
  show step s a = none
  unfold step
  split
  · rw [h]
    rfl
  · rw [h]
    rfl
  · rw [h]
  · rw [h]
    rfl

/-- The run. -/
def secondAttemptRun : machine.Execution start where
  state := secondAttempt
  label
    | 0 => .read (some [0x61])
    | 1 => .sendto .eagain
    | 2 => .sendto .accepted
    | 3 => .report
    | _ => .read none
  start := rfl
  next
    | 0 | 1 | 2 | 3 | 4 => .inl rfl
    | _ + 5 => .inr ⟨stuck_of_ended rfl, rfl⟩

/-- Its report is that -1 byte was sent. -/
theorem not_chunks_accounted : ¬ ∀ e : machine.Execution start,
    (∀ n, Accounted (e.state n)) ∧ AllSent e := by
  intro h
  exact absurd (((h secondAttemptRun).1 3).1 rfl) (by decide)

end DatagramClient
end CodeStrudy
