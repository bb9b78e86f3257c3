import CodeStrudy.UdpEcho.System
import Mathlib.Algebra.BigOperators.Group.Finset.Basic
import Mathlib.Algebra.Order.BigOperators.Group.Finset

/-!
# The echo clients when nothing goes wrong

`routines/60.2.id_echo_udp` over a network that loses and doubles nothing, with calls that succeed.
The order of the datagrams is still open, and so is the order in which the clients go on.

## What is proved

* `Going.move`: every step brings the clients nearer to their ends.
* `Going.exists_step`: as long as one of them is not there, somebody can go on.
* `all_answered`: all runs come to the ends of all clients, with all their messages echoed.
-/

namespace CodeStrudy
namespace UdpEcho

open Foundation IdEcho

variable {ι : Type*} [DecidableEq ι] {sys : Setting ι} {s t : State sys}

instance : (a : Label ι) → Decidable a.Reliable
  | .connect _ ok | .write _ ok | .serve _ _ ok => inferInstanceAs (Decidable (ok = true))
  | .read _ _ => .isTrue trivial
  | .readFails _ | .recvFails | .loseUp _ | .loseDown _ | .doubleUp _ | .doubleDown _ =>
    .isFalse id

/-- A step after which nothing is missing. -/
def Good (s : State sys) (a : Label ι) : Prop := AddressFits sys s a ∧ a.Reliable

instance (s : State sys) (a : Label ι) : Decidable (Good s a) :=
  inferInstanceAs (Decidable (_ ∧ _))

omit [DecidableEq ι] in
theorem Label.Reliable.single {a : Label ι} (h : a.Reliable) : a.Single := by
  cases a <;> trivial

/-- Nothing has gone wrong so far. -/
structure Going (s : State sys) : Prop where
  single : Single s
  serving : s.serving = true
  notFailed : ∀ c, s.client c ≠ .failed
  notLost : ∀ c, s.lost c = 0

/-- How far a client is from its end. -/
def ClientPc.rank (messages sent : ℕ) : ClientPc → ℕ
  | .connect => 4 * (messages - sent) + 2
  | .write | .read => 4 * (messages - sent) + 1
  | .exited | .failed => 0

def State.rank (s : State sys) (c : ι) : ℕ :=
  (s.client c).rank (messages (sys.argv c)).length (s.sent c)

/-- How far all are from the end; a datagram on its way to the server still has two ways to go. -/
def State.rest [Fintype ι] (s : State sys) : ℕ :=
  ∑ c, s.rank c + 2 * s.up.length + s.down.length

/-! ## One step -/

/-- A step of one client makes the rest smaller if it does so for the client and the network. -/
theorem rest_lt [Fintype ι] (c : ι) (hframe : ∀ c' ≠ c, t.rank c' = s.rank c')
    (h : t.rank c + 2 * t.up.length + t.down.length <
      s.rank c + 2 * s.up.length + s.down.length) : t.rest < s.rest := by
  have hothers : ∑ c' ∈ Finset.univ.erase c, t.rank c' = ∑ c' ∈ Finset.univ.erase c, s.rank c' :=
    Finset.sum_congr rfl fun c' hc' => hframe c' (Finset.ne_of_mem_erase hc')
  have ht := Finset.add_sum_erase Finset.univ t.rank (Finset.mem_univ c)
  have hs := Finset.add_sum_erase Finset.univ s.rank (Finset.mem_univ c)
  rw [State.rest, State.rest]
  omega

theorem ne_failed_update {client : ι → ClientPc} (h : ∀ c, client c ≠ .failed) {c : ι}
    {p : ClientPc} (hp : p ≠ .failed) (c' : ι) : Function.update client c p c' ≠ .failed := by
  by_cases hcc : c' = c
  · subst hcc
    rw [Function.update_self]
    exact hp
  · rw [Function.update_of_ne hcc]
    exact h c'

/-- **Every step brings the clients nearer to their ends.** -/
theorem Going.move [Fintype ι] {a : Label ι} (ha : a.Reliable) (hs : Going s) (h : Move s a t) :
    Going t ∧ t.rest < s.rest := by
  have hsingle := hs.single.move ha.single h
  cases h with
  | fail c hbad => exact absurd ha hbad
  | connected c hc =>
    refine ⟨⟨hsingle, hs.serving, ne_failed_update hs.notFailed nofun, hs.notLost⟩,
      rest_lt c (fun c' hc' => ?_) ?_⟩
    · simp only [State.rank, Function.update_of_ne hc']
    · simp only [State.rank, Function.update_self, hc, ClientPc.rank]
      omega
  | exit c hc hend =>
    refine ⟨⟨hsingle, hs.serving, ne_failed_update hs.notFailed nofun, hs.notLost⟩,
      rest_lt c (fun c' hc' => ?_) ?_⟩
    · simp only [State.rank, Function.update_of_ne hc']
    · simp only [State.rank, Function.update_self, hc, ClientPc.rank]
      omega
  | send c m hc hm =>
    have hlt := (List.getElem?_eq_some_iff.mp hm).1
    refine ⟨⟨hsingle, hs.serving, ne_failed_update hs.notFailed nofun, hs.notLost⟩,
      rest_lt c (fun c' hc' => ?_) ?_⟩
    · simp only [State.rank, Function.update_of_ne hc']
    · simp only [State.rank, Function.update_self, hc, ClientPc.rank, List.length_append,
        List.length_singleton]
      omega
  | answer c k d down hc hd hfor =>
    refine ⟨⟨hsingle, hs.serving, ne_failed_update hs.notFailed nofun, hs.notLost⟩,
      rest_lt c (fun c' hc' => ?_) ?_⟩
    · simp only [State.rank, Function.update_of_ne hc']
    · simp only [State.rank, Function.update_self, hc, ClientPc.rank, Network.length_pick hd]
      omega
  | reply k d up buf sockaddr hd =>
    refine ⟨⟨hsingle, hs.serving, hs.notFailed, hs.notLost⟩, rest_lt d.1 (fun c' hc' => rfl) ?_⟩
    simp only [State.rank, Network.length_pick hd, List.length_append, List.length_singleton]
    omega
  | loseUp k d up buf sockaddr hd hbad => exact absurd ha hbad
  | loseDown k d down hd hbad => exact absurd ha hbad
  | doubleUp d hd _ hbad => exact absurd ha hbad
  | doubleDown d hd _ hbad => exact absurd ha hbad
  | stop hbad => exact absurd ha hbad

/-! ## Somebody can go on -/

/-- All clients have come to their ends and have got the echoes of all their messages. -/
def AllAnswered (s : State sys) : Prop :=
  ∀ c, s.client c = .exited ∧ s.lines c = (messages (sys.argv c)).map echoLine

/-- The end of an address. -/
def addressEnd {f : Family} (a : CharArray f.size) : CharArray (28 - sockaddrSize) :=
  match f, a with
  | .inet, _ => default
  | .inet6, a => ⟨a.bytes.drop sockaddrSize, by rw [List.length_drop, a.length_bytes]; rfl⟩

theorem addressEnd_bytes {f : Family} (a : CharArray f.size) :
    f = .inet ∨ (addressEnd a).bytes = a.bytes.drop sockaddrSize := by
  cases f with
  | inet => exact .inl rfl
  | inet6 => exact .inr rfl

/-- A datagram that has reached the server can be answered. -/
theorem exists_serve (hs : Going s) {d : ι × List UInt8} (hd : d ∈ s.up) :
    ∃ a, Good s a ∧ ∃ t, step sys s a = some t := by
  obtain ⟨k, up, hpick⟩ := Network.exists_pick hd
  have hget := Network.getElem?_of_pick hpick
  refine ⟨.serve k (addressEnd (sys.addr d.1)) true, ⟨?_, rfl⟩, ?_⟩
  · refine (addressEnd_bytes (sys.addr d.1)).imp_right fun h d' hd' => ?_
    obtain rfl : d = d' := Option.some.inj (hget.symm.trans hd')
    exact h
  · simp only [step, hs.serving, hpick]
    exact ⟨_, rfl⟩

/-- **As long as not all have come to their ends, somebody can go on.** -/
theorem Going.exists_step (hs : Going s) (hend : ¬ AllAnswered s) :
    ∃ a, Good s a ∧ ∃ t, step sys s a = some t := by
  obtain ⟨c, hc⟩ := not_forall.mp hend
  cases hpc : s.client c with
  | connect =>
    refine ⟨.connect c true, ⟨trivial, rfl⟩, ?_⟩
    simp only [step, hpc]
    exact ⟨_, rfl⟩
  | write =>
    cases hm : (messages (sys.argv c))[s.sent c]? with
    | none =>
      refine ⟨.write c true, ⟨trivial, rfl⟩, ?_⟩
      simp only [step, hpc, hm]
      exact ⟨_, rfl⟩
    | some m =>
      refine ⟨.write c true, ⟨trivial, rfl⟩, ?_⟩
      simp only [step, hpc, hm]
      exact ⟨_, rfl⟩
  | read =>
    have hone := hs.single.isAnswered.waits c hpc
    rw [hs.notLost c, State.flight] at hone
    by_cases hup : 0 < s.up.countP fun d => d.1 == c
    · obtain ⟨d, hd, -⟩ := List.countP_pos_iff.mp hup
      exact exists_serve hs hd
    · have hdown : 0 < s.down.countP fun d => d.isFor sys c := by omega
      obtain ⟨d, hd, hfor⟩ := List.countP_pos_iff.mp hdown
      obtain ⟨k, down, hpick⟩ := Network.exists_pick hd
      refine ⟨.read c k, ⟨trivial, trivial⟩, ?_⟩
      simp only [step, hpc, hpick, hfor]
      exact ⟨_, rfl⟩
  | exited => exact absurd ⟨hpc, hs.single.isAnswered.complete c hpc⟩ hc
  | failed => exact absurd hpc (hs.notFailed c)

/-- **When nothing goes wrong.**  For any number of clients, any arguments, and any order of the
steps and of the datagrams, all runs come to the ends of all clients; each has printed the echoes of
all its messages. -/
theorem all_answered [Fintype ι] (buf : CharArray UdpEcho.BUF_SIZE)
    (sockaddr : CharArray sockaddrSize) :
    ((machine sys).restrict Good).Inevitable AllAnswered (initial sys buf sockaddr) := by
  refine Machine.Inevitable.of_measure (I := Going) State.rest (fun s hs hend => ?_)
    (fun s a t hs _ hst => ?_)
    ⟨single_initial buf sockaddr, rfl, fun _ => nofun, fun _ => rfl⟩
  · obtain ⟨a, hgood, t, hst⟩ := hs.exists_step hend
    exact ⟨a, t, Machine.restrict_step_eq_some_iff.mpr ⟨hgood, hst⟩⟩
  · obtain ⟨hgood, hst⟩ := Machine.restrict_step_eq_some_iff.mp hst
    exact .inr (hs.move hgood.2 (move_of_step hgood.1 hst))

end UdpEcho
end CodeStrudy
