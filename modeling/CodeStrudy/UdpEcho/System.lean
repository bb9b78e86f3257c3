import CodeStrudy.Foundation.Machine
import CodeStrudy.Foundation.Network
import CodeStrudy.IdEcho.Echo
import CodeStrudy.UdpEcho.Echo
import Mathlib.Logic.Function.Basic

/-!
# Echo clients and their server over UDP

`routines/60.2.id_echo_udp`: any number of clients and one server.  A client sends each of its
arguments in a datagram of its own and reads one datagram after each; nothing tells it which of its
messages a datagram answers.  The network loses, doubles and overtakes datagrams, and any call may
fail.

## What is proved

* `Traced.move`: what is said of every datagram on its way is kept by every step, if it stays true
  when a client sends its next message.
* `sound`: over any network, line `j` of a client is the echo of one of its first `j + 1` messages.
* `Single.move`, `answered`: if no datagram is doubled, line `j` is the echo of message `j`, and a
  client that waits has one datagram on its way, or that one has been lost.
-/

namespace CodeStrudy
namespace UdpEcho

open Foundation IdEcho

/-- Where a client is: in `inetConnect`, at the `write` or the `read` of its loop, behind the loop,
or in `errPrintf`. -/
inductive ClientPc where
  | connect
  | write
  | read
  | exited
  | failed
  deriving DecidableEq

/-- The clients with their arguments and addresses, and the server. -/
structure Setting (ι : Type*) where
  argv : ι → List CStr
  family : Family
  addr : ι → CharArray family.size
  server : Bound family
  /-- No two sockets have the same address. -/
  addr_inj : Function.Injective addr

/-- The processes and the network. -/
structure State {ι : Type*} (sys : Setting ι) where
  client : ι → ClientPc
  /-- How many datagrams the client has sent. -/
  sent : ι → ℕ
  lines : ι → List Line
  /-- `recvfrom` has not failed yet. -/
  serving : Bool
  buf : CharArray UdpEcho.BUF_SIZE
  sockaddr : CharArray sockaddrSize
  /-- On the way to the server, each with the client that it comes from. -/
  up : Network (ι × List UInt8)
  down : Network Sent
  /-- How many datagrams of the client or for it have been lost, the replies not sent included. -/
  lost : ι → ℕ

/-- What a client makes of one of its messages when it comes back. -/
def echoLine (m : CStr) : Line := Line.print (m.chars.take UdpEcho.BUF_SIZE)

/-- A call with its outcome, or what the network does to one of its datagrams; `behind` are the
bytes that stand behind `sockaddr` in the server. -/
inductive Label (ι : Type*) where
  | connect (c : ι) (ok : Bool)
  | write (c : ι) (ok : Bool)
  | read (c : ι) (k : ℕ)
  | readFails (c : ι)
  | serve (k : ℕ) (behind : CharArray (28 - sockaddrSize)) (ok : Bool)
  | recvFails
  | loseUp (k : ℕ)
  | loseDown (k : ℕ)
  | doubleUp (k : ℕ)
  | doubleDown (k : ℕ)

variable {ι : Type*} [DecidableEq ι] (sys : Setting ι)

/-- The datagram that the server receives next, with what is in its memory. -/
def State.exchange {sys : Setting ι} (s : State sys) (behind : CharArray (28 - sockaddrSize))
    (d : ι × List UInt8) : Exchange :=
  ⟨s.buf, s.sockaddr, behind, d.2, sys.family, sys.addr d.1⟩

/-- The datagram goes to the address of the client. -/
def Sent.isFor (d : Sent) (c : ι) : Bool := d.addr == (sys.addr c).bytes

/-- One step. -/
def step (s : State sys) : Label ι → Option (State sys)
  | .connect c ok =>
    if s.client c = .connect then
      some { s with client := Function.update s.client c (if ok then .write else .failed) }
    else none
  | .write c ok =>
    if s.client c = .write then
      match (messages (sys.argv c))[s.sent c]? with
      | none => some { s with client := Function.update s.client c .exited }
      | some m =>
        if ok then some { s with
            client := Function.update s.client c .read
            sent := Function.update s.sent c (s.sent c + 1)
            up := s.up ++ [(c, m.chars)] }
        else some { s with client := Function.update s.client c .failed }
    else none
  | .read c k =>
    if s.client c = .read then
      match s.down.pick k with
      | none => none
      | some (d, down) =>
        if d.isFor sys c then some { s with
            client := Function.update s.client c .write
            lines := Function.update s.lines c
              (s.lines c ++ [Line.print (d.data.take UdpEcho.BUF_SIZE)])
            down := down }
        else none
    else none
  | .readFails c =>
    if s.client c = .read then
      some { s with client := Function.update s.client c .failed }
    else none
  | .serve k behind ok =>
    if s.serving then
      match s.up.pick k with
      | none => none
      | some (d, up) =>
        let x := s.exchange behind d
        let received : State sys := { s with
          buf := (recvfrom x).buf
          sockaddr := (recvfrom x).sockaddr
          up := up }
        if ok then some { received with down := s.down ++ [echoServer sys.server.addrlen x] }
        else some { received with lost := Function.update s.lost d.1 (s.lost d.1 + 1) }
    else none
  | .recvFails => if s.serving then some { s with serving := false } else none
  | .loseUp k =>
    match s.up.pick k with
    | none => none
    | some (d, up) =>
      some { s with up := up, lost := Function.update s.lost d.1 (s.lost d.1 + 1) }
  | .loseDown k =>
    match s.down.pick k with
    | none => none
    | some (d, down) =>
      some { s with
        down := down
        lost := fun c => s.lost c + if d.isFor sys c then 1 else 0 }
  | .doubleUp k => s.up[k]?.map fun d => { s with up := s.up ++ [d] }
  | .doubleDown k => s.down[k]?.map fun d => { s with down := s.down ++ [d] }

/-- Nobody has connected yet. -/
def initial (buf : CharArray UdpEcho.BUF_SIZE) (sockaddr : CharArray sockaddrSize) : State sys :=
  ⟨fun _ => .connect, fun _ => 0, fun _ => [], true, buf, sockaddr, [], [], fun _ => 0⟩

/-- The clients, the server and the network; the two variables of the server have some value. -/
def machine : Machine (State sys) (Label ι) where
  init s := ∃ buf sockaddr, s = initial sys buf sockaddr
  step := step sys

/-- An IPv6 address has its end behind `sockaddr` when the server sends to it. -/
def AddressFits (s : State sys) : Label ι → Prop
  | .serve k behind _ =>
    sys.family = .inet ∨
      ∀ d ∈ s.up[k]?, behind.bytes = (sys.addr d.1).bytes.drop sockaddrSize
  | _ => True

instance (s : State sys) : (a : Label ι) → Decidable (AddressFits sys s a)
  | .serve _ _ _ => inferInstanceAs (Decidable (_ ∨ _))
  | .connect _ _ | .write _ _ | .read _ _ | .readFails _ | .recvFails | .loseUp _ | .loseDown _
  | .doubleUp _ | .doubleDown _ => .isTrue trivial

/-- The network does not double a datagram. -/
def Label.Single : Label ι → Prop
  | .doubleUp _ | .doubleDown _ => False
  | _ => True

instance : (a : Label ι) → Decidable a.Single
  | .doubleUp _ | .doubleDown _ => .isFalse id
  | .connect _ _ | .write _ _ | .read _ _ | .readFails _ | .serve _ _ _ | .recvFails | .loseUp _
  | .loseDown _ => .isTrue trivial

/-- The call succeeds, and nothing happens to a datagram. -/
def Label.Reliable : Label ι → Prop
  | .connect _ ok | .write _ ok | .serve _ _ ok => ok = true
  | .read _ _ => True
  | _ => False

variable {sys} {s t : State sys}

/-! ## What a step does -/

/-- An address with its end behind `sockaddr` is whole when it is read from there. -/
theorem take_append_behind {f : Family} {a : CharArray f.size}
    {behind : CharArray (28 - sockaddrSize)}
    (h : f = .inet ∨ behind.bytes = a.bytes.drop sockaddrSize) :
    (a.bytes.take sockaddrSize ++ behind.bytes).take f.size = a.bytes := by
  rcases h with rfl | h
  · have hall : a.bytes.take sockaddrSize = a.bytes :=
      List.take_of_length_le (le_of_eq a.length_bytes)
    rw [hall, List.take_left' a.length_bytes]
  · rw [h, List.take_append_drop, List.take_of_length_le (le_of_eq a.length_bytes)]

omit [DecidableEq ι] in
/-- The reply of the server. -/
theorem echoServer_exchange {k : ℕ} {behind : CharArray (28 - sockaddrSize)} {ok : Bool}
    {d : ι × List UInt8} (hd : s.up[k]? = some d)
    (hfits : AddressFits sys s (.serve k behind ok)) :
    echoServer sys.server.addrlen (s.exchange behind d) =
      ⟨d.2.take UdpEcho.BUF_SIZE, (sys.addr d.1).bytes⟩ := by
  have hlen : sys.server.addrlen = (s.exchange behind d).family.size := sys.server.addrlen_eq
  rw [echoServer, hlen, sendto_recvfrom]
  exact congrArg (Sent.mk _) (take_append_behind (hfits.imp_right fun h => h d hd))

/-- What a step does to the clients and the network.  Of the server's variables nothing is said. -/
inductive Move (s : State sys) (a : Label ι) : State sys → Prop
  | fail (c : ι) (ha : ¬ a.Reliable) : Move s a
      { s with client := Function.update s.client c .failed }
  | connected (c : ι) (hc : s.client c = .connect) : Move s a
      { s with client := Function.update s.client c .write }
  | exit (c : ι) (hc : s.client c = .write) (hend : (messages (sys.argv c)).length ≤ s.sent c) :
      Move s a { s with client := Function.update s.client c .exited }
  | send (c : ι) (m : CStr) (hc : s.client c = .write)
      (hm : (messages (sys.argv c))[s.sent c]? = some m) : Move s a
      { s with
        client := Function.update s.client c .read
        sent := Function.update s.sent c (s.sent c + 1)
        up := s.up ++ [(c, m.chars)] }
  | answer (c : ι) (k : ℕ) (d : Sent) (down : Network Sent) (hc : s.client c = .read)
      (hd : s.down.pick k = some (d, down)) (hfor : d.isFor sys c = true) : Move s a
      { s with
        client := Function.update s.client c .write
        lines := Function.update s.lines c
          (s.lines c ++ [Line.print (d.data.take UdpEcho.BUF_SIZE)])
        down := down }
  | reply (k : ℕ) (d : ι × List UInt8) (up : Network (ι × List UInt8)) (buf sockaddr)
      (hd : s.up.pick k = some (d, up)) : Move s a
      { s with
        buf := buf
        sockaddr := sockaddr
        up := up
        down := s.down ++ [⟨d.2.take UdpEcho.BUF_SIZE, (sys.addr d.1).bytes⟩] }
  | loseUp (k : ℕ) (d : ι × List UInt8) (up : Network (ι × List UInt8)) (buf sockaddr)
      (hd : s.up.pick k = some (d, up)) (ha : ¬ a.Reliable) : Move s a
      { s with
        buf := buf
        sockaddr := sockaddr
        up := up
        lost := Function.update s.lost d.1 (s.lost d.1 + 1) }
  | loseDown (k : ℕ) (d : Sent) (down : Network Sent) (hd : s.down.pick k = some (d, down))
      (ha : ¬ a.Reliable) : Move s a
      { s with
        down := down
        lost := fun c => s.lost c + if d.isFor sys c then 1 else 0 }
  | doubleUp (d : ι × List UInt8) (hd : d ∈ s.up) (ha : ¬ a.Single) (hr : ¬ a.Reliable) :
      Move s a { s with up := s.up ++ [d] }
  | doubleDown (d : Sent) (hd : d ∈ s.down) (ha : ¬ a.Single) (hr : ¬ a.Reliable) :
      Move s a { s with down := s.down ++ [d] }
  | stop (ha : ¬ a.Reliable) : Move s a { s with serving := false }

theorem move_of_step {a : Label ι} (hfits : AddressFits sys s a) (h : step sys s a = some t) :
    Move s a t := by
  cases a with
  | connect c ok =>
    obtain ⟨hc, h⟩ := Option.ite_none_right_eq_some.mp h
    cases ok <;> cases h
    · exact .fail c nofun
    · exact .connected c hc
  | write c ok =>
    obtain ⟨hc, h⟩ := Option.ite_none_right_eq_some.mp h
    split at h
    case h_1 hend =>
      cases h
      exact .exit c hc (List.getElem?_eq_none_iff.mp hend)
    case h_2 m hm =>
      cases ok <;> cases h
      · exact .fail c nofun
      · exact .send c m hc hm
  | read c k =>
    obtain ⟨hc, h⟩ := Option.ite_none_right_eq_some.mp h
    split at h
    · cases h
    · rename_i d down hd
      obtain ⟨hfor, h⟩ := Option.ite_none_right_eq_some.mp h
      cases h
      exact .answer c k d down hc hd hfor
  | readFails c =>
    obtain ⟨-, h⟩ := Option.ite_none_right_eq_some.mp h
    cases h
    exact .fail c nofun
  | serve k behind ok =>
    obtain ⟨-, h⟩ := Option.ite_none_right_eq_some.mp h
    split at h
    · cases h
    · rename_i d up hd
      cases ok <;> cases h
      · exact .loseUp k d up _ _ hd nofun
      · rw [echoServer_exchange (Network.getElem?_of_pick hd) hfits]
        exact .reply k d up _ _ hd
  | recvFails =>
    obtain ⟨-, h⟩ := Option.ite_none_right_eq_some.mp h
    cases h
    exact .stop nofun
  | loseUp k =>
    simp only [step] at h
    split at h
    · cases h
    · rename_i d up hd
      cases h
      exact .loseUp k d up s.buf s.sockaddr hd nofun
  | loseDown k =>
    simp only [step] at h
    split at h
    · cases h
    · rename_i d down hd
      cases h
      exact .loseDown k d down hd nofun
  | doubleUp k =>
    obtain ⟨d, hd, rfl⟩ := Option.map_eq_some_iff.mp h
    exact .doubleUp d (List.mem_of_getElem? hd) nofun nofun
  | doubleDown k =>
    obtain ⟨d, hd, rfl⟩ := Option.map_eq_some_iff.mp h
    exact .doubleDown d (List.mem_of_getElem? hd) nofun nofun

/-! ## Whose echo a datagram is -/

/-- The lines of a client against the datagrams it has sent. -/
def ClientPc.Counts (messages sent lines : ℕ) : ClientPc → Prop
  | .connect | .write => sent = lines
  | .read => sent = lines + 1
  | .exited => sent = lines ∧ messages ≤ sent
  | .failed => sent ≤ lines + 1

/-- Every datagram on its way is a message of its client, or the echo of one; `R sent n` says which
message `n` it can be when the client has sent `sent` datagrams.  The lines are echoes likewise. -/
structure Traced (R : ℕ → ℕ → Prop) (s : State sys) : Prop where
  up : ∀ d ∈ s.up, ∃ n m, R (s.sent d.1) n ∧ (messages (sys.argv d.1))[n]? = some m ∧ d.2 = m.chars
  down : ∀ d ∈ s.down, ∃ c n m, R (s.sent c) n ∧ (messages (sys.argv c))[n]? = some m ∧
    d = ⟨m.chars.take UdpEcho.BUF_SIZE, (sys.addr c).bytes⟩
  lines : ∀ c j line, (s.lines c)[j]? = some line →
    ∃ n m, R (j + 1) n ∧ (messages (sys.argv c))[n]? = some m ∧ line = echoLine m
  counts : ∀ c, (s.client c).Counts (messages (sys.argv c)).length (s.sent c) (s.lines c).length

/-- The datagrams of a client and for it that are on their way. -/
def State.flight (s : State sys) (c : ι) : ℕ :=
  s.up.countP (fun d => d.1 == c) + s.down.countP fun d => d.isFor sys c

theorem counts_update {client : ι → ClientPc} {sent lines : ι → ℕ} {n : ι → ℕ} {c : ι}
    {p : ClientPc} (h : ∀ c, (client c).Counts (n c) (sent c) (lines c))
    (hp : p.Counts (n c) (sent c) (lines c)) (c' : ι) :
    (Function.update client c p c').Counts (n c') (sent c') (lines c') := by
  by_cases hc : c' = c
  · subst hc
    rw [Function.update_self]
    exact hp
  · rw [Function.update_of_ne hc]
    exact h c'

/-- A client can fail anywhere. -/
theorem ClientPc.Counts.failed {n sent lines : ℕ} {p : ClientPc} (h : p.Counts n sent lines) :
    ClientPc.failed.Counts n sent lines := by
  cases p <;> simp only [ClientPc.Counts] at h ⊢ <;> omega

omit [DecidableEq ι] in
/-- The datagram is for the client whose address it has. -/
theorem isFor_iff {m : List UInt8} {c c' : ι} :
    Sent.isFor sys ⟨m, (sys.addr c).bytes⟩ c' = true ↔ c = c' := by
  rw [Sent.isFor, beq_iff_eq]
  constructor
  · intro h
    exact sys.addr_inj (CharArray.ext h)
  · rintro rfl
    rfl

omit [DecidableEq ι] in
/-- The last element of a list, or one before it. -/
theorem getElem?_concat {α : Type*} {l : List α} {x y : α} {j : ℕ}
    (h : (l ++ [x])[j]? = some y) : l[j]? = some y ∨ j = l.length ∧ y = x := by
  rcases Nat.lt_trichotomy j l.length with hlt | rfl | hgt
  · rw [List.getElem?_append_left hlt] at h
    exact .inl h
  · rw [List.getElem?_concat_length] at h
    exact .inr ⟨rfl, (Option.some.inj h).symm⟩
  · rw [List.getElem?_eq_none (by rw [List.length_append, List.length_singleton]; omega)] at h
    cases h

theorem ne_of_flight_up {c : ι} {d : ι × List UInt8} (h : s.flight c = 0) (hd : d ∈ s.up) :
    d.1 ≠ c := by
  intro hdc
  exact List.countP_eq_zero.mp (Nat.add_eq_zero_iff.mp h).1 d hd (beq_iff_eq.mpr hdc)

theorem ne_of_flight_down {c c' : ι} {m : List UInt8} (h : s.flight c = 0)
    (hd : ⟨m, (sys.addr c').bytes⟩ ∈ s.down) : c' ≠ c := by
  intro hcc
  exact List.countP_eq_zero.mp (Nat.add_eq_zero_iff.mp h).2 _ hd (isFor_iff.mpr hcc)

/-- **Every step keeps the echoes apart**, if what has been said of the datagrams on their way stays
true when their client sends the next one. -/
theorem Traced.move {R : ℕ → ℕ → Prop} (hnew : ∀ n, R (n + 1) n) {a : Label ι} (hs : Traced R s)
    (hkeep : ∀ c, s.client c = .write → s.flight c = 0 ∨ ∀ n, R (s.sent c) n → R (s.sent c + 1) n)
    (h : Move s a t) : Traced R t := by
  cases h with
  | fail c => exact ⟨hs.up, hs.down, hs.lines, counts_update hs.counts (hs.counts c).failed⟩
  | connected c hc =>
    have hcounts := hs.counts c
    rw [hc] at hcounts
    exact ⟨hs.up, hs.down, hs.lines, counts_update hs.counts hcounts⟩
  | exit c hc hend =>
    have hcounts := hs.counts c
    rw [hc] at hcounts
    exact ⟨hs.up, hs.down, hs.lines, counts_update hs.counts ⟨hcounts, hend⟩⟩
  | send c m hc hm =>
    have hcounts := hs.counts c
    rw [hc] at hcounts
    -- what is said of a datagram on its way, after its client has sent one more
    have hnext : ∀ {c' n}, R (s.sent c') n → (s.flight c = 0 → c' ≠ c) →
        R (Function.update s.sent c (s.sent c + 1) c') n := by
      intro c' n hR hne
      by_cases hcc : c' = c
      · subst hcc
        rw [Function.update_self]
        exact ((hkeep c' hc).resolve_left fun hzero => hne hzero rfl) n hR
      · rw [Function.update_of_ne hcc]
        exact hR
    refine ⟨List.forall_mem_append.mpr ⟨fun d hd => ?_, List.forall_mem_singleton.mpr ?_⟩,
      fun d hd => ?_, hs.lines, fun c' => ?_⟩
    · obtain ⟨n, m', hR, hm', hdata⟩ := hs.up d hd
      exact ⟨n, m', hnext hR fun hzero => ne_of_flight_up hzero hd, hm', hdata⟩
    · refine ⟨s.sent c, m, ?_, hm, rfl⟩
      show R (Function.update s.sent c (s.sent c + 1) c) (s.sent c)
      rw [Function.update_self]
      exact hnew _
    · obtain ⟨c', n, m', hR, hm', rfl⟩ := hs.down d hd
      exact ⟨c', n, m', hnext hR fun hzero => ne_of_flight_down hzero hd, hm', rfl⟩
    · dsimp only
      by_cases hcc : c' = c
      · subst hcc
        rw [Function.update_self, Function.update_self]
        exact congrArg (· + 1) hcounts
      · rw [Function.update_of_ne hcc, Function.update_of_ne hcc]
        exact hs.counts c'
  | answer c k d down hc hd hfor =>
    have hcounts := hs.counts c
    rw [hc] at hcounts
    obtain ⟨⟨c', n, m, hR, hm, rfl⟩, hdown⟩ := Network.forall_of_pick hd hs.down
    obtain rfl : c' = c := isFor_iff.mp hfor
    refine ⟨hs.up, hdown, fun c j line hline => ?_, fun c => ?_⟩
    · dsimp only at hline
      by_cases hcc : c = c'
      · subst hcc
        rw [Function.update_self] at hline
        rcases getElem?_concat hline with hline | ⟨rfl, rfl⟩
        · exact hs.lines c j line hline
        · refine ⟨n, m, ?_, hm, ?_⟩
          · rw [← show s.sent c = (s.lines c).length + 1 from hcounts]
            exact hR
          · rw [echoLine, List.take_take, Nat.min_self]
      · rw [Function.update_of_ne hcc] at hline
        exact hs.lines c j line hline
    · dsimp only
      by_cases hcc : c = c'
      · subst hcc
        rw [Function.update_self, Function.update_self, List.length_append]
        exact hcounts
      · rw [Function.update_of_ne hcc, Function.update_of_ne hcc]
        exact hs.counts c
  | reply k d up buf sockaddr hd =>
    obtain ⟨⟨n, m, hR, hm, hdata⟩, hup⟩ := Network.forall_of_pick hd hs.up
    refine ⟨hup, ?_, hs.lines, hs.counts⟩
    refine List.forall_mem_append.mpr ⟨hs.down, List.forall_mem_singleton.mpr ?_⟩
    exact ⟨d.1, n, m, hR, hm, by rw [hdata]⟩
  | loseUp k d up buf sockaddr hd =>
    exact ⟨(Network.forall_of_pick hd hs.up).2, hs.down, hs.lines, hs.counts⟩
  | loseDown k d down hd =>
    exact ⟨hs.up, (Network.forall_of_pick hd hs.down).2, hs.lines, hs.counts⟩
  | doubleUp d hd =>
    exact ⟨List.forall_mem_append.mpr ⟨hs.up, List.forall_mem_singleton.mpr (hs.up d hd)⟩,
      hs.down, hs.lines, hs.counts⟩
  | doubleDown d hd =>
    exact ⟨hs.up, List.forall_mem_append.mpr
      ⟨hs.down, List.forall_mem_singleton.mpr (hs.down d hd)⟩, hs.lines, hs.counts⟩
  | stop => exact ⟨hs.up, hs.down, hs.lines, hs.counts⟩

/-! ## Any network -/

/-- **Over any network.**  Datagrams are lost, doubled and overtaken, and calls fail; each line of a
client is the echo of a message that the client has sent by then, line `j` that of one of the first
`j + 1` messages. -/
theorem sound (h : (machine sys).ReachableUnder (AddressFits sys) s) (c : ι) (j : ℕ) (line : Line)
    (hline : (s.lines c)[j]? = some line) :
    ∃ n ≤ j, ∃ m, (messages (sys.argv c))[n]? = some m ∧ line = echoLine m := by
  have hs : Traced (fun sent n => n < sent) s := by
    refine h.invariant ?_ fun s a t hs hfits hst => ?_
    · rintro s ⟨buf, sockaddr, rfl⟩
      exact ⟨nofun, nofun, nofun, fun c => rfl⟩
    · exact hs.move Nat.lt_succ_self (fun c hc => .inr fun n => Nat.lt_succ_of_lt)
        (move_of_step hfits hst)
  obtain ⟨n, m, hn, hm, rfl⟩ := hs.lines c j line hline
  exact ⟨n, Nat.le_of_lt_succ hn, m, hm, rfl⟩

/-- A message of two bytes. -/
def hi : CStr := ⟨[0x68, 0x69], by decide⟩

/-- One client with one message. -/
def oneClient : Setting Unit where
  argv _ := [hi, hi, hi]
  family := .inet
  addr _ := default
  server := boundTo .inet
  addr_inj _ _ _ := rfl

/-- The message goes to the server and back. -/
def thereAndBack : List (Label Unit) :=
  [.connect () true, .write () true, .serve 0 default true, .read () 0]

theorem sound_oneClient :
    ∃ n ≤ 0, ∃ m, (messages (oneClient.argv ()))[n]? = some m ∧ echoLine hi = echoLine m :=
  sound (Machine.ReachableUnder.run (Machine.ReachableUnder.init ⟨default, default, rfl⟩)
    thereAndBack (by decide +kernel) rfl) () 0 (echoLine hi) rfl

/-! ## A network that does not double datagrams -/

/-- The datagrams of a client on their way, and those lost. -/
def ClientPc.Waits (flight lost : ℕ) : ClientPc → Prop
  | .connect | .write | .exited => flight = 0 ∧ lost = 0
  | .read => flight + lost = 1
  | .failed => flight + lost ≤ 1

theorem ClientPc.Waits.failed {flight lost : ℕ} {p : ClientPc} (h : p.Waits flight lost) :
    ClientPc.failed.Waits flight lost := by
  cases p <;> simp only [ClientPc.Waits] at h ⊢ <;> omega

/-- A datagram that is lost instead of being on its way. -/
theorem ClientPc.Waits.lose {flight lost n : ℕ} {p : ClientPc} (h : p.Waits (flight + n) lost) :
    p.Waits flight (lost + n) := by
  cases p <;> simp only [ClientPc.Waits] at h ⊢ <;> omega

/-- Each datagram on its way has to do with the message its client has sent last, and there is one
of a client that waits, or it has been lost. -/
structure Single (s : State sys) : Prop where
  traced : Traced (fun sent n => n + 1 = sent) s
  waits : ∀ c, (s.client c).Waits (s.flight c) (s.lost c)

theorem waits_update {client : ι → ClientPc} {flight lost : ι → ℕ} {c : ι} {p : ClientPc}
    (h : ∀ c, (client c).Waits (flight c) (lost c)) (hp : p.Waits (flight c) (lost c)) (c' : ι) :
    (Function.update client c p c').Waits (flight c') (lost c') := by
  by_cases hc : c' = c
  · subst hc
    rw [Function.update_self]
    exact hp
  · rw [Function.update_of_ne hc]
    exact h c'

/-- The datagram that the network gives out is one of those on their way. -/
theorem flight_pick_up {k : ℕ} {d : ι × List UInt8} {up : Network (ι × List UInt8)}
    (hd : s.up.pick k = some (d, up)) (c : ι) :
    s.flight c = up.countP (fun d => d.1 == c) + s.down.countP (fun d => d.isFor sys c) +
      if d.1 = c then 1 else 0 := by
  rw [State.flight, Network.countP_pick _ hd]
  simp only [beq_iff_eq]
  omega

theorem flight_pick_down {k : ℕ} {d : Sent} {down : Network Sent}
    (hd : s.down.pick k = some (d, down)) (c : ι) :
    s.flight c = s.up.countP (fun d => d.1 == c) + down.countP (fun d => d.isFor sys c) +
      if d.isFor sys c then 1 else 0 := by
  rw [State.flight, Network.countP_pick _ hd]
  omega

theorem Single.move {a : Label ι} (ha : a.Single) (hs : Single s) (h : Move s a t) : Single t := by
  have hkeep : ∀ c, s.client c = .write → s.flight c = 0 ∨
      ∀ n, n + 1 = s.sent c → n + 1 = s.sent c + 1 := by
    intro c hc
    have hwaits := hs.waits c
    rw [hc] at hwaits
    exact .inl hwaits.1
  refine ⟨hs.traced.move (fun n => rfl) hkeep h, ?_⟩
  cases h with
  | fail c => exact waits_update hs.waits (hs.waits c).failed
  | connected c hc =>
    have hwaits := hs.waits c
    rw [hc] at hwaits
    exact waits_update hs.waits hwaits
  | exit c hc hend =>
    have hwaits := hs.waits c
    rw [hc] at hwaits
    exact waits_update hs.waits hwaits
  | send c m hc hm =>
    intro c'
    have hflight : ∀ c', ({ s with up := s.up ++ [(c, m.chars)] } : State sys).flight c' =
        s.flight c' + if c = c' then 1 else 0 := by
      intro c'
      simp only [State.flight, List.countP_append, List.countP_singleton, beq_iff_eq]
      omega
    have hwaits := hs.waits c'
    show ClientPc.Waits
      (({ s with up := s.up ++ [(c, m.chars)] } : State sys).flight c') (s.lost c')
      (Function.update s.client c .read c')
    rw [hflight]
    by_cases hcc : c' = c
    · subst hcc
      rw [hc] at hwaits
      rw [Function.update_self, if_pos rfl, hwaits.1]
      exact congrArg (0 + 1 + ·) hwaits.2
    · rw [Function.update_of_ne hcc, if_neg (Ne.symm hcc)]
      exact hwaits
  | answer c k d down hc hd hfor =>
    intro c'
    obtain ⟨⟨c₀, n, m, hR, hm, rfl⟩, -⟩ := Network.forall_of_pick hd hs.traced.down
    obtain rfl : c₀ = c := isFor_iff.mp hfor
    have hwaits := hs.waits c'
    rw [flight_pick_down hd c'] at hwaits
    show ClientPc.Waits (({ s with down := down } : State sys).flight c') (s.lost c')
      (Function.update s.client c₀ .write c')
    by_cases hcc : c' = c₀
    · subst hcc
      rw [hc, if_pos hfor] at hwaits
      rw [Function.update_self]
      have hsum : _ + 1 + s.lost c' = 1 := hwaits
      refine ⟨?_, by omega⟩
      simp only [State.flight]
      omega
    · rw [Function.update_of_ne hcc]
      rw [if_neg fun hother => hcc (isFor_iff.mp hother).symm] at hwaits
      exact hwaits
  | reply k d up buf sockaddr hd =>
    intro c'
    have hwaits := hs.waits c'
    rw [flight_pick_up hd c'] at hwaits
    have hflight : ({ s with
          up := up
          down := s.down ++ [⟨d.2.take UdpEcho.BUF_SIZE, (sys.addr d.1).bytes⟩] } :
            State sys).flight c' =
        up.countP (fun d => d.1 == c') + s.down.countP (fun d => d.isFor sys c') +
          if d.1 = c' then 1 else 0 := by
      simp only [State.flight, List.countP_append, List.countP_singleton, isFor_iff]
      omega
    exact hflight ▸ hwaits
  | loseUp k d up buf sockaddr hd =>
    intro c'
    have hwaits := hs.waits c'
    rw [flight_pick_up hd c'] at hwaits
    have hlost : Function.update s.lost d.1 (s.lost d.1 + 1) c' =
        s.lost c' + if d.1 = c' then 1 else 0 := by
      by_cases hcc : c' = d.1
      · subst hcc
        rw [Function.update_self, if_pos rfl]
      · rw [Function.update_of_ne hcc, if_neg (Ne.symm hcc)]
        rfl
    show ClientPc.Waits _ (Function.update s.lost d.1 (s.lost d.1 + 1) c') _
    rw [hlost]
    exact hwaits.lose
  | loseDown k d down hd =>
    intro c'
    have hwaits := hs.waits c'
    rw [flight_pick_down hd c'] at hwaits
    exact hwaits.lose
  | doubleUp d hd hdouble => exact absurd ha hdouble
  | doubleDown d hd hdouble => exact absurd ha hdouble
  | stop => exact hs.waits

/-- What the clients get from a network that doubles nothing. -/
structure Answered (s : State sys) : Prop where
  lines : ∀ c, s.lines c <+: (messages (sys.argv c)).map echoLine
  complete : ∀ c, s.client c = .exited → s.lines c = (messages (sys.argv c)).map echoLine
  waits : ∀ c, s.client c = .read → s.flight c + s.lost c = 1

omit [DecidableEq ι] in
theorem lines_isPrefix (hs : Traced (fun sent n => n + 1 = sent) s) (c : ι) :
    s.lines c <+: (messages (sys.argv c)).map echoLine := by
  refine List.prefix_iff_getElem?.mpr fun j hj => ?_
  obtain ⟨n, m, hn, hm, hline⟩ := hs.lines c j _ (List.getElem?_eq_getElem hj)
  obtain rfl : n = j := Nat.succ.inj hn
  rw [List.getElem?_map, hm, hline]
  rfl

theorem Single.isAnswered (hs : Single s) : Answered s where
  lines := lines_isPrefix hs.traced
  complete c hc := by
    have hcounts := hs.traced.counts c
    rw [hc] at hcounts
    obtain ⟨hsent, hle⟩ := hcounts
    refine (lines_isPrefix hs.traced c).eq_of_length_le ?_
    rw [List.length_map, ← hsent]
    exact hle
  waits c hc := by
    have hwaits := hs.waits c
    rw [hc] at hwaits
    exact hwaits

theorem single_initial (buf : CharArray UdpEcho.BUF_SIZE) (sockaddr : CharArray sockaddrSize) :
    Single (initial sys buf sockaddr) where
  traced := ⟨nofun, nofun, nofun, fun _ => rfl⟩
  waits _ := ⟨rfl, rfl⟩

/-- **Over a network that doubles no datagram**, but loses and overtakes them, and with calls that
fail: line `j` of a client is the echo of message `j`, a client that has come to its end has printed
the echoes of all its messages, and a client that waits has one datagram on its way, in one of the
two directions, if none of its datagrams has been lost. -/
theorem answered
    (h : (machine sys).ReachableUnder (fun s a => AddressFits sys s a ∧ a.Single) s) :
    Answered s := by
  refine Single.isAnswered (h.invariant ?_ fun s a t hs hC hst => ?_)
  · rintro s ⟨buf, sockaddr, rfl⟩
    exact single_initial buf sockaddr
  · exact hs.move hC.2 (move_of_step hC.1 hst)

theorem answered_oneClient :
    ∃ s, (machine oneClient).run (initial oneClient default default) thereAndBack = some s ∧
      Answered s :=
  ⟨_, rfl, answered (Machine.ReachableUnder.run
    (Machine.ReachableUnder.init ⟨default, default, rfl⟩) thereAndBack (by decide +kernel) rfl)⟩

end UdpEcho
end CodeStrudy
