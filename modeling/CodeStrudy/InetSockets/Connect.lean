import CodeStrudy.Foundation.DescTable
import CodeStrudy.Foundation.Loop
import Mathlib.Data.Int.Notation

/-!
# Connecting to the first address that answers

`common/inet_sockets.c`: `inetConnect` asks `getaddrinfo` for the addresses of a host and tries to
connect to one after the other.  The loop goes on with `rp = pAddr->ai_next`, which is the second
node of the list whichever node was tried.

A pointer into the list is the position that it points to, and a position behind the list is the
null pointer.  What the kernel answers is a function of the number of passes before and of the
address tried, so an address that is tried again may be answered differently.

## What is proved

* `connects_iff`: the loop ends, having tried each address at most once and in order, exactly if
  the list has at most one address or one of its first two is connected to when it is first tried.
-/

namespace CodeStrudy
namespace InetSockets

open Foundation Loop

/-! ## Addresses and sockets -/

/-- What `getaddrinfo` says about one address. -/
structure AddrInfo where
  family : ℤ
  socktype : ℤ
  protocol : ℤ
  addr : List UInt8
  deriving DecidableEq

/-- A socket: what it was created for, the address it is connected to, the address it is bound to,
and whether it was given `SO_REUSEADDR` and is listening. -/
structure Sock where
  family : ℤ
  socktype : ℤ
  protocol : ℤ
  peer : Option (List UInt8)
  bound : Option (List UInt8)
  reuseAddr : Bool
  listening : Bool
  deriving DecidableEq

/-- `socket(rp->ai_family, rp->ai_socktype, rp->ai_protocol)` -/
def Sock.new (rp : AddrInfo) : Sock :=
  ⟨rp.family, rp.socktype, rp.protocol, none, none, false, false⟩

/-- A socket for the address, connected to it. -/
def Sock.connected (rp : AddrInfo) : Sock := { Sock.new rp with peer := some rp.addr }

/-! ## `inetConnect` -/

/-- Whether `socket` and `connect` succeed. -/
structure Answer where
  socket : Bool
  connect : Bool

/-- Whether a pass with these answers ends with a connected socket. -/
def Answer.connects (x : Answer) : Bool := x.socket && x.connect

/-- The variables of the loop, the positions tried so far and the descriptors of the process. -/
structure ConnectState where
  rp : ℕ
  sfd : ℤ
  tried : List ℕ
  table : DescTable Sock

/-- The loop's test and its body, with its `rp = pAddr->ai_next`. -/
def connectPass (pAddr : List AddrInfo) (net : ℕ → AddrInfo → Answer) (s : ConnectState) :
    ConnectState ⊕ ConnectState :=
  match pAddr[s.rp]? with
  | none => .inr s
  | some rp =>
    if (net s.tried.length rp).socket then
      if (net s.tried.length rp).connect then
        .inr { s with
          sfd := s.table.lowestFree
          tried := s.tried ++ [s.rp]
          table := (s.table.alloc (.new rp)).set s.table.lowestFree (some (.connected rp)) }
      else
        .inl {
          rp := 1
          sfd := s.table.lowestFree
          tried := s.tried ++ [s.rp]
          table := (s.table.alloc (.new rp)).set s.table.lowestFree none }
    else .inl { s with rp := 1, sfd := -1, tried := s.tried ++ [s.rp] }

/-- What the function returns, which positions of the list it tried, and the descriptors after
it. -/
structure Result where
  ret : ℤ
  tried : List ℕ
  table : DescTable Sock

/-- What follows the loop. -/
def ConnectState.finish (pAddr : List AddrInfo) (s : ConnectState) : Result :=
  ⟨if pAddr[s.rp]? = none then -1 else s.sfd, s.tried, s.table⟩

/-- `inetConnect`, if it returns within the given number of passes.  `found` is the list that
`getaddrinfo` returns, if it succeeds, and `sfd` what the variable holds before it is set. -/
def inetConnect (fuel : ℕ) (sfd : ℤ) (found : Option (List AddrInfo))
    (net : ℕ → AddrInfo → Answer) (table : DescTable Sock) : Option Result :=
  match found with
  | none => some ⟨-1, [], table⟩
  | some pAddr =>
    (runFor (connectPass pAddr net) fuel ⟨0, sfd, [], table⟩).map (ConnectState.finish pAddr)

/-! ## What it should do -/

/-- The addresses are tried in order up to the first that is connected to, which is returned, and
nothing else is left open; or none is connected to, all have been tried, and the descriptors are as
they were. -/
def Connects (pAddr : List AddrInfo) (net : ℕ → AddrInfo → Answer) (table : DescTable Sock)
    (r : Result) : Prop :=
  (∃ m a, pAddr[m]? = some a ∧ (net m a).connects ∧
      (∀ i < m, ∀ b, pAddr[i]? = some b → ¬ (net i b).connects) ∧
      r.tried = List.range (m + 1) ∧
      ∃ fd, table.get fd = none ∧ r.ret = fd ∧
        r.table.get = Function.update table.get fd (some (.connected a))) ∨
    (∀ i b, pAddr[i]? = some b → ¬ (net i b).connects) ∧
      r.tried = List.range pAddr.length ∧ r.ret = -1 ∧ r.table = table

/-! ## The passes of the loop -/

section

variable {pAddr : List AddrInfo} {net : ℕ → AddrInfo → Answer} {table : DescTable Sock}

/-- The positions tried in the first passes: the first once, and then the second again and
again. -/
def triedBy (k : ℕ) : List ℕ := (List.range k).map (min · 1)

@[simp] theorem length_triedBy (k : ℕ) : (triedBy k).length = k := by
  rw [triedBy, List.length_map, List.length_range]

theorem triedBy_succ (k : ℕ) : triedBy (k + 1) = triedBy k ++ [min k 1] := by
  rw [triedBy, triedBy, List.range_succ, List.map_append, List.map_singleton]

/-- The positions are tried in order only as long as they are the first two. -/
theorem triedBy_eq_range_iff {k m : ℕ} : triedBy k = List.range m ↔ k = m ∧ k ≤ 2 := by
  constructor
  · intro h
    have hlen : k = m := by simpa using congrArg List.length h
    refine ⟨hlen, ?_⟩
    subst hlen
    by_contra hlt
    have hget := congrArg (fun l => l[2]?) h
    simp [triedBy, show 2 < k by omega] at hget
  · rintro ⟨rfl, hle⟩
    rcases (by omega : k = 0 ∨ k = 1 ∨ k = 2) with rfl | rfl | rfl <;> rfl

/-- The state before pass `k`. -/
structure Stage (table : DescTable Sock) (k : ℕ) (s : ConnectState) : Prop where
  rp : s.rp = min k 1
  tried : s.tried = triedBy k
  table : s.table = table

/-- Whether pass `k` leaves the loop. -/
def Leaves (pAddr : List AddrInfo) (net : ℕ → AddrInfo → Answer) (k : ℕ) : Prop :=
  ∀ a, pAddr[min k 1]? = some a → (net k a).connects

/-- What the function returns when pass `k` leaves the loop. -/
def resultAt (pAddr : List AddrInfo) (table : DescTable Sock) (k : ℕ) : Result :=
  match pAddr[min k 1]? with
  | none => ⟨-1, triedBy k, table⟩
  | some a => ⟨table.lowestFree, triedBy (k + 1),
      (table.alloc (.new a)).set table.lowestFree (some (.connected a))⟩

/-- A pass whose address is not connected to leaves the descriptors as they were. -/
theorem connectPass_of_not_leaves {k : ℕ} {s : ConnectState} (hs : Stage table k s)
    (h : ¬ Leaves pAddr net k) :
    ∃ t, connectPass pAddr net s = .inl t ∧ Stage table (k + 1) t := by
  obtain ⟨a, ha, hnot⟩ : ∃ a, pAddr[min k 1]? = some a ∧ ¬ (net k a).connects := by
    by_contra hcon
    exact h fun a ha => by_contra fun hnot => hcon ⟨a, ha, hnot⟩
  have hk : s.tried.length = k := by rw [hs.tried, length_triedBy]
  have htried : s.tried ++ [s.rp] = triedBy (k + 1) := by rw [hs.tried, hs.rp, triedBy_succ]
  have hrp : 1 = min (k + 1) 1 := by omega
  have hget : pAddr[s.rp]? = some a := hs.rp ▸ ha
  unfold connectPass
  rw [hget]
  simp only [hk]
  by_cases hsock : (net k a).socket
  · have hconn : ¬ (net k a).connect := fun hc => hnot (by simp [Answer.connects, hsock, hc])
    rw [if_pos hsock, if_neg hconn]
    exact ⟨_, rfl, hrp, htried, (DescTable.close_alloc s.table _).trans hs.table⟩
  · rw [if_neg hsock]
    exact ⟨_, rfl, hrp, htried, hs.table⟩

theorem connectPass_of_leaves {k : ℕ} {s : ConnectState} (hs : Stage table k s)
    (h : Leaves pAddr net k) :
    ∃ t, connectPass pAddr net s = .inr t ∧ t.finish pAddr = resultAt pAddr table k := by
  have hk : s.tried.length = k := by rw [hs.tried, length_triedBy]
  unfold connectPass resultAt
  cases ha : pAddr[min k 1]? with
  | none =>
    have hget : pAddr[s.rp]? = none := hs.rp ▸ ha
    rw [hget]
    refine ⟨s, rfl, ?_⟩
    rw [ConnectState.finish, hget, hs.tried, hs.table]
    rfl
  | some a =>
    have hget : pAddr[s.rp]? = some a := hs.rp ▸ ha
    obtain ⟨hsock, hconn⟩ : (net k a).socket = true ∧ (net k a).connect = true := by
      simpa [Answer.connects] using h a ha
    rw [hget]
    simp only [hk, hsock, hconn, if_pos]
    refine ⟨_, rfl, ?_⟩
    rw [ConnectState.finish, hget, if_neg (Option.some_ne_none a), hs.tried, hs.table, hs.rp,
      triedBy_succ]

end

/-! ## When it does what it should -/

section

variable {pAddr : List AddrInfo} {net : ℕ → AddrInfo → Answer} {table : DescTable Sock}

/-- The function returns a good result exactly if the pass that leaves the loop has one. -/
theorem exists_inetConnect_iff (sfd : ℤ) (Q : Result → Prop) :
    (∃ fuel r, inetConnect fuel sfd (some pAddr) net table = some r ∧ Q r) ↔
      ∃ k, (∀ i < k, ¬ Leaves pAddr net i) ∧ Leaves pAddr net k ∧ Q (resultAt pAddr table k) := by
  refine exists_map_runFor_iff (ConnectState.finish pAddr) (Stage table) (Leaves pAddr net)
    (fun k => Q (resultAt pAddr table k)) Q (fun _ _ hs h => connectPass_of_not_leaves hs h)
    (fun _ _ hs h => ?_) ⟨rfl, rfl, rfl⟩
  obtain ⟨t, ht, hfinish⟩ := connectPass_of_leaves hs h
  exact ⟨t, ht, by rw [hfinish]⟩

/-- The result of pass `k` is what it should be only for the first two passes. -/
theorem le_one_of_connects_resultAt {k : ℕ} (hfirst : ∀ i < k, ¬ Leaves pAddr net i)
    (h : Connects pAddr net table (resultAt pAddr table k)) : k ≤ 1 := by
  by_contra hk
  have hone : ¬ Leaves pAddr net 1 := hfirst 1 (by omega)
  obtain ⟨b, hb⟩ : ∃ b, pAddr[min k 1]? = some b := by
    rw [show min k 1 = 1 by omega]
    cases hget : pAddr[1]? with
    | none => exact absurd (fun a ha => absurd (hget.symm.trans ha) (by simp)) hone
    | some b => exact ⟨b, rfl⟩
  -- by then the second address has been tried twice
  have htried : (resultAt pAddr table k).tried = triedBy (k + 1) := by rw [resultAt, hb]
  rcases h with ⟨m, -, -, -, -, hrange, -⟩ | ⟨-, hrange, -⟩
  · rw [htried, triedBy_eq_range_iff] at hrange
    omega
  · rw [htried, triedBy_eq_range_iff] at hrange
    omega

/-- A pass that leaves the loop with a connected socket as one of the first two does what it
should. -/
theorem connects_resultAt_of_some {k : ℕ} {a : AddrInfo} (hk : k ≤ 1) (ha : pAddr[k]? = some a)
    (hconn : (net k a).connects) (hfirst : ∀ i < k, ¬ Leaves pAddr net i) :
    Connects pAddr net table (resultAt pAddr table k) := by
  refine Or.inl ⟨k, a, ha, hconn, fun i hi b hb => ?_, ?_⟩
  · intro hc
    refine hfirst i hi fun b' hb' => ?_
    rw [show min i 1 = i by omega] at hb'
    exact Option.some.inj (hb.symm.trans hb') ▸ hc
  · rw [resultAt, show min k 1 = k by omega, ha]
    exact ⟨triedBy_eq_range_iff.mpr ⟨rfl, by omega⟩, table.lowestFree, table.get_lowestFree, rfl,
      congrArg DescTable.get (DescTable.set_alloc table _ _)⟩

/-- The loop that comes to the end of the list does what it should. -/
theorem connects_resultAt_of_length (hlen : pAddr.length ≤ 1)
    (hfirst : ∀ i < pAddr.length, ¬ Leaves pAddr net i) :
    Connects pAddr net table (resultAt pAddr table pAddr.length) := by
  refine Or.inr ⟨fun i b hb hc => ?_, ?_⟩
  · have hi : i < pAddr.length := (List.getElem?_eq_some_iff.mp hb).1
    refine hfirst i hi fun b' hb' => ?_
    rw [show min i 1 = i by omega] at hb'
    exact Option.some.inj (hb.symm.trans hb') ▸ hc
  · have hnull : pAddr[min pAddr.length 1]? = none := List.getElem?_eq_none (by omega)
    rw [resultAt, hnull]
    exact ⟨triedBy_eq_range_iff.mpr ⟨rfl, by omega⟩, rfl, rfl⟩

theorem leaves_iff_of_some {k : ℕ} {a : AddrInfo} (ha : pAddr[min k 1]? = some a) :
    Leaves pAddr net k ↔ (net k a).connects :=
  ⟨fun h => h a ha, fun h _ hb => Option.some.inj (ha.symm.trans hb) ▸ h⟩

theorem leaves_of_none {k : ℕ} (h : pAddr[min k 1]? = none) : Leaves pAddr net k :=
  fun _ ha => absurd (h.symm.trans ha) (Option.some_ne_none _).symm

end

/-- **When `inetConnect` does what it should.**  The list has at most one address, or the first pass
connects to the first address, or the second pass to the second. -/
theorem connects_iff (pAddr : List AddrInfo) (net : ℕ → AddrInfo → Answer) (table : DescTable Sock)
    (sfd : ℤ) :
    (∃ fuel r, inetConnect fuel sfd (some pAddr) net table = some r ∧
        Connects pAddr net table r) ↔
      pAddr.length ≤ 1 ∨ (∃ a, pAddr[0]? = some a ∧ (net 0 a).connects) ∨
        ∃ b, pAddr[1]? = some b ∧ (net 1 b).connects := by
  rw [exists_inetConnect_iff]
  constructor
  · rintro ⟨k, hfirst, hleaves, hgood⟩
    have hk := le_one_of_connects_resultAt hfirst hgood
    have hmin : min k 1 = k := by omega
    cases ha : pAddr[k]? with
    | none => exact Or.inl (Nat.le_trans (List.getElem?_eq_none_iff.mp ha) hk)
    | some a =>
      have hconn := hleaves a (by rw [hmin, ha])
      rcases (by omega : k = 0 ∨ k = 1) with rfl | rfl
      · exact Or.inr (Or.inl ⟨a, ha, hconn⟩)
      · exact Or.inr (Or.inr ⟨a, ha, hconn⟩)
  · intro h
    by_cases hzero : Leaves pAddr net 0
    · -- the first pass leaves the loop
      refine ⟨0, fun i hi => absurd hi (Nat.not_lt_zero i), hzero, ?_⟩
      cases ha : pAddr[0]? with
      | none =>
        have hlen : pAddr.length = 0 := Nat.le_zero.mp (List.getElem?_eq_none_iff.mp ha)
        exact hlen ▸ connects_resultAt_of_length (by omega) fun i hi => by omega
      | some a =>
        exact connects_resultAt_of_some (Nat.zero_le 1) ha (hzero a ha) fun i hi => by omega
    · have hfirst : ∀ i < 1, ¬ Leaves pAddr net i := fun i hi => by
        rwa [Nat.lt_one_iff.mp hi]
      cases hb : pAddr[1]? with
      | none =>
        have hle : pAddr.length ≤ 1 := List.getElem?_eq_none_iff.mp hb
        have hlen : pAddr.length = 1 := by
          by_contra hne
          exact hzero (leaves_of_none (List.getElem?_eq_none (by omega)))
        exact ⟨1, hfirst, leaves_of_none hb, hlen ▸ connects_resultAt_of_length hle (hlen ▸ hfirst)⟩
      | some b =>
        have hconn : (net 1 b).connects := by
          rcases h with hlen | ⟨a, ha, hconn⟩ | ⟨b', hb', hconn⟩
          · have := (List.getElem?_eq_some_iff.mp hb).1
            omega
          · exact absurd ((leaves_iff_of_some ha).mpr hconn) hzero
          · exact Option.some.inj (hb'.symm.trans hb) ▸ hconn
        exact ⟨1, hfirst, (leaves_iff_of_some hb).mpr hconn,
          connects_resultAt_of_some (Nat.le_refl 1) hb hconn hfirst⟩

/-- Of two addresses neither can be connected to: the loop does not end. -/
theorem not_connects : ¬ ∀ (pAddr : List AddrInfo) (net : ℕ → AddrInfo → Answer)
    (table : DescTable Sock) (sfd : ℤ), ∃ fuel r,
      inetConnect fuel sfd (some pAddr) net table = some r ∧ Connects pAddr net table r := by
  intro h
  obtain ⟨k, -, hleaves, -⟩ := (exists_inetConnect_iff 0 _).mp
    (h [⟨10, 1, 6, []⟩, ⟨2, 1, 6, []⟩] (fun _ _ => ⟨true, false⟩) DescTable.empty 0)
  rcases (by omega : min k 1 = 0 ∨ min k 1 = 1) with hk | hk
  · exact Bool.false_ne_true (hleaves ⟨10, 1, 6, []⟩ (by rw [hk]; rfl))
  · exact Bool.false_ne_true (hleaves ⟨2, 1, 6, []⟩ (by rw [hk]; rfl))

end InetSockets
end CodeStrudy
