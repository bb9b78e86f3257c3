import CodeStrudy.InetSockets.Connect

/-!
# Binding to the first address that can be bound

`common/inet_sockets.c`: `inetPassiveSocket` asks `getaddrinfo` for the addresses of a service and
tries to bind a socket to one after the other; `inetListen` and `inetBind` are its two uses.  Its
loop goes on as that of `inetConnect` does, a socket that cannot be made listening is not closed,
and what is returned after the loop depends on `result`, not on `rp`.

## What is proved

* `serves_iff`: the function returns a usable descriptor, or -1 with nothing left open, exactly in
  the cases of `Settled`.
* `exists_goodAt_singleton_iff`, `exists_goodAt_cons_cons_iff`: what makes the difference for a list
  of one address and for a longer one.
-/

namespace CodeStrudy
namespace InetSockets

open Foundation Loop

/-! ## `inetPassiveSocket` -/

/-- Whether `socket`, `setsockopt`, `bind` and `listen` succeed. -/
structure PassiveAnswer where
  socket : Bool
  setsockopt : Bool
  bind : Bool
  listen : Bool

/-- The variables of the loop, how many passes there have been, and the descriptors. -/
structure PassiveState where
  rp : ℕ
  lfd : ℤ
  passes : ℕ
  table : DescTable Sock

/-- How the loop is left: with `return -1` inside of it, or to what follows it. -/
inductive PassiveExit where
  | failed (table : DescTable Sock)
  | left (s : PassiveState)

/-- A socket bound to the address, with the option set if it is to listen. -/
def Sock.boundTo (doListen : Bool) (rp : AddrInfo) : Sock :=
  { Sock.new rp with bound := some rp.addr, reuseAddr := doListen }

/-- The loop's test and its body, with its `rp = result->ai_next`. -/
def passivePass (result : List AddrInfo) (doListen : Bool) (net : ℕ → AddrInfo → PassiveAnswer)
    (s : PassiveState) : PassiveState ⊕ PassiveExit :=
  match result[s.rp]? with
  | none => .inr (.left s)
  | some rp =>
    if (net s.passes rp).socket then
      if doListen && !(net s.passes rp).setsockopt then
        .inr (.failed ((s.table.alloc (.new rp)).set s.table.lowestFree none))
      else if (net s.passes rp).bind then
        .inr (.left { s with
          lfd := s.table.lowestFree
          table := (s.table.alloc (.new rp)).set s.table.lowestFree
            (some (.boundTo doListen rp)) })
      else
        .inl {
          rp := 1
          lfd := s.table.lowestFree
          passes := s.passes + 1
          table := (s.table.alloc (.new rp)).set s.table.lowestFree none }
    else .inl { s with rp := 1, lfd := -1, passes := s.passes + 1 }

/-- What the function returns, what it stores in `*addrlen`, and the descriptors after it. -/
structure PassiveResult where
  ret : ℤ
  addrlen : Option ℕ
  table : DescTable Sock

/-- `listen(lfd, backlog)` when it succeeds. -/
def listenOn (table : DescTable Sock) (lfd : ℤ) : DescTable Sock :=
  table.set lfd.toNat ((table.get lfd.toNat).map fun k => { k with listening := true })

/-- What follows the loop.  `wantLen` says whether `addrlen` is not the null pointer. -/
def PassiveExit.finish (result : List AddrInfo) (doListen wantLen : Bool)
    (net : ℕ → AddrInfo → PassiveAnswer) : PassiveExit → PassiveResult
  | .failed table => ⟨-1, none, table⟩
  | .left s =>
    match result[s.rp]? with
    | none => ⟨if result = [] then -1 else s.lfd, none, s.table⟩
    | some rp =>
      if doListen && !(net s.passes rp).listen then ⟨-1, none, s.table⟩
      else ⟨if result = [] then -1 else s.lfd, if wantLen then some rp.addr.length else none,
        if doListen then listenOn s.table s.lfd else s.table⟩

/-- `inetPassiveSocket`, if it returns within the given number of passes.  `found` is the list that
`getaddrinfo` returns, if it succeeds, and `lfd` what the variable holds before it is set. -/
def inetPassiveSocket (fuel : ℕ) (lfd : ℤ) (found : Option (List AddrInfo))
    (wantLen doListen : Bool) (net : ℕ → AddrInfo → PassiveAnswer) (table : DescTable Sock) :
    Option PassiveResult :=
  match found with
  | none => some ⟨-1, none, table⟩
  | some result =>
    (runFor (passivePass result doListen net) fuel ⟨0, lfd, 0, table⟩).map
      (PassiveExit.finish result doListen wantLen net)

def inetListen (fuel : ℕ) (lfd : ℤ) (found : Option (List AddrInfo)) (wantLen : Bool)
    (net : ℕ → AddrInfo → PassiveAnswer) (table : DescTable Sock) : Option PassiveResult :=
  inetPassiveSocket fuel lfd found wantLen true net table

def inetBind (fuel : ℕ) (lfd : ℤ) (found : Option (List AddrInfo)) (wantLen : Bool)
    (net : ℕ → AddrInfo → PassiveAnswer) (table : DescTable Sock) : Option PassiveResult :=
  inetPassiveSocket fuel lfd found wantLen false net table

/-! ## What it should do -/

/-- A new descriptor is returned that is bound to one of the addresses and listening if it should
be, and nothing else is left open; or -1 is returned and the descriptors are as they were. -/
def Serves (result : List AddrInfo) (doListen : Bool) (table : DescTable Sock)
    (r : PassiveResult) : Prop :=
  (∃ fd a k, a ∈ result ∧ table.get fd = none ∧ r.ret = (fd : ℕ) ∧
      r.table.get = Function.update table.get fd (some k) ∧
      k.bound = some a.addr ∧ (doListen → k.listening)) ∨
    r.ret = -1 ∧ r.table = table

/-- A pass with these answers leaves the loop. -/
def PassiveAnswer.leaves (doListen : Bool) (x : PassiveAnswer) : Bool :=
  x.socket && (doListen && !x.setsockopt || x.bind)

/-- A pass with these answers leaves the loop, and if it has bound a socket that is to listen, it is
listening in the end. -/
def PassiveAnswer.good (doListen : Bool) (x : PassiveAnswer) : Bool :=
  x.socket && (doListen && !x.setsockopt || x.bind && (!doListen || x.listen))

/-- There is no address; or there is one, and no socket is created for it or the pass for it is
good; or there are more, and the first pass that leaves the loop, over the first address and then
the second again and again, is good. -/
def Settled (doListen : Bool) (net : ℕ → AddrInfo → PassiveAnswer) : List AddrInfo → Prop
  | [] => True
  | [a] => ¬ (net 0 a).socket ∨ (net 0 a).good doListen
  | a :: b :: _ => ∃ k, (∀ i < k, ¬ (net i (if i = 0 then a else b)).leaves doListen) ∧
      (net k (if k = 0 then a else b)).good doListen

theorem PassiveAnswer.leaves_of_good {doListen : Bool} {x : PassiveAnswer}
    (h : x.good doListen) : x.leaves doListen := by
  simp only [good, leaves, Bool.and_eq_true, Bool.or_eq_true] at h ⊢
  exact ⟨h.1, h.2.imp_right And.left⟩

/-! ## The passes of the loop -/

section

variable {result : List AddrInfo} {doListen wantLen : Bool}
  {net : ℕ → AddrInfo → PassiveAnswer} {table : DescTable Sock} {lfd : ℤ}

/-- What `lfd` holds before pass `k`. -/
def lastFd (result : List AddrInfo) (net : ℕ → AddrInfo → PassiveAnswer)
    (table : DescTable Sock) (lfd : ℤ) : ℕ → ℤ
  | 0 => lfd
  | j + 1 =>
    match result[min j 1]? with
    | none => lfd
    | some a => if (net j a).socket then table.lowestFree else -1

/-- The state before pass `k`. -/
structure PassiveStage (result : List AddrInfo) (net : ℕ → AddrInfo → PassiveAnswer)
    (table : DescTable Sock) (lfd : ℤ) (k : ℕ) (s : PassiveState) : Prop where
  rp : s.rp = min k 1
  lfd : s.lfd = lastFd result net table lfd k
  passes : s.passes = k
  table : s.table = table

/-- Whether pass `k` leaves the loop. -/
def PassiveLeaves (result : List AddrInfo) (doListen : Bool)
    (net : ℕ → AddrInfo → PassiveAnswer) (k : ℕ) : Prop :=
  ∀ a, result[min k 1]? = some a → (net k a).leaves doListen

/-- A pass that does not leave the loop leaves the descriptors as they were. -/
theorem passivePass_of_not_leaves {k : ℕ} {s : PassiveState}
    (hs : PassiveStage result net table lfd k s) (h : ¬ PassiveLeaves result doListen net k) :
    ∃ t, passivePass result doListen net s = .inl t ∧
      PassiveStage result net table lfd (k + 1) t := by
  obtain ⟨a, ha, hnot⟩ : ∃ a, result[min k 1]? = some a ∧ ¬ (net k a).leaves doListen := by
    by_contra hcon
    exact h fun a ha => by_contra fun hnot => hcon ⟨a, ha, hnot⟩
  have hget : result[s.rp]? = some a := hs.rp ▸ ha
  have hrp : 1 = min (k + 1) 1 := by omega
  unfold passivePass
  rw [hget]
  simp only [hs.passes]
  by_cases hsock : (net k a).socket
  · obtain ⟨hopt, hbind⟩ :
        (doListen && !(net k a).setsockopt) = false ∧ (net k a).bind = false := by
      simpa [PassiveAnswer.leaves, hsock] using hnot
    rw [if_pos hsock, hopt, hbind]
    refine ⟨_, rfl, hrp, ?_, rfl, (DescTable.close_alloc s.table _).trans hs.table⟩
    rw [lastFd, ha]
    simp [hsock, hs.table]
  · rw [if_neg hsock]
    refine ⟨_, rfl, hrp, ?_, rfl, hs.table⟩
    rw [lastFd, ha]
    simp [hsock]

/-- The result of pass `k` is one that it should be. -/
def GoodAt (result : List AddrInfo) (doListen : Bool) (net : ℕ → AddrInfo → PassiveAnswer)
    (table : DescTable Sock) (lfd : ℤ) (k : ℕ) : Prop :=
  match result[min k 1]? with
  | none => result = [] ∨ lastFd result net table lfd k = -1
  | some a => (net k a).good doListen

/-- When no descriptor was opened, what is returned must be -1. -/
theorem serves_same_iff (ret : ℤ) (addrlen : Option ℕ) :
    Serves result doListen table ⟨ret, addrlen, table⟩ ↔ ret = -1 := by
  refine ⟨fun h => ?_, fun h => Or.inr ⟨h, rfl⟩⟩
  rcases h with ⟨fd, a, k, -, hfree, -, htable, -⟩ | ⟨hret, -⟩
  · have hopen : table.get fd = some k := (congrFun htable fd).trans (Function.update_self ..)
    rw [hfree] at hopen
    cases hopen
  · exact hret

theorem listenOn_set (table : DescTable Sock) (n : ℕ) (k : Sock) :
    listenOn (table.set n (some k)) n = table.set n (some { k with listening := true }) := by
  rw [listenOn, Int.toNat_natCast, DescTable.get_set_self, DescTable.set_set]
  rfl

/-- A bound socket that is returned. -/
theorem serves_of_bound {a : AddrInfo} (ha : a ∈ result) (addrlen : Option ℕ) {k : Sock}
    (hbound : k.bound = some a.addr) (hlisten : doListen → k.listening) :
    Serves result doListen table
      ⟨table.lowestFree, addrlen, table.set table.lowestFree (some k)⟩ :=
  Or.inl ⟨table.lowestFree, a, k, ha, table.get_lowestFree, rfl, rfl, hbound, hlisten⟩

/-- A bound socket that is left open while -1 is returned. -/
theorem not_serves_of_open (addrlen : Option ℕ) (k : Sock) :
    ¬ Serves result doListen table ⟨-1, addrlen, table.set table.lowestFree (some k)⟩ := by
  rintro (⟨fd, -, -, -, -, hret, -⟩ | ⟨-, htable⟩)
  · have hneg : (-1 : ℤ) = fd := hret
    omega
  · have hopen : table.get table.lowestFree = some k := by
      rw [← DescTable.get_set_self table table.lowestFree (some k)]
      exact congrArg (fun t => t.get table.lowestFree) htable.symm
    rw [table.get_lowestFree] at hopen
    cases hopen

theorem passivePass_of_leaves {k : ℕ} {s : PassiveState}
    (hs : PassiveStage result net table lfd k s) (h : PassiveLeaves result doListen net k) :
    ∃ e, passivePass result doListen net s = .inr e ∧
      (Serves result doListen table (e.finish result doListen wantLen net) ↔
        GoodAt result doListen net table lfd k) := by
  unfold passivePass GoodAt
  cases ha : result[min k 1]? with
  | none =>
    have hget : result[s.rp]? = none := hs.rp ▸ ha
    rw [hget]
    refine ⟨_, rfl, ?_⟩
    rw [PassiveExit.finish, hget, hs.table]
    show Serves result doListen table ⟨_, none, table⟩ ↔ _
    rw [serves_same_iff, hs.lfd, ite_eq_left_iff, or_iff_not_imp_left]
  | some a =>
    have hget : result[s.rp]? = some a := hs.rp ▸ ha
    have hmem : a ∈ result := List.mem_of_getElem? ha
    have hne : result ≠ [] := List.ne_nil_of_mem hmem
    have hleaves := h a ha
    unfold PassiveAnswer.leaves at hleaves
    rw [Bool.and_eq_true] at hleaves
    obtain ⟨hsock, hleaves⟩ := hleaves
    rw [hget]
    simp only [hs.passes, hsock, if_pos, hs.table, PassiveAnswer.good, Bool.true_and]
    by_cases hopt : (doListen && !(net k a).setsockopt) = true
    · -- the option cannot be set, and the socket is closed
      rw [if_pos hopt, hopt]
      refine ⟨_, rfl, ?_⟩
      rw [PassiveExit.finish, DescTable.close_alloc, serves_same_iff]
      simp
    · rw [Bool.not_eq_true] at hopt
      have hbind : (net k a).bind = true := by simpa [hopt] using hleaves
      rw [hopt, if_neg Bool.false_ne_true, hbind, if_pos rfl, Bool.false_or, Bool.true_and]
      refine ⟨_, rfl, ?_⟩
      rw [PassiveExit.finish]
      simp only [hget, DescTable.set_alloc, if_neg hne]
      cases hdo : doListen with
      | false => exact iff_of_true (serves_of_bound hmem _ rfl (fun h => by cases h)) rfl
      | true =>
        cases hlisten : (net k a).listen with
        | false => exact iff_of_false (not_serves_of_open none _) Bool.false_ne_true
        | true =>
          refine iff_of_true ?_ rfl
          show Serves result true table ⟨_, _, listenOn _ _⟩
          rw [listenOn_set]
          exact serves_of_bound hmem _ rfl fun _ => rfl

/-- The function returns a good result exactly if the pass that leaves the loop has one. -/
theorem exists_inetPassiveSocket_iff (lfd : ℤ) :
    (∃ fuel r, inetPassiveSocket fuel lfd (some result) wantLen doListen net table = some r ∧
        Serves result doListen table r) ↔
      ∃ k, (∀ i < k, ¬ PassiveLeaves result doListen net i) ∧
        PassiveLeaves result doListen net k ∧ GoodAt result doListen net table lfd k :=
  exists_map_runFor_iff (PassiveExit.finish result doListen wantLen net)
    (PassiveStage result net table lfd) (PassiveLeaves result doListen net)
    (GoodAt result doListen net table lfd) (Serves result doListen table)
    (fun _ _ hs h => passivePass_of_not_leaves hs h) (fun _ _ hs h => passivePass_of_leaves hs h)
    ⟨rfl, rfl, rfl, rfl⟩

/-! ## The length of the address -/

/-- The loop is left with a socket bound to the address that `rp` points to, if there is one. -/
def LeftBound (result : List AddrInfo) (doListen : Bool) : PassiveExit → Prop
  | .failed _ => True
  | .left s => ∀ a, result[s.rp]? = some a →
      ∃ fd : ℕ, s.lfd = fd ∧ s.table.get fd = some (.boundTo doListen a)

theorem leftBound_of_returns {s : PassiveState} {e : PassiveExit}
    (h : Returns (passivePass result doListen net) s e) : LeftBound result doListen e := by
  refine h.invariant (fun _ => True) _ (fun _ _ _ _ => trivial) (fun s e _ hpass => ?_) trivial
  unfold passivePass at hpass
  cases hrp : result[s.rp]? with
  | none =>
    rw [hrp] at hpass
    obtain rfl := Sum.inr.inj hpass
    intro a ha
    rw [hrp] at ha
    cases ha
  | some b =>
    simp only [hrp] at hpass
    split_ifs at hpass
    · obtain rfl := Sum.inr.inj hpass
      trivial
    · obtain rfl := Sum.inr.inj hpass
      intro a ha
      obtain rfl := Option.some.inj (hrp.symm.trans ha)
      exact ⟨_, rfl, DescTable.get_set_self _ _ _⟩

/-- The length that `inetBind` stores is that of the address its socket is bound to. -/
theorem exists_bound_of_inetBind {fuel n : ℕ} {r : PassiveResult}
    (h : inetBind fuel lfd (some result) wantLen net table = some r)
    (hlen : r.addrlen = some n) :
    ∃ a k, r.table.get r.ret.toNat = some k ∧ k.bound = some a ∧ n = a.length := by
  obtain ⟨e, he, rfl⟩ := Option.map_eq_some_iff.mp h
  cases e with
  | failed table => cases hlen
  | left t =>
    cases hrp : result[t.rp]? with
    | none =>
      simp only [PassiveExit.finish, hrp, reduceCtorEq] at hlen
    | some a =>
      obtain ⟨fd, hfd, hget⟩ := leftBound_of_returns ⟨fuel, he⟩ a hrp
      have hne : result ≠ [] := List.ne_nil_of_mem (List.mem_of_getElem? hrp)
      simp only [PassiveExit.finish, hrp, Bool.false_and, Bool.false_eq_true, if_false,
        if_neg hne] at hlen ⊢
      refine ⟨a.addr, .boundTo false a, ?_, rfl,
        (Option.some.inj (Option.ite_none_right_eq_some.mp hlen).2).symm⟩
      rw [hfd, Int.toNat_natCast]
      exact hget

/-! ## The three kinds of list -/

theorem passiveLeaves_iff_of_some {k : ℕ} {a : AddrInfo} (ha : result[min k 1]? = some a) :
    PassiveLeaves result doListen net k ↔ (net k a).leaves doListen :=
  ⟨fun h => h a ha, fun h _ hb => Option.some.inj (ha.symm.trans hb) ▸ h⟩

theorem goodAt_iff_of_some {k : ℕ} {a : AddrInfo} (ha : result[min k 1]? = some a) :
    GoodAt result doListen net table lfd k ↔ (net k a).good doListen := by
  rw [GoodAt, ha]

/-- One address: the loop may come to the end of the list, and what `lfd` holds then is -1 exactly
if no socket was created. -/
theorem exists_goodAt_singleton_iff (a : AddrInfo) :
    (∃ k, (∀ i < k, ¬ PassiveLeaves [a] doListen net i) ∧ PassiveLeaves [a] doListen net k ∧
        GoodAt [a] doListen net table lfd k) ↔
      ¬ (net 0 a).socket ∨ (net 0 a).good doListen := by
  have hzero : PassiveLeaves [a] doListen net 0 ↔ (net 0 a).leaves doListen :=
    passiveLeaves_iff_of_some rfl
  have hone : PassiveLeaves [a] doListen net 1 := fun b hb => by cases hb
  have hlast : GoodAt [a] doListen net table lfd 1 ↔ ¬ (net 0 a).socket := by
    show [a] = [] ∨ (if (net 0 a).socket then (table.lowestFree : ℤ) else -1) = -1 ↔ _
    by_cases hsock : (net 0 a).socket
    · rw [if_pos hsock]
      simp only [hsock, reduceCtorEq, false_or, not_true_eq_false]
    · simp [hsock]
  constructor
  · rintro ⟨k, hfirst, -, hgood⟩
    have hk : k ≤ 1 := by
      by_contra hk
      exact hfirst 1 (by omega) hone
    rcases (by omega : k = 0 ∨ k = 1) with rfl | rfl
    · exact Or.inr hgood
    · exact Or.inl (hlast.mp hgood)
  · rintro (hsock | hgood)
    · refine ⟨1, fun i hi => ?_, hone, hlast.mpr hsock⟩
      rw [Nat.lt_one_iff.mp hi, hzero]
      simp [PassiveAnswer.leaves, hsock]
    · exact ⟨0, fun i hi => absurd hi (Nat.not_lt_zero i),
        hzero.mpr (PassiveAnswer.leaves_of_good hgood), hgood⟩

/-- Two or more addresses: the loop goes on until a pass leaves it. -/
theorem exists_goodAt_cons_cons_iff (a b : AddrInfo) (l : List AddrInfo) :
    (∃ k, (∀ i < k, ¬ PassiveLeaves (a :: b :: l) doListen net i) ∧
        PassiveLeaves (a :: b :: l) doListen net k ∧
        GoodAt (a :: b :: l) doListen net table lfd k) ↔
      ∃ k, (∀ i < k, ¬ (net i (if i = 0 then a else b)).leaves doListen) ∧
        (net k (if k = 0 then a else b)).good doListen := by
  have hget : ∀ k, (a :: b :: l)[min k 1]? = some (if k = 0 then a else b) := by
    rintro (_ | k)
    · rfl
    · rw [show min (k + 1) 1 = 1 by omega, if_neg (Nat.succ_ne_zero k)]
      rfl
  refine exists_congr fun k => ?_
  rw [goodAt_iff_of_some (hget k), passiveLeaves_iff_of_some (hget k)]
  refine and_congr (forall₂_congr fun i _ => not_congr (passiveLeaves_iff_of_some (hget i))) ?_
  exact and_iff_right_of_imp PassiveAnswer.leaves_of_good

end

/-- **When `inetPassiveSocket` does what it should.** -/
theorem serves_iff (result : List AddrInfo) (wantLen doListen : Bool)
    (net : ℕ → AddrInfo → PassiveAnswer) (table : DescTable Sock) (lfd : ℤ) :
    (∃ fuel r, inetPassiveSocket fuel lfd (some result) wantLen doListen net table = some r ∧
        Serves result doListen table r) ↔
      Settled doListen net result := by
  rw [exists_inetPassiveSocket_iff]
  match result with
  | [] =>
    refine iff_of_true ⟨0, fun i hi => absurd hi (Nat.not_lt_zero i), fun a ha => ?_, ?_⟩ trivial
    · cases ha
    · exact Or.inl rfl
  | [a] => exact exists_goodAt_singleton_iff a
  | a :: b :: l => exact exists_goodAt_cons_cons_iff a b l

/-- The one address cannot be bound: the descriptor that was closed is returned. -/
theorem not_serves : ¬ ∀ (result : List AddrInfo) (wantLen doListen : Bool)
    (net : ℕ → AddrInfo → PassiveAnswer) (table : DescTable Sock) (lfd : ℤ), ∃ fuel r,
      inetPassiveSocket fuel lfd (some result) wantLen doListen net table = some r ∧
        Serves result doListen table r := by
  intro h
  have hgood := (exists_inetPassiveSocket_iff 0).mp
    (h [⟨2, 1, 6, []⟩] false true (fun _ _ => ⟨true, true, false, true⟩) DescTable.empty 0)
  rw [exists_goodAt_singleton_iff] at hgood
  revert hgood
  decide

end InetSockets
end CodeStrudy
