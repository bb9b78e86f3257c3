import CodeStrudy.Foundation.CString
import CodeStrudy.InetSockets.Passive
import Mathlib.Data.List.TakeDrop

/-!
# The UDP echo servers

`routines/60.2.id_echo_udp/id_echo_sv.c` and `udpHandle` of `practice/62.2/server.c` receive a
datagram and send it back to the address it came from.  Both keep the address in a
`struct sockaddr`, which has room for an IPv4 address; the length they give to `sendto` is the one
that `inetBind` remembered, or the one that `recvfrom` stored, and both are the true size of the
address.  Of an IPv6 address the end is cut off by `recvfrom`, and `sendto` reads on behind the
variable.

## What is proved

* `Bound.addrlen_eq`: the length remembered from `inetBind` is the size of an address of the family
  of the socket.
* `echoes_iff`: both servers send the datagram back to its sender exactly if it fits into the buffer
  and the address is an IPv4 one, or its end happens to stand behind the variable.
-/

namespace CodeStrudy
namespace UdpEcho

open Foundation InetSockets

/-! ## Addresses -/

/-- The families that `inetBind` asks for with `AF_UNSPEC`. -/
inductive Family where
  | inet
  | inet6
  deriving DecidableEq

/-- `sizeof(struct sockaddr_in)` and `sizeof(struct sockaddr_in6)`. -/
def Family.size : Family → ℕ
  | .inet => 16
  | .inet6 => 28

/-- `sizeof(struct sockaddr)` -/
def sockaddrSize : ℕ := 16

def BUF_SIZE : ℕ := 512

/-! ## One datagram -/

/-- What a server has and receives: its two variables, the bytes that stand behind `sockaddr`, the
datagram and the address of the sender. -/
structure Exchange where
  buf : CharArray BUF_SIZE
  sockaddr : CharArray sockaddrSize
  behind : CharArray (28 - sockaddrSize)
  data : List UInt8
  family : Family
  sender : CharArray family.size

/-- The datagram given to `sendto`, and the address it goes to. -/
structure Sent where
  data : List UInt8
  addr : List UInt8
  deriving DecidableEq

/-- What `recvfrom(fd, buf, sizeof(buf), 0, &sockaddr, &len)` leaves. -/
structure Received where
  numRd : ℕ
  buf : CharArray BUF_SIZE
  sockaddr : CharArray sockaddrSize
  len : ℕ

/-- The data and the address are cut to the sizes given, and `len` is the true size of the
address. -/
def recvfrom (x : Exchange) : Received where
  numRd := (x.data.take BUF_SIZE).length
  buf := x.buf.write (x.data.take BUF_SIZE)
  sockaddr := x.sockaddr.write (x.sender.bytes.take sockaddrSize)
  len := x.sender.bytes.length

/-- `sendto(fd, buf, numRd, 0, &sockaddr, len)`: the address is what stands in memory from
`sockaddr` on. -/
def sendto (x : Exchange) (r : Received) (len : ℕ) : Sent where
  data := r.buf.bytes.take r.numRd
  addr := (r.sockaddr.bytes ++ x.behind.bytes).take len

/-! ## The servers -/

/-- A server whose `inetBind` has succeeded, with a socket of the family. -/
structure Bound (f : Family) where
  fuel : ℕ
  lfd : ℤ
  found : List AddrInfo
  net : ℕ → AddrInfo → PassiveAnswer
  table : DescTable Sock
  result : PassiveResult
  /-- The variable `addrlen` after the call. -/
  addrlen : ℕ
  inetBind_eq : inetBind fuel lfd (some found) true net table = some result
  addrlen_eq_some : result.addrlen = some addrlen
  /-- The socket is bound to an address of the family. -/
  bound_of_get : ∀ k a, result.table.get result.ret.toNat = some k → k.bound = some a →
    a.length = f.size

/-- The body of the loop of `id_echo_sv.c`. -/
def echoServer (addrlen : ℕ) (x : Exchange) : Sent := sendto x (recvfrom x) addrlen

/-- `udpHandle` of `server.c`. -/
def udpHandle (x : Exchange) : Sent := sendto x (recvfrom x) (recvfrom x).len

/-- The whole datagram goes back to the whole address of the sender. -/
def Echoes (x : Exchange) (s : Sent) : Prop := s = ⟨x.data, x.sender.bytes⟩

/-- The datagram fits into the buffer, and the address into `sockaddr`, unless its end stands behind
it. -/
def Fits (x : Exchange) : Prop :=
  x.data.length ≤ BUF_SIZE ∧
    (x.family = .inet ∨ x.behind.bytes = x.sender.bytes.drop sockaddrSize)

instance (x : Exchange) : Decidable (Fits x) := inferInstanceAs (Decidable (_ ∧ _))

/-! ## The lengths -/

theorem sockaddrSize_le_size (f : Family) : sockaddrSize ≤ f.size := by
  cases f <;> decide

/-- The length remembered from `inetBind` is that of the addresses the socket receives from. -/
theorem Bound.addrlen_eq {f : Family} (b : Bound f) : b.addrlen = f.size := by
  obtain ⟨a, k, hget, hbound, hlen⟩ := exists_bound_of_inetBind b.inetBind_eq b.addrlen_eq_some
  exact hlen.trans (b.bound_of_get k a hget hbound)

/-- What is sent with the true size of the address as the length. -/
theorem sendto_recvfrom (x : Exchange) :
    sendto x (recvfrom x) x.family.size =
      ⟨x.data.take BUF_SIZE,
        (x.sender.bytes.take sockaddrSize ++ x.behind.bytes).take x.family.size⟩ := by
  have hdata : (x.buf.write (x.data.take BUF_SIZE)).bytes =
      x.data.take BUF_SIZE ++ x.buf.bytes.drop (x.data.take BUF_SIZE).length :=
    CharArray.bytes_write (List.length_take_le _ _)
  have hlen : (x.sender.bytes.take sockaddrSize).length = sockaddrSize := by
    rw [List.length_take, x.sender.length_bytes]
    exact Nat.min_eq_left (sockaddrSize_le_size x.family)
  have haddr : (x.sockaddr.write (x.sender.bytes.take sockaddrSize)).bytes =
      x.sender.bytes.take sockaddrSize := by
    rw [CharArray.bytes_write (le_of_eq hlen), hlen, List.drop_of_length_le, List.append_nil]
    exact le_of_eq x.sockaddr.length_bytes
  rw [sendto, recvfrom]
  simp only [hdata, haddr, List.take_left]

/-- When what is sent with that length goes back as it came. -/
theorem echoes_sendto_iff (x : Exchange) :
    Echoes x (sendto x (recvfrom x) x.family.size) ↔ Fits x := by
  rw [Echoes, sendto_recvfrom, Sent.mk.injEq, Fits]
  refine and_congr (List.take_eq_self_iff _) ?_
  obtain ⟨buf, sockaddr, behind, data, f, sender⟩ := x
  cases f with
  | inet =>
    have hall : sender.bytes.take sockaddrSize = sender.bytes :=
      List.take_of_length_le (le_of_eq sender.length_bytes)
    refine iff_of_true ?_ (Or.inl rfl)
    show (sender.bytes.take sockaddrSize ++ behind.bytes).take Family.inet.size = sender.bytes
    rw [hall, List.take_left' sender.length_bytes]
  | inet6 =>
    have hlen : (sender.bytes.take sockaddrSize ++ behind.bytes).length = 28 := by
      rw [List.length_append, List.length_take, sender.length_bytes, behind.length_bytes]
      rfl
    show (sender.bytes.take sockaddrSize ++ behind.bytes).take 28 = sender.bytes ↔ _
    rw [List.take_of_length_le (le_of_eq hlen), or_iff_right (by rintro ⟨⟩)]
    constructor
    · intro h
      have hsame : sender.bytes.take sockaddrSize ++ behind.bytes =
          sender.bytes.take sockaddrSize ++ sender.bytes.drop sockaddrSize := by
        rw [List.take_append_drop]
        exact h
      exact List.append_cancel_left hsame
    · intro h
      rw [h, List.take_append_drop]

/-- **When the servers send a datagram back as it came.**  For every datagram, every sender of the
family of the socket, and whatever was in the variables and behind them: both send back the whole
datagram to the whole address exactly if it has at most `BUF_SIZE` bytes and the address is an IPv4
one, or the memory behind `sockaddr` has the end of the address. -/
theorem echoes_iff (x : Exchange) (b : Bound x.family) :
    (Echoes x (echoServer b.addrlen x) ↔ Fits x) ∧ (Echoes x (udpHandle x) ↔ Fits x) := by
  have hlen : (recvfrom x).len = x.family.size := x.sender.length_bytes
  rw [echoServer, udpHandle, b.addrlen_eq, hlen]
  exact ⟨echoes_sendto_iff x, echoes_sendto_iff x⟩

/-- The one address found for a server that is bound at once. -/
def wildcard (f : Family) : AddrInfo :=
  ⟨if f = .inet then 2 else 10, 2, 17, List.replicate f.size 0⟩

/-- A server bound to the wildcard address. -/
def boundTo (f : Family) : Bound f where
  fuel := 1
  lfd := 0
  found := [wildcard f]
  net := fun _ _ => ⟨true, true, true, true⟩
  table := .empty
  result := ⟨(DescTable.empty : DescTable Sock).lowestFree, some f.size,
    (DescTable.empty.alloc (.new (wildcard f))).set (DescTable.empty : DescTable Sock).lowestFree
      (some (.boundTo false (wildcard f)))⟩
  addrlen := f.size
  inetBind_eq := by
    have hlen : (wildcard f).addr.length = f.size := List.length_replicate
    rw [← hlen]
    rfl
  addrlen_eq_some := rfl
  bound_of_get := by
    intro k a hget hbound
    rw [Int.toNat_natCast, DescTable.get_set_self] at hget
    obtain rfl := Option.some.inj hget
    obtain rfl := Option.some.inj hbound
    exact List.length_replicate

/-- An empty datagram from port 50000 of `::1`; behind the variable there are zeros. -/
def fromInet6 : Exchange where
  buf := default
  sockaddr := default
  behind := default
  data := []
  family := .inet6
  sender := ⟨[10, 0, 0xc3, 0x50, 0, 0, 0, 0] ++ List.replicate 15 0 ++ [1, 0, 0, 0, 0], rfl⟩

theorem not_echoes : ¬ ∀ (x : Exchange) (b : Bound x.family),
    Echoes x (echoServer b.addrlen x) ∧ Echoes x (udpHandle x) := by
  intro h
  have haddr := congrArg Sent.addr (h fromInet6 (boundTo .inet6)).2
  revert haddr
  decide +kernel

end UdpEcho
end CodeStrudy
