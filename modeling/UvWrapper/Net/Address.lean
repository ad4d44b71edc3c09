/-
  UvWrapper.Net.Address — socket addresses: what uv_ip4_addr and uv_ip6_addr write for a string
  and a port, and its bytes (sockaddr_in and sockaddr_in6 on 64-bit Linux).

  inet_pton and if_nametoindex are parameters (`Parser`). A string that is not accepted leaves the
  family, the port and the address zero; the port is cut off to 16 bits. Proved: the parse is of
  the told address and port if and only if the string is accepted and the port in range
  (`told_eq`); the family is in the first two bytes, and says how many there are (`family`).
-/

import UvWrapper.Lib.Memory

namespace UvWrapper.Net.Address

open UvWrapper.Lib.Memory

/-- inet_pton for both families, and the scope after a '%'. -/
structure Parser where
  ip4 : List Char → Option (Vector UInt8 4)
  ip6 : List Char → Option (Vector UInt8 16)
  scope : List Char → UInt32

inductive Sockaddr where
  | in4 (port : UInt16) (addr : Vector UInt8 4)
  | in6 (port : UInt16) (addr : Vector UInt8 16) (scope : UInt32)
  deriving DecidableEq

def cut (port : Int) : UInt16 := .ofNat (port % 65536).toNat

/-- The port's bytes, as htons has them. -/
def netPort (port : UInt16) : List UInt8 := (toLe 2 port.toNat).reverse

/-- The sockaddr_in or sockaddr_in6, with the rest that the memset left. -/
def Sockaddr.bytes : Sockaddr → List UInt8
  | .in4 port addr => toLe 2 2 ++ netPort port ++ addr.toList ++ List.replicate 8 0
  | .in6 port addr scope => toLe 2 10 ++ netPort port ++ List.replicate 4 0 ++ addr.toList ++ toLe 4 scope.toNat

def Sockaddr.size : Sockaddr → Nat
  | .in4 .. => 16
  | .in6 .. => 28

def Sockaddr.family : Sockaddr → Nat
  | .in4 .. => 2
  | .in6 .. => 10

def anyAddr : Sockaddr := .in4 0 (Vector.replicate 4 0)

variable (p : Parser) (ip : List Char) (port : Int)

/-- `uv_ip4_addr`: what it writes, and whether it returns 0. -/
def uvIp4Addr : Sockaddr × Bool :=
  (.in4 (cut port) ((p.ip4 ip).getD (Vector.replicate 4 0)), (p.ip4 ip).isSome)

def uvIp6Addr : Sockaddr × Bool :=
  (.in6 (cut port) ((p.ip6 ip).getD (Vector.replicate 16 0)) (p.scope ip), (p.ip6 ip).isSome)

/-- `strchr(ip, ':')` chooses the parser. -/
def parse : Sockaddr × Bool := if ip.contains ':' then uvIp6Addr p ip port else uvIp4Addr p ip port

/-- The address and port that `ip` and `port` stand for, if they stand for one. -/
def told : Option Sockaddr :=
  if 0 ≤ port ∧ port ≤ 65535 then
    if ip.contains ':' then (p.ip6 ip).map fun a => .in6 (.ofNat port.toNat) a (p.scope ip)
    else (p.ip4 ip).map fun a => .in4 (.ofNat port.toNat) a
  else none

/-! ## Bytes -/

variable {p ip port}

theorem netPort_length (port : UInt16) : (netPort port).length = 2 := by simp [netPort]

theorem bytes_length (a : Sockaddr) : a.bytes.length = a.size := by
  cases a <;> simp [Sockaddr.bytes, Sockaddr.size, netPort_length]

theorem family (a : Sockaddr) : ofLe (a.bytes.take 2) = a.family := by
  have htake : a.bytes.take 2 = toLe 2 a.family := by
    cases a <;> simp only [Sockaddr.bytes, Sockaddr.family, List.append_assoc] <;>
      rw [List.take_append_of_le_length (by simp), List.take_of_length_le (by simp)]
  rw [htake, ofLe_toLe]
  cases a <;> rfl

/-! ## What is told -/

theorem cut_eq (h : 0 ≤ port ∧ port ≤ 65535) : cut port = .ofNat port.toNat := by
  unfold cut
  rw [Int.emod_eq_of_lt h.1 (by omega)]

theorem told_eq (a : Sockaddr) :
    told p ip port = some a ↔ (parse p ip port).2 = true ∧ 0 ≤ port ∧ port ≤ 65535 ∧ a = (parse p ip port).1 := by
  unfold told parse
  by_cases hr : 0 ≤ port ∧ port ≤ 65535
  · rw [if_pos hr]
    split
    · cases h : p.ip6 ip with
      | none => simp [uvIp6Addr, h]
      | some v => simp [uvIp6Addr, h, hr, cut_eq hr, eq_comm]
    · cases h : p.ip4 ip with
      | none => simp [uvIp4Addr, h]
      | some v => simp [uvIp4Addr, h, hr, cut_eq hr, eq_comm]
  · rw [if_neg hr]
    constructor
    · intro h; cases h
    · intro h; exact absurd ⟨h.2.1, h.2.2.1⟩ hr

end UvWrapper.Net.Address
