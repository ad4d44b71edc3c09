/-
  UvWrapper.Net.Endpoint — how an endpoint starts (tcp_server_run, udp_handle_run): the socket's
  address from a string and a port, under any outcome of the calls.

  bind_addr is a struct sockaddr on the stack, of 16 bytes. uv_ip6_addr writes 28, whatever the
  string: nothing is known of a start that comes to it (`Start.overrun`), except that it is no
  start as told.

  What a socket is bound to is what the last bind that succeeded was given; port 0 stands for the
  kernel's choice. uv_udp_recv_start binds a socket that is not bound to 0.0.0.0 and port 0.
  An address in use, which uv_tcp_bind keeps for later, is an outcome of uv_listen.

  Proved: an endpoint is what was told, or NULL, if and only if there is no memory for it, or the
  string has no ':' and either the start fails anyway, or the string is accepted and the port in
  range, and for UDP the bind has succeeded too (`bound_iff`). "localhost" is served on every
  interface, a UDP port in use is left for another one, and "::1" overruns bind_addr (`elsewhere`).
-/

import UvWrapper.Net.Address

namespace UvWrapper.Net.Endpoint

open UvWrapper.Net.Address

/-- What the calls of one start say: `last` is uv_listen or uv_udp_recv_start. -/
structure Outcome where
  loop : Bool
  handle : Bool
  socket : Bool
  asyncSend : Bool
  asyncClose : Bool
  bind : Int
  last : Int
  deriving DecidableEq

/-- The uv_tcp_t or uv_udp_t of an endpoint. -/
structure Socket where
  bound : Option Sockaddr
  deriving DecidableEq

inductive Start where
  /-- NULL is returned. -/
  | null
  | running (s : Socket)
  /-- More was written to bind_addr than it holds. -/
  | overrun
  deriving DecidableEq

def bindAddrSize : Nat := 16

def uvBind (s : Socket) (a : Sockaddr) (r : Int) : Socket := if r = 0 then ⟨some a⟩ else s

def uvUdpRecvStart (s : Socket) (r : Int) : Socket :=
  if r = 0 then ⟨some (s.bound.getD anyAddr)⟩ else s

variable (p : Parser) (addr : List Char) (port : Int) (o : Outcome)

/-- The loop is there, and every calloc succeeds. -/
def Outcome.allocated : Bool := o.loop && o.handle && o.socket && o.asyncSend && o.asyncClose

/-- The parse into bind_addr; `none`: it runs past its end. -/
def bindAddr : Option Sockaddr :=
  let a := (parse p addr port).1
  if a.size ≤ bindAddrSize then some a else none

def tcpServerRun : Start :=
  if !o.loop then .null
  else if !o.handle then .null
  else if !o.socket then .null
  else if !o.asyncSend then .null
  else if !o.asyncClose then .null
  else
    match bindAddr p addr port with
    | none => .overrun
    | some bindAddr =>
      let s := uvBind ⟨none⟩ bindAddr o.bind
      if o.bind ≠ 0 then .null
      else if o.last ≠ 0 then .null
      else .running s

def recvStart (s : Socket) : Start :=
  let s := uvUdpRecvStart s o.last
  if o.last ≠ 0 then .null else .running s

/-- `none` is a NULL addr. -/
def udpHandleRun (addr : Option (List Char)) : Start :=
  if !o.loop then .null
  else if !o.handle then .null
  else if !o.socket then .null
  else if !o.asyncSend then .null
  else if !o.asyncClose then .null
  else
    match addr with
    | none => recvStart o ⟨none⟩
    | some a =>
      match bindAddr p a port with
      | none => .overrun
      | some bindAddr => recvStart o (uvBind ⟨none⟩ bindAddr o.bind)

/-- NULL is returned, or what is bound to the address and port that the arguments stand for. -/
def AsTold : Start → Prop
  | .null => True
  | .running s => ∃ a, told p addr port = some a ∧ s.bound = some a
  | .overrun => False

/-- The string is accepted, and the port in range. -/
def valid : Bool := (parse p addr port).2 && decide (0 ≤ port ∧ port ≤ 65535)

variable {p addr port o}

/-! ## What is returned -/

theorem bindAddr_eq : bindAddr p addr port = if addr.contains ':' then none else some (parse p addr port).1 := by
  unfold bindAddr parse
  split
  · rfl
  · rfl

theorem allocated_eq (o : Outcome) (r : Start) :
    (if !o.loop then .null else if !o.handle then .null else if !o.socket then .null else if !o.asyncSend then .null
      else if !o.asyncClose then .null else r) = if o.allocated then r else .null := by
  obtain ⟨loop, handle, socket, asyncSend, asyncClose, bind, last⟩ := o
  cases loop <;> cases handle <;> cases socket <;> cases asyncSend <;> cases asyncClose <;> rfl

theorem tcpServerRun_eq (ha : o.allocated = true) (h4 : addr.contains ':' = false) : tcpServerRun p addr port o =
    if o.bind == 0 && o.last == 0 then .running ⟨some (parse p addr port).1⟩ else .null := by
  rw [tcpServerRun, allocated_eq, if_pos ha, bindAddr_eq, if_neg (by rw [h4]; simp)]
  by_cases hb : o.bind = 0
  · by_cases hl : o.last = 0
    · simp [uvBind, hb, hl]
    · simp [hl]
  · simp [hb]

theorem udpHandleRun_eq (ha : o.allocated = true) (h4 : addr.contains ':' = false) : udpHandleRun p port o (some addr) =
    if o.last == 0 then .running ⟨some (if o.bind = 0 then (parse p addr port).1 else anyAddr)⟩ else .null := by
  rw [udpHandleRun, allocated_eq, if_pos ha]
  simp only [bindAddr_eq, h4, Bool.false_eq_true, if_false, recvStart]
  by_cases hl : o.last = 0
  · by_cases hb : o.bind = 0
    · simp [uvUdpRecvStart, uvBind, hb, hl]
    · simp [uvUdpRecvStart, uvBind, hb, hl]
  · simp [hl]

/-- Without memory both return NULL before the parse. -/
theorem run_null (ha : o.allocated = false) :
    tcpServerRun p addr port o = .null ∧ udpHandleRun p port o (some addr) = .null := by
  constructor
  · rw [tcpServerRun, allocated_eq, if_neg (by rw [ha]; simp)]
  · rw [udpHandleRun, allocated_eq, if_neg (by rw [ha]; simp)]

/-- With it a ':' leads both past the end of bind_addr. -/
theorem run_overrun (ha : o.allocated = true) (h6 : addr.contains ':' = true) :
    tcpServerRun p addr port o = .overrun ∧ udpHandleRun p port o (some addr) = .overrun := by
  constructor
  · rw [tcpServerRun, allocated_eq, if_pos ha, bindAddr_eq, if_pos h6]
  · rw [udpHandleRun, allocated_eq, if_pos ha]
    simp only [bindAddr_eq, h6, if_true]

theorem valid_iff : valid p addr port = true ↔ (parse p addr port).2 = true ∧ 0 ≤ port ∧ port ≤ 65535 := by simp [valid]

theorem told_iff (a : Sockaddr) : told p addr port = some a ↔ valid p addr port = true ∧ (parse p addr port).1 = a := by
  rw [told_eq, valid_iff]
  constructor
  · intro ⟨ha, h0, h1, h⟩
    exact ⟨⟨ha, h0, h1⟩, h.symm⟩
  · intro ⟨⟨ha, h0, h1⟩, h⟩
    exact ⟨ha, h0, h1, h.symm⟩

theorem asTold_running {a : Sockaddr} :
    AsTold p addr port (.running ⟨some a⟩) ↔ valid p addr port = true ∧ (parse p addr port).1 = a := by
  rw [← told_iff]
  constructor
  · intro ⟨b, hb, hab⟩
    rw [hb, Option.some_inj.mp hab]
  · exact fun h => ⟨a, h, rfl⟩

theorem asTold_if {c : Bool} {a : Sockaddr} : AsTold p addr port (if c then .running ⟨some a⟩ else .null) ↔
    c = false ∨ (valid p addr port = true ∧ (parse p addr port).1 = a) := by
  cases c with
  | false => exact ⟨fun _ => .inl rfl, fun _ => trivial⟩
  | true =>
    rw [if_pos rfl, asTold_running]
    simp

theorem tcp_asTold : AsTold p addr port (tcpServerRun p addr port o) ↔
    o.allocated = false ∨
      (addr.contains ':' = false ∧ ((o.bind == 0 && o.last == 0) = false ∨ valid p addr port = true)) := by
  cases ha : o.allocated with
  | false =>
    rw [(run_null ha).1]
    exact ⟨fun _ => .inl rfl, fun _ => trivial⟩
  | true =>
    cases h6 : addr.contains ':' with
    | true =>
      rw [(run_overrun ha h6).1]
      simp [AsTold]
    | false =>
      rw [tcpServerRun_eq ha h6, asTold_if]
      simp

theorem udp_asTold : AsTold p addr port (udpHandleRun p port o (some addr)) ↔
    o.allocated = false ∨
      (addr.contains ':' = false ∧ ((o.last == 0) = false ∨
        (valid p addr port = true ∧ (o.bind = 0 ∨ (parse p addr port).1 = anyAddr)))) := by
  cases ha : o.allocated with
  | false =>
    rw [(run_null ha).2]
    exact ⟨fun _ => .inl rfl, fun _ => trivial⟩
  | true =>
    cases h6 : addr.contains ':' with
    | true =>
      rw [(run_overrun ha h6).2]
      simp [AsTold]
    | false =>
      rw [udpHandleRun_eq ha h6, asTold_if]
      by_cases hb : o.bind = 0
      · simp [hb]
      · simp [hb]

theorem bound_iff (p : Parser) (addr : List Char) (port : Int) (o : Outcome) :
    (AsTold p addr port (tcpServerRun p addr port o) ↔
      o.allocated = false ∨
        (addr.contains ':' = false ∧ ((o.bind == 0 && o.last == 0) = false ∨ valid p addr port = true))) ∧
    (AsTold p addr port (udpHandleRun p port o (some addr)) ↔
      o.allocated = false ∨
        (addr.contains ':' = false ∧ ((o.last == 0) = false ∨
          (valid p addr port = true ∧ (o.bind = 0 ∨ (parse p addr port).1 = anyAddr))))) :=
  ⟨tcp_asTold, udp_asTold⟩

/-! ## Four starts -/

def twoAddrs : Parser where
  ip4 ip := if ip = "192.168.0.1".toList then some #v[192, 168, 0, 1] else none
  ip6 ip := if ip = "::1".toList then some #v[0, 0, 0, 0, 0, 0, 0, 0, 0, 0, 0, 0, 0, 0, 0, 1] else none
  scope _ := 0

def went (bind : Int) : Outcome := ⟨true, true, true, true, true, bind, 0⟩

/-- A name is served on every interface, port 70000 on port 4464, and a port in use on another; ::1 on none. -/
theorem elsewhere :
    (tcpServerRun twoAddrs "localhost".toList 7000 (went 0) = .running ⟨some (.in4 7000 (Vector.replicate 4 0))⟩ ∧
      ¬ AsTold twoAddrs "localhost".toList 7000 (tcpServerRun twoAddrs "localhost".toList 7000 (went 0))) ∧
    (tcpServerRun twoAddrs "192.168.0.1".toList 70000 (went 0) = .running ⟨some (.in4 4464 #v[192, 168, 0, 1])⟩ ∧
      ¬ AsTold twoAddrs "192.168.0.1".toList 70000 (tcpServerRun twoAddrs "192.168.0.1".toList 70000 (went 0))) ∧
    (udpHandleRun twoAddrs 7000 (went (-98)) (some "192.168.0.1".toList) = .running ⟨some anyAddr⟩ ∧
      ¬ AsTold twoAddrs "192.168.0.1".toList 7000 (udpHandleRun twoAddrs 7000 (went (-98)) (some "192.168.0.1".toList))) ∧
    (valid twoAddrs "::1".toList 7000 = true ∧ tcpServerRun twoAddrs "::1".toList 7000 (went 0) = .overrun ∧
      ¬ AsTold twoAddrs "::1".toList 7000 (tcpServerRun twoAddrs "::1".toList 7000 (went 0))) := by
  refine ⟨⟨by decide, fun h => ?_⟩, ⟨by decide, fun h => ?_⟩, ⟨by decide, fun h => ?_⟩, by decide, by decide, fun h => ?_⟩
  · rw [tcp_asTold] at h
    revert h
    decide
  · rw [tcp_asTold] at h
    revert h
    decide
  · rw [udp_asTold] at h
    revert h
    decide
  · rw [tcp_asTold] at h
    revert h
    decide

end UvWrapper.Net.Endpoint
