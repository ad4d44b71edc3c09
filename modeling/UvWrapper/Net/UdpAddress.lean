/-
  UvWrapper.Net.UdpAddress — one udp_send_data_ip on the loop's thread, byte by byte (udp.c).

  send_addr is 16 bytes of the udp_socket_t; data1, data2 and async_send_flag come right behind
  it. uv_ip6_addr writes 28 bytes, and udp_send_data then stores data1 and data2, of 8 bytes each,
  over the last twelve. uv_udp_send reads 16 or 28 bytes by the family it finds.

  Proved: uv_udp_send is given the descriptor of the payload and reads the parsed address if and
  only if the malloc succeeds and the address is an IPv4 one, or its last twelve bytes happen to be
  those of the two pointers (`dest_iff`). 2001:db8::1 does not arrive (`lost_dest`).
-/

import UvWrapper.Net.Address

namespace UvWrapper.Net.UdpAddress

open UvWrapper.Lib.Memory
open UvWrapper.Net.Address

/-- The addresses of a udp_socket_t's send_addr and of the call's uv_buf_t. -/
structure Place where
  sendAddr : Nat
  buf : Nat
  sendAddr_ne : sendAddr ≠ 0
  sendAddr_lt : sendAddr + 36 ≤ 2 ^ 64
  buf_lt : buf + 16 ≤ 2 ^ 64
  apart : sendAddr + 36 ≤ buf ∨ buf + 16 ≤ sendAddr

def Place.data1 (pl : Place) : Nat := pl.sendAddr + 16

def Place.data2 (pl : Place) : Nat := pl.sendAddr + 24

def Place.asyncSendFlag (pl : Place) : Nat := pl.sendAddr + 32

/-- What uv_udp_send is given, and what it reads through its pointers. -/
structure Sent where
  bufs : Nat
  base : Nat
  len : Nat
  dest : Option (List UInt8)
  deriving DecidableEq

/-- A sockaddr at `a`, by its family. -/
def readAddr (m : Mem UInt8) (a : Nat) : Option (List UInt8) :=
  if ofLe (m.load a 2) = 2 then some (m.load a 16)
  else if ofLe (m.load a 2) = 10 then some (m.load a 28)
  else none

def uvUdpSend (m : Mem UInt8) (bufs addr : Nat) : Sent :=
  ⟨bufs, ofLe (m.load bufs 8), ofLe (m.load (bufs + 8) 8), readAddr m addr⟩

variable (p : Parser) (pl : Place) (data size : UInt64)

/-- `send_data`. `malloc`: there is memory for the uv_udp_send_t. -/
def sendData (malloc : Bool) (m : Mem UInt8) : Option Sent :=
  if malloc then some (uvUdpSend m (ofLe (m.load pl.data1 8)) (ofLe (m.load pl.data2 8))) else none

def storeCall (addr : Nat) (m : Mem UInt8) : Mem UInt8 :=
  (((m.store pl.asyncSendFlag (toLe 4 0)).store pl.buf (toLe 8 data.toNat ++ toLe 8 (size.toNat % 2 ^ 32))).store
    pl.data1 (toLe 8 pl.buf)).store pl.data2 (toLe 8 addr)

def udpSendData (addr : Nat) (malloc : Bool) (m : Mem UInt8) : Option Sent :=
  if data = 0 ∨ addr = 0 then none else sendData pl malloc (storeCall pl data size addr m)

def udpSendDataIp (ip : List Char) (port : Int) (malloc : Bool) (m : Mem UInt8) : Option Sent :=
  udpSendData pl data size pl.sendAddr malloc (m.store pl.sendAddr (parse p ip port).1.bytes)

def asked (ip : List Char) (port : Int) : Sent :=
  ⟨pl.buf, data.toNat, size.toNat % 2 ^ 32, some (parse p ip port).1.bytes⟩

/-- What lies behind the first 16 bytes is what the pointers put there. -/
def Survives (a : Sockaddr) : Prop := a.size = 16 ∨ a.bytes.drop 16 = toLe 8 pl.buf ++ toLe 4 pl.sendAddr

/-! ## What the stores leave -/

variable {p pl data size} {m : Mem UInt8} {a n : Nat}

theorem storeCall_data2 : (storeCall pl data size a m).load pl.data2 8 = toLe 8 a := by
  have := load_store_self (((m.store pl.asyncSendFlag (toLe 4 0)).store pl.buf
    (toLe 8 data.toNat ++ toLe 8 (size.toNat % 2 ^ 32))).store pl.data1 (toLe 8 pl.buf)) pl.data2 (toLe 8 a)
  rwa [toLe_length] at this

theorem storeCall_data1 : (storeCall pl data size a m).load pl.data1 8 = toLe 8 pl.buf := by
  have := load_store_self ((m.store pl.asyncSendFlag (toLe 4 0)).store pl.buf
    (toLe 8 data.toNat ++ toLe 8 (size.toNat % 2 ^ 32))) pl.data1 (toLe 8 pl.buf)
  rw [toLe_length] at this
  rw [storeCall, load_store_apart _ (by simp only [toLe_length, Place.data1, Place.data2]; omega)]
  exact this

/-- The two pointers are beside the uv_buf_t. -/
theorem storeCall_buf :
    (storeCall pl data size a m).load pl.buf 16 = toLe 8 data.toNat ++ toLe 8 (size.toNat % 2 ^ 32) := by
  have := load_store_self (m.store pl.asyncSendFlag (toLe 4 0)) pl.buf (toLe 8 data.toNat ++ toLe 8 (size.toNat % 2 ^ 32))
  rw [List.length_append, toLe_length, toLe_length] at this
  have hap := pl.apart
  rw [storeCall, load_store_apart _ (by simp only [toLe_length, Place.data2]; omega),
    load_store_apart _ (by simp only [toLe_length, Place.data1]; omega)]
  exact this

/-- And behind the first 16 bytes of the address. -/
theorem storeCall_head (hn : n ≤ 16) : (storeCall pl data size a m).load pl.sendAddr n = m.load pl.sendAddr n := by
  have hap := pl.apart
  rw [storeCall, load_store_apart _ (by simp only [toLe_length, Place.data2]; omega),
    load_store_apart _ (by simp only [toLe_length, Place.data1]; omega),
    load_store_apart _ (by simp only [List.length_append, toLe_length]; omega),
    load_store_apart _ (by simp only [toLe_length, Place.asyncSendFlag]; omega)]

theorem storeCall_all : (storeCall pl data size a m).load pl.sendAddr 28 =
    m.load pl.sendAddr 16 ++ (toLe 8 pl.buf ++ toLe 4 a) := by
  have h12 : (storeCall pl data size a m).load pl.data2 4 = toLe 4 a := by
    have := load_append (storeCall pl data size a m) pl.data2 4 4
    rw [storeCall_data2] at this
    rw [← toLe_take (n := 4) (k := 8) a (by omega), this, List.take_left' (load_length ..)]
  rw [show (28 : Nat) = 16 + (8 + 4) from rfl, load_append, load_append, storeCall_head (Nat.le_refl _)]
  exact congrArg (m.load pl.sendAddr 16 ++ ·) (congr (congrArg _ storeCall_data1) h12)

/-! ## What is read back -/

theorem ofLe_pointer {v : Nat} (h : v < 2 ^ 64) : ofLe (toLe 8 v) = v := by
  rw [ofLe_toLe]
  exact Nat.mod_eq_of_lt h

theorem readAddr_in4 {b : Sockaddr} (hb : b.size = 16) :
    readAddr (storeCall pl data size pl.sendAddr (m.store pl.sendAddr b.bytes)) pl.sendAddr = some b.bytes := by
  have hlen : b.bytes.length = 16 := (bytes_length b).trans hb
  have hfam : b.family = 2 := by cases b <;> simp_all [Sockaddr.size, Sockaddr.family]
  unfold readAddr
  rw [storeCall_head (by omega), load_store _ _ (by omega), family, hfam, if_pos rfl, storeCall_head (Nat.le_refl _),
    load_store _ _ (by omega), List.take_of_length_le (by omega)]

theorem readAddr_in6 {b : Sockaddr} (hb : b.size = 28) :
    readAddr (storeCall pl data size pl.sendAddr (m.store pl.sendAddr b.bytes)) pl.sendAddr =
      some (b.bytes.take 16 ++ (toLe 8 pl.buf ++ toLe 4 pl.sendAddr)) := by
  have hlen : b.bytes.length = 28 := (bytes_length b).trans hb
  have hfam : b.family = 10 := by cases b <;> simp_all [Sockaddr.size, Sockaddr.family]
  unfold readAddr
  rw [storeCall_head (by omega), load_store _ _ (by omega), family, hfam, if_neg (by decide), if_pos rfl, storeCall_all,
    load_store _ _ (by omega)]

theorem readAddr_iff (b : Sockaddr) :
    readAddr (storeCall pl data size pl.sendAddr (m.store pl.sendAddr b.bytes)) pl.sendAddr = some b.bytes ↔
      Survives pl b := by
  by_cases hb : b.size = 16
  · exact ⟨fun _ => .inl hb, fun _ => readAddr_in4 hb⟩
  · have h28 : b.size = 28 := by cases b <;> simp_all [Sockaddr.size]
    rw [readAddr_in6 h28, Option.some_inj]
    constructor
    · intro h
      have h := h.trans (List.take_append_drop 16 b.bytes).symm
      exact .inr (List.append_cancel_left h).symm
    · intro h
      rw [← h.resolve_left hb, List.take_append_drop]

/-- The send is given the payload's descriptor, and the descriptor is the call's. -/
theorem sendData_eq {b : Sockaddr} :
    sendData pl true (storeCall pl data size pl.sendAddr (m.store pl.sendAddr b.bytes)) =
      some ⟨pl.buf, data.toNat, size.toNat % 2 ^ 32,
        readAddr (storeCall pl data size pl.sendAddr (m.store pl.sendAddr b.bytes)) pl.sendAddr⟩ := by
  have hs := pl.sendAddr_lt
  have hb := pl.buf_lt
  have h16 : (storeCall pl data size pl.sendAddr (m.store pl.sendAddr b.bytes)).load pl.buf 16 = _ := storeCall_buf
  rw [load_append _ _ 8 8] at h16
  obtain ⟨hbase, hlen⟩ := List.append_inj h16 (by simp)
  have hbase := congrArg ofLe hbase
  have hlen := congrArg ofLe hlen
  rw [ofLe_pointer data.toNat_lt] at hbase
  rw [ofLe_pointer (Nat.lt_of_lt_of_le (Nat.mod_lt _ (by decide)) (by decide))] at hlen
  simp only [sendData, if_true, storeCall_data1, storeCall_data2]
  rw [ofLe_pointer (by omega), ofLe_pointer (by omega)]
  simp only [uvUdpSend, hbase, hlen]

theorem dest_iff (hd : data ≠ 0) (ip : List Char) (port : Int) (malloc : Bool) :
    udpSendDataIp p pl data size ip port malloc m = some (asked p pl data size ip port) ↔
      malloc = true ∧ Survives pl (parse p ip port).1 := by
  unfold udpSendDataIp udpSendData asked
  rw [if_neg (not_or.mpr ⟨hd, pl.sendAddr_ne⟩)]
  cases malloc with
  | false => simp [sendData]
  | true =>
    simp only [sendData_eq, Option.some.injEq, Sent.mk.injEq, true_and]
    exact readAddr_iff _

/-! ## One call each -/

def twoAddrs : Parser where
  ip4 ip := if ip = "10.0.0.1".toList then some #v[10, 0, 0, 1] else none
  ip6 ip :=
    if ip = "2001:db8::1".toList then some #v[0x20, 0x01, 0x0d, 0xb8, 0, 0, 0, 0, 0, 0, 0, 0, 0, 0, 0, 1] else none
  scope _ := 0

def place : Place := ⟨0x5000, 0x7000, by decide, by decide, by decide, by decide⟩

theorem sent_dest : udpSendDataIp twoAddrs place 0x6000 5 "10.0.0.1".toList 7000 true ⟨fun _ => 0, []⟩ =
    some ⟨0x7000, 0x6000, 5, some [2, 0, 0x1b, 0x58, 10, 0, 0, 1, 0, 0, 0, 0, 0, 0, 0, 0]⟩ :=
  (dest_iff (by decide) "10.0.0.1".toList 7000 true).mpr ⟨rfl, .inl (by decide)⟩

/-- The address ends in the bytes of `&buf`, and the scope is those of `&send_addr`. -/
theorem lost_dest :
    (udpSendDataIp twoAddrs place 0x6000 5 "2001:db8::1".toList 7000 true ⟨fun _ => 0, []⟩).bind Sent.dest =
      some [10, 0, 0x1b, 0x58, 0, 0, 0, 0, 0x20, 0x01, 0x0d, 0xb8, 0, 0, 0, 0, 0, 0x70, 0, 0, 0, 0, 0, 0, 0, 0x50, 0, 0] ∧
    udpSendDataIp twoAddrs place 0x6000 5 "2001:db8::1".toList 7000 true ⟨fun _ => 0, []⟩ ≠
      some (asked twoAddrs place 0x6000 5 "2001:db8::1".toList 7000) := by
  decide

end UvWrapper.Net.UdpAddress
