/-
  UvWrapper.Component.Relay — the component's relay: on_data copies a datagram into the
  message queue on the loop thread, msg_thread hands the copy to on_msg, and on_msg sends
  it back with udp_send_data to the sender of the first datagram.

                    component.c, udp.c                      msg_queue.c
    loop thread     on_read_cb → on_data                    msg_send: malloc, memcpy, msgsnd
                    async_send_cb → send_data; on_send_cb
    message thread  on_msg → udp_send_data                  msg_thread: msgrcv, on_msg, free

  The steps are the code's stores and library calls, one by one, in its order, of the two
  threads in any order. component_init has succeeded: the queue exists, and udp_handle is
  set before the loop runs. The message thread is never the loop's, so its calls take
  the off-thread branch of udp_send_data; nothing else sends. on_send and on_error are NULL.
  Nothing is destroyed or closed.

  The kernel queue is FIFO for msgtyp 0 and holds `capacity` messages: msgsnd with flag 0
  waits while it is full. A failing msgrcv leaves msg_thread at its next one.
-/

import UvWrapper.Lib.Handoff
import UvWrapper.Lib.Trace
import Mathlib.Algebra.Group.Nat.Defs

namespace UvWrapper.Component.Relay

open UvWrapper.Lib

/-! ## Datagrams, messages and memory -/

def maxBufLen : Nat := 4096

/-- What on_data is given: `nread` bytes of `buf`, and the sender. -/
structure Datagram where
  bytes : List UInt8
  peer : Nat
  deriving DecidableEq

/-- msg_t. Pointers into the heap are numbers; 0 is NULL. -/
structure Msg where
  type : Int
  msgBuf : Nat
  msgSize : Nat
  deriving DecidableEq, Repr

/-- The message msg_send makes for its copy of `len` bytes at `buf`. -/
def message (buf len : Nat) (msgType : Int) : Msg := ⟨if msgType ≤ 0 then 1 else msgType, buf, len⟩

/-- Where a send's bytes are: a heap block, or on_msg's stack from its parameter `data` on. -/
inductive Ptr where
  | heap (p : Nat)
  | addrOfData
  deriving DecidableEq, Repr

structure Buf where
  base : Ptr
  len : Nat
  deriving DecidableEq, Repr

def uvBufInit (data : Ptr) (size : Nat) : Buf := ⟨data, size % 2 ^ 32⟩

/-- The `len` bytes stored from `&data` on: the pointer's own eight, lowest first, and
    what the stack holds above them. -/
def stackBytes (data : Nat) (above : Nat → UInt8) (len : Nat) : List UInt8 :=
  (List.range len).map fun i => if i < 8 then (data / 256 ^ i).toUInt8 else above (i - 8)

/-! ## State -/

/-- What on_msg's udp_send_data does next while it holds the mutex. -/
inductive Stage where
  | flag
  | data1
  | data2
  | asyncData
  | notify
  deriving DecidableEq, Repr

inductive LoopPc where
  | poll
  /-- on_data before it looks at init_peer. -/
  | initPeer (d : Datagram)
  /-- on_data after the memcpy to peer_addr. -/
  | setInit (d : Datagram)
  /-- on_data at msg_send. -/
  | msgSend (d : Datagram)
  /-- msg_send at msgsnd. -/
  | msgsnd (m : Msg)
  /-- async_send_cb at send_data. -/
  | sendData

inductive MsgPc where
  /-- In msgrcv. -/
  | msgrcv
  /-- on_msg before it looks at init_peer. `above`: the stack above its parameter. -/
  | onMsg (m : Msg) (above : Nat → UInt8)
  /-- In udp_send_data, at the stage the hand-off says. -/
  | sending (m : Msg) (above : Nat → UInt8)
  /-- At `free(msg.msg_buf)`. -/
  | free (m : Msg)

/-- What one uv_udp_send was given: the bytes behind its descriptor and the destination
    behind its address; `none` where there is nothing to read. -/
abbrev Submit := Option (List UInt8) × Option Nat

structure St where
  loop : LoopPc
  msg : MsgPc
  queue : List Msg
  heap : Nat → Option (List UInt8)
  initPeer : Bool
  peerAddr : Nat
  -- udp_socket_t
  h : Handoff Unit Stage
  asyncSendFlag : Bool
  data1 : Option Buf
  /-- data2 is `&peer_addr`. -/
  data2 : Bool
  inflight : Nat
  -- history
  got : List Datagram
  sent : List Submit

def init : St := ⟨.poll, .msgrcv, [], fun _ => none, false, 0, Handoff.init, false, none, false, 0, [], []⟩

def bytesAt (s : St) (p : Ptr) (len : Nat) : Option (List UInt8) :=
  match p with
  | .heap p => (s.heap p).map (List.take len)
  | .addrOfData =>
    match s.msg with
    | .sending m above => some (stackBytes m.msgBuf above len)
    | _ => none

/-- What uv_udp_send reads through data1 and data2. -/
def submission (s : St) : Submit :=
  (s.data1.bind fun b => bytesAt s b.base b.len, if s.data2 then some s.peerAddr else none)

/-! ## Steps -/

variable (capacity : Nat)

def onData (s : St) : Option St :=
  match s.loop with
  | .initPeer d =>
    if s.initPeer then some { s with loop := .msgSend d }
    else some { s with peerAddr := d.peer, loop := .setInit d }
  | .setInit d => some { s with initPeer := true, loop := .msgSend d }
  | _ => none

/-- msg_send's malloc, which gives a block that is not in use, or fails. -/
def msgSend (s : St) (malloc : Option Nat) : Option St :=
  match s.loop with
  | .msgSend d =>
    match malloc with
    | none => some { s with loop := .poll }
    | some p =>
      if 0 < p ∧ p < 2 ^ 64 ∧ s.heap p = none then
        some { s with heap := Function.update s.heap p (some d.bytes), loop := .msgsnd (message p d.bytes.length 0) }
      else none
  | _ => none

def msgsnd (s : St) (succeeds : Bool) : Option St :=
  match s.loop with
  | .msgsnd m =>
    if succeeds then
      if s.queue.length < capacity then some { s with queue := s.queue ++ [m], loop := .poll } else none
    else some { s with heap := Function.update s.heap m.msgBuf none, loop := .poll }
  | _ => none

/-- msgrcv takes the first message; msg_thread drops one whose msg_buf is NULL. -/
def msgrcv (s : St) (above : Nat → UInt8) : Option St :=
  match s.msg, s.queue with
  | .msgrcv, m :: q => some { s with queue := q, msg := if m.msgBuf = 0 then .msgrcv else .onMsg m above }
  | _, _ => none

def udpSendData (s : St) (data : Ptr) (m : Msg) : Option St :=
  match s.h.pc () with
  | .want => if s.h.mutex = none then some { s with h := s.h.lock () .flag } else none
  | .crit .flag => some { s with asyncSendFlag := true, h := s.h.goto () .data1 }
  | .crit .data1 => some { s with data1 := some (uvBufInit data m.msgSize), h := s.h.goto () .data2 }
  | .crit .data2 => some { s with data2 := true, h := s.h.goto () .asyncData }
  -- the store of async_send->data: what udp_handle_run stored already
  | .crit .asyncData => some { s with h := s.h.goto () .notify }
  | .crit .notify => some { s with h := s.h.notify () }
  | .wait => if 0 < s.h.sem then some { s with h := s.h.wake () } else none
  | .woken => some { s with h := s.h.unlock (), msg := .free m }
  | _ => none

/-- The message thread from msgrcv's return on. on_msg passes `(char*)&data`. -/
def onMsg (s : St) : Option St :=
  match s.msg with
  | .msgrcv => none
  | .onMsg m above =>
    if s.initPeer then some { s with h := s.h.call (), msg := .sending m above } else some { s with msg := .free m }
  | .sending m _ => udpSendData s .addrOfData m
  | .free m => some { s with heap := Function.update s.heap m.msgBuf none, msg := .msgrcv }

def checkFlag (s : St) : St := if s.asyncSendFlag then { s with h := s.h.post } else s

def asyncSendCb (s : St) : Option St :=
  match s.loop with
  | .poll => if s.h.pending then some { s with h := s.h.take, loop := .sendData } else none
  | _ => none

def sendData (s : St) (malloc accepted : Bool) : Option St :=
  match s.loop with
  | .sendData =>
    if malloc then
      some { s with sent := s.sent ++ [submission s], loop := .poll,
                    inflight := if accepted then s.inflight + 1 else s.inflight }
    else some { checkFlag s with loop := .poll }
  | _ => none

def onSendCb (s : St) : Option St :=
  match s.loop with
  | .poll => if 0 < s.inflight then some (checkFlag { s with inflight := s.inflight - 1 }) else none
  | _ => none

inductive Ev where
  /-- on_read_cb with `nread > 0`. -/
  | datagram (d : Datagram)
  | onData
  | msgSend (malloc : Option Nat)
  | msgsnd (succeeds : Bool)
  | msgrcv (above : Nat → UInt8)
  | onMsg
  | asyncSend
  | sendData (malloc accepted : Bool)
  | onSend

def step (s : St) : Ev → Option St
  | .datagram d =>
    match s.loop with
    | .poll =>
      if 0 < d.bytes.length ∧ d.bytes.length ≤ maxBufLen then some { s with loop := .initPeer d, got := s.got ++ [d] }
      else none
    | _ => none
  | .onData => onData s
  | .msgSend malloc => msgSend s malloc
  | .msgsnd succeeds => msgsnd capacity s succeeds
  | .msgrcv above => msgrcv s above
  | .onMsg => onMsg s
  | .asyncSend => asyncSendCb s
  | .sendData malloc accepted => sendData s malloc accepted
  | .onSend => onSendCb s

/-- No malloc, msgsnd or uv_udp_send fails. -/
def Ev.succeeds : Ev → Bool
  | .msgSend malloc => malloc.isSome
  | .msgsnd succeeds => succeeds
  | .sendData malloc accepted => malloc && accepted
  | _ => true

def goodStep (s : St) (e : Ev) : Option St := if e.succeeds then step capacity s e else none

/-! ## The message thread in a send -/

def MsgPc.inSend : MsgPc → Bool
  | .sending _ _ => true
  | _ => false

theorem MsgPc.inSend_iff {p : MsgPc} : p.inSend = true ↔ ∃ m above, p = .sending m above := by
  cases p <;> simp [inSend]

def calling (s : St) : Bool :=
  match s.h.pc () with
  | .idle | .ret => false
  | _ => true

variable {capacity} {s s' : St}

/-- A step that is not the message thread's leaves it and its place in the send alone. -/
theorem step_msg {e : Ev} (h : step capacity s e = some s') (hm : e ≠ .onMsg) :
    s'.h.pc = s.h.pc ∧ s'.h.mutex = s.h.mutex ∧ (s'.msg = s.msg ∨
      ∃ m q above, e = .msgrcv above ∧ s.msg = .msgrcv ∧ s.queue = m :: q ∧ s'.queue = q ∧ s'.loop = s.loop ∧
        s'.msg = if m.msgBuf = 0 then .msgrcv else .onMsg m above) := by
  have hflag : ∀ t : St, (checkFlag t).h.pc = t.h.pc ∧ (checkFlag t).h.mutex = t.h.mutex ∧
      (checkFlag t).msg = t.msg := fun t => by unfold checkFlag; split <;> exact ⟨rfl, rfl, rfl⟩
  cases e with
  | onMsg => exact absurd rfl hm
  | msgrcv above =>
    simp only [step, msgrcv] at h
    split at h
    · rename_i m q hr hq
      cases h
      exact ⟨rfl, rfl, .inr ⟨m, q, above, rfl, hr, hq, rfl, rfl, rfl⟩⟩
    · cases h
  | sendData malloc accepted =>
    simp only [step, sendData] at h
    repeat' split at h
    all_goals first
      | (cases h; exact ⟨rfl, rfl, .inl rfl⟩)
      | (cases h; exact ⟨(hflag s).1, (hflag s).2.1, .inl (hflag s).2.2⟩)
      | cases h
  | onSend =>
    simp only [step, onSendCb] at h
    split at h
    · split at h <;> cases h
      obtain ⟨h1, h2, h3⟩ := hflag { s with inflight := s.inflight - 1 }
      exact ⟨h1, h2, .inl h3⟩
    · cases h
  | _ =>
    simp only [step, onData, msgSend, msgsnd, asyncSendCb] at h
    repeat' split at h
    all_goals first | (cases h; exact ⟨rfl, rfl, .inl rfl⟩) | cases h

theorem onMsg_calling (hi : calling s = s.msg.inSend) (h : onMsg s = some s') : calling s' = s'.msg.inSend := by
  unfold onMsg at h
  split at h
  · cases h
  · rename_i m above hm
    rw [hm] at hi
    split at h <;> cases h
    · simp [calling, MsgPc.inSend, Handoff.call]
    · exact hi
  · rename_i m above hm
    unfold udpSendData at h
    repeat' split at h
    all_goals first
      | (cases h; simp [calling, hm, MsgPc.inSend, Handoff.lock, Handoff.goto, Handoff.notify, Handoff.wake,
          Handoff.unlock])
      | cases h
  · rename_i m hm
    rw [hm] at hi
    cases h
    exact hi

theorem step_calling (hi : calling s = s.msg.inSend) {e : Ev} (h : step capacity s e = some s') :
    calling s' = s'.msg.inSend := by
  by_cases hm : e = .onMsg
  · subst hm
    exact onMsg_calling hi h
  · obtain ⟨hpc, -, hmsg⟩ := step_msg h hm
    have hc : calling s' = calling s := by simp [calling, hpc]
    rw [hc, hi]
    rcases hmsg with hmsg | ⟨m, q, above, -, hr, -, -, -, hmsg⟩
    · rw [hmsg]
    · rw [hmsg, hr]
      split <;> rfl

end UvWrapper.Component.Relay
