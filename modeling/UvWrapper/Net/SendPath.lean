/-
  UvWrapper.Net.SendPath — the send path that tcp_server.c, tcp_client.c and udp.c
  share: a call on the loop's own thread submits at once; a call on any other thread
  takes the mutex, fills in the slots, raises async_send and waits for the post.

                    tcp_server.c           tcp_client.c           udp.c
    entry           tcp_server_send_data   tcp_client_send_data   udp_send_data_ip, udp_send_data
    conn            tcp_connection_t       tcp_connection_t       udp_socket_t
    buf             conn->data2            conn->data2            data1
    sendAddr        (none)                 (none)                 send_addr (data2 = &send_addr)
    submission      uv_write               uv_write               uv_udp_send
    completion      on_conn_write          on_client_write        on_send_cb
    user callback
    in completion   (none)                 on_write               on_send

  The steps are the code's stores and library calls, one by one, in its order. The
  loop thread has a stack of frames: user code (`.user`) may return or call a send,
  and a user callback made by the wrapper (on_conn_error, on_error, on_write, on_send)
  pushes a `.user` frame over the frame that goes on after it. `uv_write` and
  `uv_udp_send` copy the descriptor (and the destination) at the call; a completion
  runs only from the loop, never inside them. Calls of one thread never overlap;
  here any two calls may, which only adds runs.

  The pointer `&buf` is the call whose local it is. What is read through it after that
  call returned is unknown (`none`).
-/

import UvWrapper.Lib.Handoff
import UvWrapper.Lib.Trace
import Mathlib.Algebra.Group.Nat.Defs

namespace UvWrapper.Net.SendPath

open UvWrapper.Lib

/-! ## Calls and buffers -/

/-- The arguments of a send call and the thread it is made on (`uv_thread_self()`);
    0 is NULL. `dest` is what udp_send_data_ip parses its ip and port to. -/
structure Call (δ : Type) where
  self : Nat
  conn : Nat
  data : Nat
  size : Nat
  dest : δ

structure Cfg (δ : Type) where
  /-- The loop's thread, recorded by the run function. -/
  threadId : Nat
  calls : Nat → Call δ
  /-- The completion callback runs a user callback before it looks at the flag. -/
  writeCb : Bool

structure Buf where
  base : Nat
  len : Nat
  deriving DecidableEq, Repr

def uvBufInit (data size : Nat) : Buf := ⟨data, size % 2 ^ 32⟩

variable {δ : Type}

namespace Cfg

variable (cfg : Cfg δ) (k : Nat)

def onLoop : Bool := cfg.threadId == (cfg.calls k).self

def conn : Nat := (cfg.calls k).conn

def dest : δ := (cfg.calls k).dest

def buf : Buf := uvBufInit (cfg.calls k).data (cfg.calls k).size

/-- The call returns at its NULL check. -/
def null : Bool := (cfg.calls k).conn == 0 || (cfg.calls k).data == 0

end Cfg

/-! ## State -/

inductive Stage where
  | flag
  | buf
  | asyncData
  | notify
  deriving DecidableEq, Repr

inductive SyncStage where
  | flag
  | buf
  deriving DecidableEq, Repr

inductive LoopPc where
  | idle
  | active
  | ret
  deriving DecidableEq, Repr

inductive Frame where
  /-- User code on the loop thread. -/
  | user
  /-- The loop-thread branch of the send function. -/
  | sync (k : Nat) (a : SyncStage)
  /-- `send_data(conn)` for call `k`, before its malloc. -/
  | sendData (k conn : Nat)
  /-- `send_data` after its malloc failed and the error callback was made. -/
  | sendFailed (k conn : Nat)
  /-- The completion callback after its user callback. -/
  | sent (k conn : Nat)
  deriving DecidableEq, Repr

structure Slot where
  asyncSendFlag : Bool
  buf : Option Nat
  deriving DecidableEq, Repr

structure Req where
  call : Nat
  conn : Nat
  deriving DecidableEq, Repr

/-- One call of `uv_write` or `uv_udp_send`: what was read through its arguments. -/
structure Submit (δ : Type) where
  call : Nat
  conn : Nat
  buf : Option Buf
  dest : δ
  deriving DecidableEq, Repr

structure St (δ : Type) where
  h : Handoff Nat Stage
  slot : Nat → Slot
  asyncData : Option Nat
  sendAddr : δ
  stack : List Frame
  loop : Nat → LoopPc
  inflight : List Req
  -- What the code does not keep: the last call to raise async_send, the calls whose
  -- destination is stored and not read yet, and the history.
  notifier : Nat
  live : List Nat
  locked : List Nat
  submits : List (Submit δ)
  failed : List Req
  completed : List Req
  /-- Posts an off-thread call was owed and did not get. -/
  lost : Nat

def init (addr : δ) : St δ :=
  ⟨Handoff.init, fun _ => ⟨false, none⟩, none, addr, [], fun _ => .idle, [], 0, [], [], [], [], [], 0⟩

def setFlag (f : Nat → Slot) (c : Nat) (b : Bool) : Nat → Slot :=
  Function.update f c { f c with asyncSendFlag := b }

def setBuf (f : Nat → Slot) (c k : Nat) : Nat → Slot := Function.update f c { f c with buf := some k }

/-- The call's local `buf` still exists. -/
def alive (s : St δ) (k : Nat) : Bool := (s.h.pc k).inside || s.loop k == .active

def derefBuf (cfg : Cfg δ) (s : St δ) (p : Option Nat) : Option Buf :=
  p.bind fun k => if alive s k then some (cfg.buf k) else none

/-! ## Steps -/

variable (cfg : Cfg δ)

def loopReturn (s : St δ) (k : Nat) : Nat → LoopPc :=
  if cfg.onLoop k then Function.update s.loop k .ret else s.loop

def checkFlag (s : St δ) (k c : Nat) : St δ :=
  if (s.slot c).asyncSendFlag then { s with h := s.h.post }
  else if cfg.onLoop k then s
  else { s with lost := s.lost + 1 }

/-- `udp_send_data_ip` parses into `send_addr` before it calls `udp_send_data`. -/
def storeAddr (s : St δ) (k : Nat) : St δ := if cfg.conn k = 0 then s else { s with sendAddr := cfg.dest k }

/-- The send function from its NULL check to its thread comparison. -/
def dispatch (s : St δ) (k : Nat) : Option (St δ) :=
  if cfg.onLoop k then
    match s.stack with
    | .user :: _ =>
      if s.loop k = .idle then
        if cfg.null k then some { s with loop := Function.update s.loop k .ret }
        else some { s with loop := Function.update s.loop k .active, live := s.live ++ [k],
                           stack := .sync k .flag :: s.stack }
      else none
    | _ => none
  else if s.h.pc k = .idle then
    if cfg.null k then some { s with h := s.h.skip k }
    else some { s with h := s.h.call k, live := s.live ++ [k] }
  else none

def enter (s : St δ) (k : Nat) : Option (St δ) := dispatch cfg (storeAddr cfg s k) k

def callerStep (s : St δ) (k : Nat) : Option (St δ) :=
  match s.h.pc k with
  | .want =>
    if s.h.mutex = none then some { s with h := s.h.lock k .flag, locked := s.locked ++ [k] } else none
  | .crit .flag => some { s with slot := setFlag s.slot (cfg.conn k) true, h := s.h.goto k .buf }
  | .crit .buf => some { s with slot := setBuf s.slot (cfg.conn k) k, h := s.h.goto k .asyncData }
  | .crit .asyncData => some { s with asyncData := some (cfg.conn k), h := s.h.goto k .notify }
  | .crit .notify => some { s with h := s.h.notify k, notifier := k }
  | .wait => if 0 < s.h.sem then some { s with h := s.h.wake k } else none
  | .woken => some { s with h := s.h.unlock k }
  | _ => none

def asyncSendCb (s : St δ) : Option (St δ) :=
  if s.stack = [] ∧ s.h.pending = true then
    s.asyncData.map fun c => { s with h := s.h.take, stack := [.sendData s.notifier c] }
  else none

/-- `send_data` once its request is allocated. `accepted`: the submission returned 0. -/
def submit (s : St δ) (k c : Nat) (r : List Frame) (accepted : Bool) : St δ :=
  { s with
    stack := r
    submits := s.submits ++ [⟨k, c, derefBuf cfg s (s.slot c).buf, s.sendAddr⟩]
    inflight := if accepted then s.inflight ++ [⟨k, c⟩] else s.inflight
    lost := if accepted || cfg.onLoop k then s.lost else s.lost + 1
    live := s.live.erase k
    loop := loopReturn cfg s k }

def loopStep (s : St δ) (malloc accepted : Bool) : Option (St δ) :=
  match s.stack with
  | .sync k .flag :: r => some { s with slot := setFlag s.slot (cfg.conn k) false, stack := .sync k .buf :: r }
  | .sync k .buf :: r => some { s with slot := setBuf s.slot (cfg.conn k) k, stack := .sendData k (cfg.conn k) :: r }
  | .sendData k c :: r =>
    if malloc then some (submit cfg s k c r accepted)
    else some { s with stack := .user :: .sendFailed k c :: r, failed := s.failed ++ [⟨k, c⟩], live := s.live.erase k }
  | .sendFailed k c :: r => some { checkFlag cfg s k c with stack := r, loop := loopReturn cfg s k }
  | .sent k c :: r => some { checkFlag cfg s k c with stack := r }
  | _ => none

def onWrite (s : St δ) (i : Nat) : Option (St δ) :=
  if s.stack = [] then
    s.inflight[i]?.map fun r =>
      let s1 := { s with inflight := s.inflight.eraseIdx i, completed := s.completed ++ [r] }
      if cfg.writeCb then { s1 with stack := [.user, .sent r.call r.conn] } else checkFlag cfg s1 r.call r.conn
  else none

inductive Ev where
  /-- A loop callback that runs user code (on_read, on_conn_open, a timer, …). -/
  | callback
  | ret
  | call (k : Nat)
  | caller (k : Nat)
  | asyncSend
  | loop (malloc accepted : Bool)
  | written (i : Nat)
  deriving DecidableEq, Repr

def step (s : St δ) : Ev → Option (St δ)
  | .callback => if s.stack = [] then some { s with stack := [.user] } else none
  | .ret =>
    match s.stack with
    | .user :: r => some { s with stack := r }
    | _ => none
  | .call k => enter cfg s k
  | .caller k => callerStep cfg s k
  | .asyncSend => asyncSendCb s
  | .loop malloc accepted => loopStep cfg s malloc accepted
  | .written i => onWrite cfg s i

/-! ## Calls that keep apart -/

/-- The mutex's holder sends on `c` and has stored its buffer, and nothing has been
    submitted for it yet. -/
def beforeSubmit (s : St δ) (c : Nat) : Bool :=
  match s.h.mutex with
  | none => false
  | some t => cfg.conn t == c &&
    match s.h.pc t with
    | .crit .asyncData | .crit .notify => true
    | .wait => s.h.pending || s.stack.any fun f => match f with | .sendData k _ => k == t | _ => false
    | _ => false

/-- A loop-thread call has stored its buffer on `c` and not submitted it yet. -/
def loopReady (s : St δ) (c : Nat) : Bool :=
  s.stack.any fun f => match f with | .sendData k c' => cfg.onLoop k && c' == c | _ => false

/-- A loop-thread call that has cleared the flag of `c` and will look at it again. -/
def loopFrame (c : Nat) : Frame → Bool
  | .sync k .buf => cfg.conn k == c
  | .sendData k c' | .sendFailed k c' | .sent k c' => cfg.onLoop k && c' == c
  | _ => false

/-- A loop-thread send on `c` is in progress or its request has not completed. -/
def loopBusy (s : St δ) (c : Nat) : Bool :=
  s.stack.any (loopFrame cfg c) || s.inflight.any fun r => cfg.onLoop r.call && r.conn == c

/-- No step overwrites a slot that another call still needs: a buffer is stored only
    over one that is submitted already; an off-thread call sets the flag only when no
    loop-thread send on the connection is in progress or outstanding; a destination is
    stored only over an equal one or one already read. -/
def apart [DecidableEq δ] (s : St δ) : Ev → Bool
  | .call k => cfg.conn k == 0 || s.live.all fun j => cfg.dest j == cfg.dest k
  | .caller k =>
    match s.h.pc k with
    | .crit .flag => !loopBusy cfg s (cfg.conn k)
    | .crit .buf => !loopReady cfg s (cfg.conn k)
    | _ => true
  | .loop _ _ =>
    match s.stack with
    | .sync k .buf :: _ => !beforeSubmit cfg s (cfg.conn k)
    | _ => true
  | _ => true

/-- The mutex's holder sends on `c`, has stored its flag, and its post is not made yet. -/
def needsFlag (s : St δ) (c : Nat) : Bool :=
  match s.h.mutex with
  | none => false
  | some t => cfg.conn t == c &&
    match s.h.pc t with
    | .crit .flag => false
    | .crit _ => true
    | .wait => s.h.sem == 0
    | _ => false

/-- No loop-thread call clears the flag that an off-thread call's post depends on. -/
def flagKept (s : St δ) : Ev → Bool
  | .loop _ _ =>
    match s.stack with
    | .sync k .flag :: _ => !needsFlag cfg s (cfg.conn k)
    | _ => true
  | _ => true

/-- The step is no submission that libuv refuses. -/
def acceptedStep (s : St δ) : Ev → Bool
  | .loop true accepted =>
    match s.stack with
    | .sendData _ _ :: _ => accepted
    | _ => true
  | _ => true

def allocated (s : St δ) : Ev → Bool
  | .loop malloc _ =>
    match s.stack with
    | .sendData _ _ :: _ => malloc
    | _ => true
  | _ => true

/-! ## What a call is owed -/

def Cfg.own (k : Nat) : Submit δ := ⟨k, cfg.conn k, some (cfg.buf k), cfg.dest k⟩

/-- The same with the size as the caller gave it. -/
def Cfg.asked (k : Nat) : Submit δ :=
  ⟨k, cfg.conn k, some ⟨(cfg.calls k).data, (cfg.calls k).size⟩, cfg.dest k⟩

/-- Below 2^32 the cast to `unsigned int` keeps the size. -/
theorem Cfg.own_eq_asked {cfg : Cfg δ} {k : Nat} (h : (cfg.calls k).size < 2 ^ 32) : cfg.own k = cfg.asked k := by
  simp only [own, asked, buf, uvBufInit, Nat.mod_eq_of_lt h]

def submitsOf (s : St δ) (k : Nat) : List (Submit δ) := s.submits.filter fun e => e.call == k

def returned (s : St δ) (k : Nat) : Prop := s.h.pc k = .ret ∨ s.loop k = .ret

def running (s : St δ) (k : Nat) : Prop := (s.h.pc k ≠ .idle ∧ s.h.pc k ≠ .ret) ∨ s.loop k = .active

def Failed (s : St δ) (k : Nat) : Prop := k ∈ s.failed.map Req.call

def Completed (s : St δ) (k : Nat) : Prop := k ∈ s.completed.map Req.call

/-- A step of the code or of libuv that begins no call and no callback of its own. -/
def Ev.goesOn : Ev → Bool
  | .callback | .call _ => false
  | _ => true

end UvWrapper.Net.SendPath
