/-
  UvWrapper.Component.Shutdown — component_uninit beside the two threads that component_init made.

                 component.c                           msg_queue.c, udp.c, event_loop_thread.c
    main         component_uninit                      msg_queue_destroy: is_running, IPC_RMID, join, free
                                                       udp_handle_close: uv_async_send
                                                       event_thread_destroy: join
    loop         event_thread_func: udp_handle_run,    event_thread: uv_run
                 the store of udp_handle
                 on_data → get_component_msg_id        msg_send: malloc, msgsnd
                                                       async_send_cb, on_send_cb, async_close_cb
    message      on_msg → udp_send_data                msg_thread: is_running, msgrcv, free

  A run starts when component_init returns, with what came of it (`Outcome`); component_uninit may
  start at once. The steps are the code's loads, stores and library calls, of the three threads in
  any order. What the messages hold is in `UvWrapper.Component.Relay`; here they are counted. The
  queue is never full, and the message thread is the only sender.

  `fault`: msg_queue was dereferenced when it was NULL or freed. A store through NULL does not
  return; a load from the freed block gives some id, at which msgsnd fails.
-/

import UvWrapper.Lib.Handoff
import UvWrapper.Lib.Trace

namespace UvWrapper.Component.Shutdown

open UvWrapper.Lib

/-! ## State -/

/-- The static msg_queue, and the block it points to. -/
inductive QueuePtr where
  | null
  | live
  | freed
  deriving DecidableEq, Repr

inductive MainPc where
  /-- At `msg_queue->is_running = false`, or before component_uninit. -/
  | stop
  | remove
  /-- At the load of thread_id. -/
  | threadId
  | joinMsg
  | free
  /-- udp_handle_close, up to its look at the pointer. -/
  | udpHandle
  | asyncClose
  | joinLoop
  | done
  deriving DecidableEq, Repr

inductive LoopPc where
  /-- At udp_handle_run. -/
  | start
  /-- At the store of udp_handle; `opened`: it is not NULL. -/
  | store (opened : Bool)
  | poll
  -- on_data: the look at init_peer, its store, get_component_msg_id
  | initPeer
  | setInit
  | msgId
  /-- At `return msg_queue->msg_id`. -/
  | readMsgId
  | msgSend
  | msgsnd
  | sendData
  | ended
  deriving DecidableEq, Repr

inductive MsgPc where
  /-- At `while (args->is_running)`. -/
  | running
  | msgrcv
  /-- on_msg before it looks at init_peer. -/
  | onMsg
  /-- In udp_send_data, at the stage the hand-off says. -/
  | sending
  | free
  | ended
  deriving DecidableEq, Repr

inductive Stage where
  | flag
  | notify
  deriving DecidableEq, Repr

inductive Socket where
  | none
  | opened
  /-- close_handle has run. -/
  | closed
  deriving DecidableEq, Repr

structure St where
  main : MainPc
  loop : LoopPc
  msg : MsgPc
  msgQueue : QueuePtr
  isRunning : Bool
  /-- The messages in the kernel's queue; `none` when there is no such queue. -/
  ipc : Option Nat
  /-- The static udp_handle is not NULL. -/
  udpHandle : Bool
  initPeer : Bool
  socket : Socket
  closePending : Bool
  h : Handoff Unit Stage
  asyncSendFlag : Bool
  inflight : Nat
  fault : Bool

/-- What came of msg_queue_create, of its pthread_create, and of event_thread_create. A join of a
    thread that was not made returns. -/
structure Outcome where
  queue : Bool
  msgThread : Bool
  loopThread : Bool

def init (o : Outcome) : St where
  main := .stop
  loop := if o.loopThread then .start else .ended
  msg := if o.queue && o.msgThread then .running else .ended
  msgQueue := if o.queue then .live else .null
  isRunning := o.queue
  ipc := if o.queue then some 0 else none
  udpHandle := false
  initPeer := false
  socket := .none
  closePending := false
  h := Handoff.init
  asyncSendFlag := false
  inflight := 0
  fault := false

/-! ## Steps -/

/-- A step to `t` that first dereferences msg_queue. -/
def deref (s t : St) : St :=
  match s.msgQueue with
  | .live => t
  | .freed => { t with fault := true }
  | .null => { s with fault := true }

def componentUninit (s : St) : Option St :=
  match s.main with
  | .stop => some (deref s { s with isRunning := false, main := .remove })
  | .remove => some (deref s { s with ipc := none, main := .threadId })
  | .threadId => some (deref s { s with main := .joinMsg })
  | .joinMsg => if s.msg = .ended then some { s with main := .free } else none
  | .free => some { s with msgQueue := if s.msgQueue = .null then .null else .freed, main := .udpHandle }
  | .udpHandle => some { s with main := if s.udpHandle then .asyncClose else .joinLoop }
  | .asyncClose => some { s with closePending := true, main := .joinLoop }
  | .joinLoop => if s.loop = .ended then some { s with main := .done } else none
  | .done => none

def loopStep (s : St) : Option St :=
  match s.loop with
  | .store opened => some { s with udpHandle := opened, loop := .poll }
  | .initPeer => some { s with loop := if s.initPeer then .msgId else .setInit }
  | .setInit => some { s with initPeer := true, loop := .msgId }
  -- get_component_msg_id gives -1 for NULL, and msg_send returns at once
  | .msgId => some { s with loop := if s.msgQueue = .null then .poll else .readMsgId }
  | .readMsgId => some (deref s { s with loop := .msgSend })
  | _ => none

def udpHandleRun (s : St) (opened : Bool) : Option St :=
  match s.loop with
  | .start => some { s with socket := if opened then .opened else .none, loop := .store opened }
  | _ => none

def msgSend (s : St) (malloc : Bool) : Option St :=
  match s.loop with
  | .msgSend => some { s with loop := if malloc then .msgsnd else .poll }
  | _ => none

def msgsnd (s : St) (accepted : Bool) : Option St :=
  match s.loop with
  | .msgsnd =>
    if accepted then s.ipc.map fun n => { s with ipc := some (n + 1), loop := .poll } else some { s with loop := .poll }
  | _ => none

def checkFlag (s : St) : St := if s.asyncSendFlag then { s with h := s.h.post } else s

def sendData (s : St) (malloc accepted : Bool) : Option St :=
  match s.loop with
  | .sendData =>
    if malloc then some { s with inflight := if accepted then s.inflight + 1 else s.inflight, loop := .poll }
    else some { checkFlag s with loop := .poll }
  | _ => none

/-- msgrcv, with a message or with an error: EIDRM, or another one. -/
def msgrcv (s : St) (received eidrm : Bool) : Option St :=
  match s.msg with
  | .msgrcv =>
    if received then
      match s.ipc with
      | some (n + 1) => some (deref s { s with ipc := some n, msg := .onMsg })
      | _ => none
    else if eidrm then if s.ipc = none then some { s with msg := .ended } else none
    else some { s with msg := .running }
  | _ => none

def udpSendData (s : St) : Option St :=
  match s.h.pc () with
  | .want => if s.h.mutex = none then some { s with h := s.h.lock () .flag } else none
  | .crit .flag => some { s with asyncSendFlag := true, h := s.h.goto () .notify }
  | .crit .notify => some { s with h := s.h.notify () }
  | .wait => if 0 < s.h.sem then some { s with h := s.h.wake () } else none
  | .woken => some { s with h := s.h.unlock (), msg := .free }
  | _ => none

def msgStep (s : St) : Option St :=
  match s.msg with
  | .running => some (deref s { s with msg := if s.isRunning then .msgrcv else .ended })
  | .onMsg => if s.initPeer && s.udpHandle then some { s with h := s.h.call (), msg := .sending } else some { s with msg := .free }
  | .sending => udpSendData s
  | .free => some { s with msg := .running }
  | .msgrcv | .ended => none

inductive Ev where
  | main
  | loop
  | udpHandleRun (opened : Bool)
  /-- on_read_cb with `nread > 0`. -/
  | datagram
  | msgSend (malloc : Bool)
  | msgsnd (accepted : Bool)
  | asyncSend
  | sendData (malloc accepted : Bool)
  | onSend
  | asyncClose
  /-- uv_run returns, and event_thread. -/
  | uvRunEnds
  | msgrcv (received eidrm : Bool)
  | msg
  deriving DecidableEq, Repr

def step (s : St) : Ev → Option St
  | .main => componentUninit s
  | .loop => loopStep s
  | .udpHandleRun opened => udpHandleRun s opened
  | .datagram => if s.loop = .poll ∧ s.socket = .opened then some { s with loop := .initPeer } else none
  | .msgSend malloc => msgSend s malloc
  | .msgsnd accepted => msgsnd s accepted
  | .asyncSend =>
    if s.loop = .poll ∧ s.socket = .opened ∧ s.h.pending = true then some { s with h := s.h.take, loop := .sendData } else none
  | .sendData malloc accepted => sendData s malloc accepted
  | .onSend => if s.loop = .poll ∧ 0 < s.inflight then some (checkFlag { s with inflight := s.inflight - 1 }) else none
  | .asyncClose =>
    if s.loop = .poll ∧ s.socket = .opened ∧ s.closePending = true then some { s with closePending := false, socket := .closed }
    else none
  | .uvRunEnds => if s.loop = .poll ∧ s.socket ≠ .opened ∧ s.inflight = 0 then some { s with loop := .ended } else none
  | .msgrcv received eidrm => msgrcv s received eidrm
  | .msg => msgStep s

end UvWrapper.Component.Shutdown
