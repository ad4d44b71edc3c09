/-
  UvWrapper.Net.UdpLife — the life of a udp_socket_t (udp.c), from udp_handle_run through
  one udp_handle_close, with sends on the loop's thread.

  Loop thread: a stack of frames, as in `UvWrapper.Net.ServerLife`. close_handle makes no
  user callback and frees the socket before it returns; the socket's handles go on to their
  close phase, which first calls back the sends still queued.

  `uaf`: a step read the udp_socket_t after it was freed. Nothing is said of what follows it.
-/

import UvWrapper.Lib.Handle
import UvWrapper.Lib.Trace

namespace UvWrapper.Net.UdpLife

open UvWrapper.Lib

/-! ## State -/

inductive Frame where
  /-- User code: on_data, on_send or on_error. -/
  | user
  /-- on_send_cb after on_send, for request `r`: its free, and the look at the flag. -/
  | sent (r : Nat)
  /-- send_data after on_error: the look at the flag. -/
  | sendFailed
  deriving DecidableEq, Repr

inductive Closer where
  | idle
  | notify
  | done
  deriving DecidableEq, Repr

structure St where
  /-- free(udp_handle). -/
  frees : Nat
  udp : Handle
  asyncSend : Handle
  asyncClose : Handle
  closePending : Bool
  receiving : Bool
  /-- Send requests allocated so far: request `r` is the `r`-th. -/
  reqs : Nat
  /-- The requests libuv still holds, and the freed ones. -/
  queued : List Nat
  reqFrees : List Nat
  closer : Closer
  stack : List Frame
  uaf : Bool
  deriving DecidableEq, Repr

def init : St := ⟨0, .opened, .opened, .opened, false, true, 0, [], [], .idle, [], false⟩

/-! ## Steps -/

/-- A step that reads the socket first. -/
def reads (s t : St) : St := if s.frees ≠ 0 then { s with uaf := true } else t

def onRead (s : St) (nread : Int) : St := reads s (if nread = 0 then s else { s with stack := [.user] })

def onSend (s : St) (i r : Nat) : St :=
  reads s { s with queued := s.queued.eraseIdx i, stack := [.user, .sent r] }

def closeHandle (s : St) : St :=
  reads s
    { s with asyncSend := s.asyncSend.close, asyncClose := s.asyncClose.close, receiving := false,
             udp := s.udp.closeOnce, frees := s.frees + 1 }

/-- The wrapper's code on the loop thread goes on after a user callback returned. -/
def goOn (s : St) : Option St :=
  match s.stack with
  | .sent r :: st => some (reads s { s with stack := st, reqFrees := s.reqFrees ++ [r] })
  | .sendFailed :: st => some (reads s { s with stack := st })
  | _ => none

/-- `udp_send_data` from user code on the loop's thread. `accepted`: uv_udp_send returned 0. -/
def sendData (s : St) (malloc accepted : Bool) : St :=
  reads s
    (if malloc then { s with reqs := s.reqs + 1, queued := if accepted then s.queued ++ [s.reqs] else s.queued }
    else { s with stack := .user :: .sendFailed :: s.stack })

def closerStep (s : St) : Option St :=
  match s.closer with
  | .idle => some (reads s { s with closer := .notify })
  | .notify => some (reads s { s with closePending := true, closer := .done })
  | .done => none

inductive Ev where
  | read (nread : Int)
  /-- The `i`-th queued send is called back. -/
  | sent (i : Nat)
  | udpClosed
  | asyncSendClosed
  | asyncCloseClosed
  | asyncClose
  | goOn
  /-- User code on the loop's thread returns, sends, closes the socket. -/
  | ret
  | send (malloc accepted : Bool)
  | close
  /-- The other thread. -/
  | closer
  deriving DecidableEq, Repr

/-- User code runs on the loop's thread: a user callback, or between libuv's callbacks. -/
def userRuns : List Frame → Bool
  | [] | .user :: _ => true
  | _ => false

def step (s : St) (e : Ev) : Option St :=
  if s.uaf then none
  else match e with
  | .read nread => if s.stack = [] ∧ s.receiving = true ∧ s.udp.st = .opened then some (onRead s nread) else none
  | .sent i => if s.stack = [] ∧ s.udp.st ≠ .closed then s.queued[i]?.map (onSend s i) else none
  | .udpClosed =>
    if s.stack = [] ∧ s.udp.st = .closing ∧ s.queued = [] then some { s with udp := s.udp.finish.free } else none
  | .asyncSendClosed =>
    if s.stack = [] ∧ s.asyncSend.st = .closing then some { s with asyncSend := s.asyncSend.finish.free } else none
  | .asyncCloseClosed =>
    if s.stack = [] ∧ s.asyncClose.st = .closing then some { s with asyncClose := s.asyncClose.finish.free } else none
  | .asyncClose =>
    if s.stack = [] ∧ s.closePending = true ∧ s.asyncClose.st = .opened then
      some (closeHandle { s with closePending := false })
    else none
  | .goOn => goOn s
  | .ret =>
    match s.stack with
    | .user :: r => some { s with stack := r }
    | _ => none
  | .send malloc accepted =>
    if userRuns s.stack = true ∧ s.frees = 0 then some (sendData s malloc accepted) else none
  | .close => if userRuns s.stack = true ∧ s.closer = .idle then some (closeHandle { s with closer := .done }) else none
  | .closer => closerStep s

end UvWrapper.Net.UdpLife
