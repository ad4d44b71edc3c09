/-
  UvWrapper.Net.ServerLife — the life of a tcp_server_t and of its connections
  (tcp_server.c), from a tcp_server_run that got past its allocations.

  Loop thread: one libuv callback at a time, as a stack of frames. A user callback made
  by the wrapper is a `.user` frame over the frame that goes on after it; user code may
  send on its connections and close the server, and returns. `goOn` is the next piece of wrapper
  code down to its next user callback.

  Another thread may call tcp_server_close: its steps are is_closing, the comparison with
  thread_id, and uv_async_send.

  libuv: uv_close only schedules; the close callback runs later, once, after the
  handle's queued writes have completed. A closed listening handle gets no connection callbacks, a
  closing stream no reads.

  `uaf`: a step read a tcp_server_t or a tcp_connection_t that was freed. Nothing is said of
  what follows it.
-/

import UvWrapper.Lib.Handle
import UvWrapper.Lib.Trace
import Mathlib.Logic.Function.Basic

namespace UvWrapper.Net.ServerLife

open UvWrapper.Lib

/-! ## State -/

/-- A user callback; `none` is a NULL connection. -/
inductive Cb where
  | onOpen (n : Nat)
  | onRead (n : Nat)
  | onError (n : Option Nat)
  | onClose (n : Nat)
  deriving DecidableEq, Repr

inductive Frame where
  | user (cb : Cb)
  /-- on_new_connection after on_conn_open: uv_read_start. -/
  | readStart (n : Nat)
  /-- on_new_connection after on_conn_error for a client without a connection: its close. -/
  | refuse (n : Nat)
  /-- on_conn_read after on_conn_error: tcp_server_conn_close. -/
  | readError (n : Nat)
  /-- on_close_connection after on_conn_close. -/
  | remove (n : Nat)
  /-- send_data after on_conn_error: the look at the flag. -/
  | sendFailed (n : Nat)
  deriving DecidableEq, Repr

inductive Closer where
  | idle
  | compare
  | notify
  | done
  deriving DecidableEq, Repr

inductive Mark where
  | start (cb : Cb)
  | ret (cb : Cb)
  deriving DecidableEq, Repr

structure St where
  -- tcp_server_t
  sessions : List Nat
  connCount : Int
  isClosing : Bool
  frees : Nat
  -- its handles, and the notification of async_close
  listen : Handle
  asyncSend : Handle
  asyncClose : Handle
  closePending : Bool
  -- clients; client `n` becomes the session of connection `n`
  client : Nat → Handle
  reading : Nat → Bool
  connFrees : Nat → Nat
  inflight : List Nat
  closer : Closer
  stack : List Frame
  log : List Mark
  uaf : Bool

def init : St :=
  ⟨[], 0, false, 0, .opened, .opened, .opened, false, fun _ => .none, fun _ => false, fun _ => 0, [], .idle, [], [], false⟩

/-! ## Steps -/

def callUser (s : St) (cb : Cb) (r : List Frame) : St :=
  { s with stack := .user cb :: r, log := s.log ++ [.start cb] }

/-- A step that reads the server, or connection `n`, first. -/
def reads (s : St) (server : Bool) (n : Option Nat) (t : St) : St :=
  if (server && s.frees != 0) || n.any (s.connFrees · != 0) then { s with uaf := true } else t

def connClose (s : St) (n : Nat) : St :=
  { s with reading := Function.update s.reading n false, client := Function.update s.client n (s.client n).closeOnce }

/-- The end of `close_handle`: free the server, or close its sessions. -/
def closeSessions (s : St) : St :=
  if s.sessions = [] then { s with frees := s.frees + 1 } else s.sessions.foldl connClose s

def closeHandle (s : St) : St :=
  closeSessions { s with listen := s.listen.closeOnce, asyncSend := s.asyncSend.close, asyncClose := s.asyncClose.close }

def tcpServerClose (s : St) : St := closeHandle { s with isClosing := true, closer := .done }

/-- How accepting a client goes: the allocations and uv_accept, and on_new_connection's status before them. -/
inductive Accept where
  | error
  | noMemory
  /-- A client handle, and whether it became a connection. -/
  | client (n : Nat) (accepted : Bool)
  deriving DecidableEq, Repr

def onNewConnection (s : St) : Accept → Option St
  | .error => some (reads s true none (callUser s (.onError none) []))
  | .noMemory => some (reads s true none (callUser s (.onError none) []))
  | .client n accepted =>
    if (s.client n).st = .absent then
      let s1 := { s with client := Function.update s.client n Handle.opened }
      some (reads s true none
        (if accepted then
          callUser { s1 with sessions := s1.sessions ++ [n], connCount := s1.connCount + 1 } (.onOpen n) [.readStart n]
        else callUser s1 (.onError none) [.refuse n]))
    else none

def onConnRead (s : St) (n : Nat) (nread : Int) : St :=
  reads s true (some n)
    (if 0 < nread then callUser s (.onRead n) []
    else if nread = 0 then s
    else callUser s (.onError (some n)) [.readError n])

/-- The close callback of client `n`: `on_close_connection` up to on_conn_close for a
    connection's, `close_cb` for the others. -/
def onClosed (s : St) (n : Nat) : St :=
  if n ∈ s.sessions then
    reads s true (some n)
      (callUser { s with client := Function.update s.client n (s.client n).finish } (.onClose n) [.remove n])
  else { s with client := Function.update s.client n (s.client n).finish.free }

def remove (s : St) (n : Nat) : St :=
  let s1 := { s with sessions := s.sessions.erase n, connCount := s.connCount - 1,
                     client := Function.update s.client n (s.client n).free,
                     connFrees := Function.update s.connFrees n (s.connFrees n + 1) }
  if s1.isClosing = true ∧ s1.sessions = [] then { s1 with frees := s1.frees + 1 } else s1

/-- The wrapper's code on the loop thread goes on after a user callback returned. -/
def goOn (s : St) : Option St :=
  match s.stack with
  | .readStart n :: r => some { s with stack := r, reading := Function.update s.reading n ((s.client n).st == .opened) }
  | .refuse n :: r => some { s with stack := r, client := Function.update s.client n (s.client n).closeOnce }
  | .readError n :: r => some (reads s false (some n) { connClose s n with stack := r })
  | .remove n :: r => some (reads s true (some n) { remove s n with stack := r })
  | .sendFailed n :: r => some (reads s false (some n) { s with stack := r })
  | _ => none

def sendData (s : St) (n : Nat) (malloc : Bool) : St :=
  reads s true (some n)
    (if malloc then { s with inflight := if (s.client n).st = .opened then s.inflight ++ [n] else s.inflight }
    else callUser s (.onError (some n)) (.sendFailed n :: s.stack))

def closerStep (s : St) : Option St :=
  match s.closer with
  | .idle => some (reads s true none { s with isClosing := true, closer := .compare })
  | .compare => some (reads s true none { s with closer := .notify })
  | .notify => some (reads s true none { s with closePending := true, closer := .done })
  | .done => none

inductive Own where
  | listen
  | asyncSend
  | asyncClose
  deriving DecidableEq, Repr

/-- The close callback of one of the server's own handles: `close_cb`. -/
def onOwnClosed (s : St) : Own → Option St
  | .listen => if s.listen.st = .closing then some { s with listen := s.listen.finish.free } else none
  | .asyncSend => if s.asyncSend.st = .closing then some { s with asyncSend := s.asyncSend.finish.free } else none
  | .asyncClose => if s.asyncClose.st = .closing then some { s with asyncClose := s.asyncClose.finish.free } else none

inductive Ev where
  | newConnection (a : Accept)
  | read (n : Nat) (nread : Int)
  | written (i : Nat)
  | closed (n : Nat)
  | ownClosed (h : Own)
  | asyncClose
  | goOn
  /-- User code on the loop's thread returns, sends, closes the server. -/
  | ret
  | send (n : Nat) (malloc : Bool)
  | close
  /-- The other thread. -/
  | closer
  deriving DecidableEq, Repr

/-- User code runs on the loop's thread: a user callback, or between libuv's callbacks. -/
def userRuns : List Frame → Bool
  | [] | .user _ :: _ => true
  | _ => false

def step (s : St) (e : Ev) : Option St :=
  if s.uaf then none
  else match e with
  | .newConnection a => if s.stack = [] ∧ s.listen.st = .opened then onNewConnection s a else none
  | .read n nread =>
    if s.stack = [] ∧ s.reading n = true ∧ (s.client n).st = .opened then some (onConnRead s n nread) else none
  | .written i =>
    if s.stack = [] then s.inflight[i]?.map fun n => reads s false (some n) { s with inflight := s.inflight.eraseIdx i }
    else none
  | .closed n =>
    if s.stack = [] ∧ (s.client n).st = .closing ∧ n ∉ s.inflight then some (onClosed s n) else none
  | .ownClosed h => if s.stack = [] then onOwnClosed s h else none
  | .asyncClose =>
    if s.stack = [] ∧ s.closePending = true ∧ s.asyncClose.st = .opened then
      some (reads s true none (closeHandle { s with closePending := false }))
    else none
  | .goOn => goOn s
  | .ret =>
    match s.stack with
    | .user cb :: r => some { s with stack := r, log := s.log ++ [.ret cb] }
    | _ => none
  | .send n malloc => if userRuns s.stack = true ∧ n ∈ s.sessions then some (sendData s n malloc) else none
  | .close =>
    if userRuns s.stack = true ∧ s.closer = .idle then some (reads s true none (tcpServerClose s)) else none
  | .closer => closerStep s

end UvWrapper.Net.ServerLife
