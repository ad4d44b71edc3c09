/-
  UvWrapper.Net.ClientLife — the life of a tcp_client_t (tcp_client.c), from a
  tcp_client_run that got past its allocations through one tcp_client_close.

  Loop thread: a stack of frames, as in `UvWrapper.Net.ServerLife`. User code may send
  and close the client; another thread may close it through async_close.

  libuv: uv_close only schedules; uv_is_closing holds from then on, and the session is
  in use until its close phase, which first completes the queued writes and cancels a
  pending connect. A closing stream takes no writes and gets no reads.

  `uaf`: a step read the client or its session after it was freed. Nothing is said of what
  follows it.
-/

import UvWrapper.Lib.Handle
import UvWrapper.Lib.Trace

namespace UvWrapper.Net.ClientLife

open UvWrapper.Lib

/-! ## State -/

inductive Cb where
  | onOpen
  | onClose
  | onRead
  | onError
  | onWrite
  deriving DecidableEq, Repr

inductive Frame where
  | user (cb : Cb)
  /-- on_connect after on_conn_open: uv_read_start. -/
  | connected
  /-- on_read after on_conn_close: the session's close. -/
  | readError
  /-- on_client_write after on_write: the look at the flag. -/
  | written
  /-- close_handle after on_conn_close. -/
  | closing
  /-- send_data after on_conn_error: the look at the flag. -/
  | sendFailed
  deriving DecidableEq, Repr

inductive Closer where
  | idle
  | notify
  | done
  deriving DecidableEq, Repr

inductive Mark where
  | start (cb : Cb)
  | ret (cb : Cb)
  deriving DecidableEq, Repr

structure St where
  /-- free(tcp_client), free(connect_req). -/
  frees : Nat
  reqFrees : Nat
  session : Handle
  /-- The session's close callback: on_close_connection, or NULL. -/
  sessionCb : Bool
  asyncSend : Handle
  asyncClose : Handle
  closePending : Bool
  connecting : Bool
  reading : Bool
  /-- Write requests libuv still holds. -/
  writes : Nat
  closer : Closer
  stack : List Frame
  log : List Mark
  uaf : Bool
  deriving DecidableEq, Repr

/-- `connecting`: uv_tcp_connect has left a request pending. It leaves none when it can make no socket, or
    connect(2) fails with ENETUNREACH, for one (its result is not looked at). -/
def init (connecting : Bool) : St :=
  ⟨0, 0, .opened, false, .opened, .opened, false, connecting, false, 0, .idle, [], [], false⟩

/-! ## Steps -/

def callUser (s : St) (cb : Cb) (r : List Frame) : St :=
  { s with stack := .user cb :: r, log := s.log ++ [.start cb] }

/-- A step that reads the client or its session first. -/
def reads (s t : St) : St := if s.frees ≠ 0 ∨ s.session.frees ≠ 0 then { s with uaf := true } else t

def freeResource (s : St) : St :=
  { s with reqFrees := s.reqFrees + 1, session := s.session.free, frees := s.frees + 1 }

def onConnect (s : St) (status : Int) : St :=
  let s1 := { s with connecting := false }
  reads s (if status = 0 then callUser s1 .onOpen [.connected] else callUser s1 .onError [])

def onRead (s : St) (nread : Int) : St :=
  reads s
    (if 0 < nread then callUser s .onRead []
    else if nread = 0 then s
    else callUser s .onClose [.readError])

def closeHandle (s : St) : St := reads s (callUser s .onClose (.closing :: s.stack))

def closing (s : St) (r : List Frame) : St :=
  let s1 := { s with stack := r, asyncSend := s.asyncSend.close, asyncClose := s.asyncClose.close, reading := false }
  if s.session.isClosing then freeResource s1 else { s1 with session := s.session.close, sessionCb := true }

/-- The wrapper's code on the loop thread goes on after a user callback returned. -/
def goOn (s : St) : Option St :=
  match s.stack with
  | .connected :: r => some (reads s { s with stack := r, reading := s.session.st == .opened })
  | .readError :: r => some (reads s { s with stack := r, session := s.session.closeOnce })
  | .written :: r => some (reads s { s with stack := r })
  | .closing :: r => some (reads s (closing s r))
  | .sendFailed :: r => some (reads s { s with stack := r })
  | _ => none

def onClosed (s : St) : St :=
  let s1 := { s with session := s.session.finish }
  if s.sessionCb then reads s (freeResource s1) else s1

def sendData (s : St) (malloc : Bool) : St :=
  reads s
    (if malloc then { s with writes := if s.session.st = .opened then s.writes + 1 else s.writes }
    else callUser s .onError (.sendFailed :: s.stack))

def closerStep (s : St) : Option St :=
  match s.closer with
  | .idle => some (reads s { s with closer := .notify })
  | .notify => some (reads s { s with closePending := true, closer := .done })
  | .done => none

inductive Ev where
  | connect (status : Int)
  | read (nread : Int)
  | written
  | closed
  | asyncSendClosed
  | asyncCloseClosed
  | asyncClose
  | goOn
  /-- User code on the loop's thread returns, sends, closes the client. -/
  | ret
  | send (malloc : Bool)
  | close
  /-- The other thread. -/
  | closer
  deriving DecidableEq, Repr

/-- User code runs on the loop's thread: a user callback, or between libuv's callbacks. -/
def userRuns : List Frame → Bool
  | [] | .user _ :: _ => true
  | _ => false

def step (s : St) (e : Ev) : Option St :=
  if s.uaf then none
  else match e with
  | .connect status =>
    if s.stack = [] ∧ s.connecting = true ∧ s.session.st ≠ .closed ∧ (s.session.st = .closing → status ≠ 0) then
      some (onConnect s status)
    else none
  | .read nread => if s.stack = [] ∧ s.reading = true ∧ s.session.st = .opened then some (onRead s nread) else none
  | .written =>
    if s.stack = [] ∧ 0 < s.writes ∧ s.session.st ≠ .closed then
      some (reads s (callUser { s with writes := s.writes - 1 } .onWrite [.written]))
    else none
  | .closed =>
    if s.stack = [] ∧ s.session.st = .closing ∧ s.writes = 0 ∧ s.connecting = false then some (onClosed s) else none
  | .asyncSendClosed =>
    if s.stack = [] ∧ s.asyncSend.st = .closing then some { s with asyncSend := s.asyncSend.finish.free } else none
  | .asyncCloseClosed =>
    if s.stack = [] ∧ s.asyncClose.st = .closing then some { s with asyncClose := s.asyncClose.finish.free } else none
  | .asyncClose =>
    if s.stack = [] ∧ s.closePending = true ∧ s.asyncClose.st = .opened then
      some (closeHandle { s with closePending := false })
    else none
  | .goOn => goOn s
  | .ret =>
    match s.stack with
    | .user cb :: r => some { s with stack := r, log := s.log ++ [.ret cb] }
    | _ => none
  | .send malloc => if userRuns s.stack = true ∧ s.frees = 0 then some (sendData s malloc) else none
  | .close => if userRuns s.stack = true ∧ s.closer = .idle then some (closeHandle { s with closer := .done }) else none
  | .closer => closerStep s

end UvWrapper.Net.ClientLife
