/-
  UvWrapper.Net.Broadcast — one tcp_server_send_data_2_all on a thread that is not the loop's
  (tcp_server.c), while the loop accepts, closes and frees connections.

  The broadcaster keeps a pointer to a node of sessions across tcp_server_send_data, which waits in
  uv_sem_wait. Its steps are its reads, stores and library calls one by one; between any two of them
  the loop thread may run any of its callbacks. A node's next one is read from the list as it is
  then. The server is not being closed, data is not NULL, and nobody else sends; writes of earlier
  sends may still be outstanding. What a send writes is in `UvWrapper.Net.SendPath`; `sent` are the connections that
  uv_write took the data for.

  `uaf`: a freed node or connection was read. Nothing is said of what follows it.
-/

import UvWrapper.Lib.Handoff
import UvWrapper.Net.ServerSendAll

namespace UvWrapper.Net.Broadcast

open UvWrapper.Lib
open UvWrapper.Net.ServerSendAll (queueNext)

/-! ## State -/

inductive Stage where
  | flag
  | data2
  | asyncData
  | notify
  deriving DecidableEq, Repr

inductive Pc where
  /-- At the first QUEUE_NEXT. -/
  | start
  /-- `q` is the node of connection `n`, not the list's head: at its tcp_server_send_data. -/
  | node (n : Nat)
  /-- In tcp_server_send_data, at the stage the hand-off says. -/
  | sending (n : Nat)
  /-- At `q = QUEUE_NEXT(q)`. -/
  | advance (n : Nat)
  | done
  deriving DecidableEq, Repr

def Pc.cursor : Pc → Option Nat
  | .node n | .sending n | .advance n => some n
  | .start | .done => none

inductive ConnSt where
  | absent
  | opened
  /-- Passed to uv_close. -/
  | closing
  | freed
  deriving DecidableEq, Repr

structure St where
  sessions : List Nat
  conn : Nat → ConnSt
  asyncSendFlag : Nat → Bool
  /-- async_send->data. -/
  asyncData : Option Nat
  h : Handoff Unit Stage
  pc : Pc
  /-- The connections with a write of this call outstanding. -/
  inflight : List Nat
  /-- The writes of earlier sends that are outstanding. -/
  earlier : Nat → Nat
  sent : List Nat
  uaf : Bool

/-! ## Steps -/

/-- A step that reads connection `n` or its node first. -/
def reads (s : St) (n : Nat) (t : St) : St := if s.conn n = .freed then { s with uaf := true } else t

def node : Option Nat → Pc
  | some n => .node n
  | none => .done

def sendData (s : St) (n : Nat) : Option St :=
  match s.h.pc () with
  | .want => if s.h.mutex = none then some { s with h := s.h.lock () .flag } else none
  | .crit .flag =>
    some (reads s n { s with asyncSendFlag := Function.update s.asyncSendFlag n true, h := s.h.goto () .data2 })
  | .crit .data2 => some (reads s n { s with h := s.h.goto () .asyncData })
  | .crit .asyncData => some { s with asyncData := some n, h := s.h.goto () .notify }
  | .crit .notify => some { s with h := s.h.notify () }
  | .wait => if 0 < s.h.sem then some { s with h := s.h.wake () } else none
  | .woken => some { s with h := s.h.unlock (), pc := .advance n }
  | _ => none

def sendData2All (s : St) : Option St :=
  match s.pc with
  | .start => some { s with pc := node s.sessions.head? }
  | .node n => some (reads s n { s with h := s.h.call (), pc := .sending n })
  | .sending n => sendData s n
  | .advance n => some (reads s n { s with pc := node (queueNext s.sessions n) })
  | .done => none

def checkFlag (s : St) (n : Nat) : St := if s.asyncSendFlag n then { s with h := s.h.post } else s

/-- `async_send_cb` and `send_data`. uv_write refuses a handle that was passed to uv_close. -/
def asyncSendCb (s : St) (malloc : Bool) : Option St :=
  if s.h.pending then
    s.asyncData.map fun n =>
      reads s n
        (if malloc then
          if s.conn n = .opened then { s with h := s.h.take, inflight := s.inflight ++ [n], sent := s.sent ++ [n] }
          else { s with h := s.h.take }
        else checkFlag { s with h := s.h.take } n)
  else none

inductive Ev where
  | caller
  -- the loop's thread
  | asyncSend (malloc : Bool)
  /-- on_conn_write for this call's write, with any status; for an earlier one. -/
  | written (n : Nat)
  | earlierWritten (n : Nat)
  | accept (n : Nat)
  /-- tcp_server_conn_close: uv_close. -/
  | close (n : Nat)
  /-- on_close_connection; the handle's writes have been called back. -/
  | onClose (n : Nat)
  deriving DecidableEq, Repr

def step (s : St) (e : Ev) : Option St :=
  if s.uaf then none
  else match e with
  | .caller => sendData2All s
  | .asyncSend malloc => asyncSendCb s malloc
  | .written n => if n ∈ s.inflight then some (checkFlag { s with inflight := s.inflight.erase n } n) else none
  | .earlierWritten n =>
    if 0 < s.earlier n then some (checkFlag { s with earlier := Function.update s.earlier n (s.earlier n - 1) } n) else none
  | .accept n =>
    if s.conn n = .absent then
      some { s with conn := Function.update s.conn n .opened, sessions := s.sessions ++ [n] }
    else none
  | .close n => if s.conn n = .opened then some { s with conn := Function.update s.conn n .closing } else none
  | .onClose n =>
    if s.conn n = .closing ∧ n ∉ s.inflight ∧ s.earlier n = 0 then
      some { s with conn := Function.update s.conn n .freed, sessions := s.sessions.erase n }
    else none

/-! ## The call -/

/-- The call starts while nobody is in a send. -/
structure Start (s : St) : Prop where
  pc : s.pc = .start
  h : s.h = Handoff.init
  inflight : s.inflight = []
  sent : s.sent = []
  uaf : s.uaf = false
  nodup : s.sessions.Nodup
  sessions : ∀ n, n ∈ s.sessions ↔ s.conn n = .opened ∨ s.conn n = .closing

/-- Nobody frees the connection under the cursor; send_data has memory, and a connection that is open;
    and no earlier write ends on a connection whose flag is set. -/
def undisturbed (s : St) : Ev → Bool
  | .onClose n => s.pc.cursor != some n
  | .asyncSend malloc => malloc && s.asyncData.any fun n => s.conn n == .opened
  | .earlierWritten n => !s.asyncSendFlag n
  | _ => true

end UvWrapper.Net.Broadcast
