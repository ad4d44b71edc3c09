/-
  UvWrapper.Utils.MsgQueue — one message queue (msg_queue.c): any number of msg_send calls on any
  threads, and msg_thread. Only a pointer and a length travel through the kernel; the bytes are in
  the copy that msg_send makes, and whoever has the pointer owns it.

  The steps are library calls and on_msg, one by one. The kernel's queue is FIFO for msgtyp 0;
  other programs put messages on it whose payload is not a msg_t's. A msgrcv whose flags are 0
  leaves a message that is too large where it is (E2BIG). The msgrcv after E2BIG has MSG_NOERROR
  for its msgtyp, and flags 0: it asks for the first message whose type is 4096, waits if there
  is none, and throws away what it gets. A msgrcv that is interrupted takes nothing. A call that
  waits in msgsnd for room does not move.

  The queue is not destroyed: is_running stays set. Each message carries the number of the call
  it is from, which only the history looks at.
-/

import UvWrapper.Component.Relay

namespace UvWrapper.Utils.MsgQueue

open UvWrapper.Component.Relay (Msg message)

/-! ## Calls and messages -/

/-- The arguments of a msg_send; `data` with its `len` bytes, `none` is NULL. -/
structure Call where
  msgId : Int
  data : Option (List UInt8)
  msgType : Int

def Call.bytes (c : Call) : List UInt8 := c.data.getD []

def Call.len (c : Call) : Nat := c.bytes.length

/-- `sizeof(msg_t) - sizeof(long)`. -/
def payload : Nat := 16

/-- A msg_t, and the call that sent it. -/
structure Sent where
  call : Nat
  msg : Msg
  deriving DecidableEq, Repr

structure Foreign where
  type : Int
  size : Nat
  typed : 0 < type
  other : size ≠ payload
  deriving DecidableEq

inductive Entry where
  | own (m : Sent)
  | foreign (m : Foreign)
  deriving DecidableEq

def Entry.sent? : Entry → Option Sent
  | .own m => some m
  | .foreign _ => none

def Entry.type : Entry → Int
  | .own m => m.msg.type
  | .foreign m => m.type

/-- `MSG_NOERROR`, a flag. -/
def msgNoError : Int := 4096

/-! ## State -/

inductive SendPc where
  | idle
  | malloc
  | memcpy (buf : Nat)
  | msgsnd (buf : Nat)
  /-- After a failed msgsnd: free. -/
  | unsent (buf : Nat)
  | ret (status : Int)
  deriving DecidableEq, Repr

/-- The copy a msg_send has in its hands. -/
def SendPc.buf? : SendPc → Option Nat
  | .memcpy p | .msgsnd p | .unsent p => some p
  | _ => none

inductive ThreadPc where
  | msgrcv
  /-- After E2BIG: the second msgrcv. -/
  | msgrcvNoError
  /-- A msg_t is in `msg`: the look at msg_buf. -/
  | received (m : Sent)
  | onMsg (m : Sent)
  | free (m : Sent)
  deriving DecidableEq, Repr

/-- The msg_t that msg_thread has in its hands. -/
def ThreadPc.sent? : ThreadPc → Option Sent
  | .received m | .onMsg m | .free m => some m
  | _ => none

structure St where
  heap : Nat → Option (List UInt8)
  queue : List Entry
  send : Nat → SendPc
  thread : ThreadPc
  -- What the code does not keep: the calls that made a copy, whose copy was freed, whose
  -- msgsnd succeeded and failed, and whose message msg_thread has handled; and the messages
  -- that its second msgrcv has taken.
  copied : List Nat
  freed : List Nat
  accepted : List Nat
  refused : List Nat
  handled : List Nat
  dropped : List Sent
  /-- What on_msg was given: the bytes at `data`, and `len`. -/
  delivered : List (Option (List UInt8) × Nat)
  /-- A block was freed that was not allocated. -/
  badFree : Bool

def init : St := ⟨fun _ => none, [], fun _ => .idle, .msgrcv, [], [], [], [], [], [], [], false⟩

/-! ## Steps -/

def goto (s : St) (k : Nat) (p : SendPc) : Nat → SendPc := Function.update s.send k p

def free (s : St) (p k : Nat) : St :=
  if (s.heap p).isSome then { s with heap := Function.update s.heap p none, freed := s.freed ++ [k] }
  else { s with badFree := true }

variable (calls : Nat → Call) (onMsg : Bool)

def enter (s : St) (k : Nat) : Option St :=
  if s.send k = .idle then
    if (calls k).msgId < 0 ∨ (calls k).data = none then some { s with send := goto s k (.ret (-1)) }
    else some { s with send := goto s k .malloc }
  else none

/-- malloc of call `k`: `none` is out of memory, and blocks are not handed out twice. -/
def malloc (s : St) (k : Nat) : Option Nat → Option St
  | none => if s.send k = .malloc then some { s with send := goto s k (.ret (-1)) } else none
  | some p =>
    if s.send k = .malloc ∧ p ≠ 0 ∧ s.heap p = none then
      some { s with heap := Function.update s.heap p (some []), copied := s.copied ++ [k], send := goto s k (.memcpy p) }
    else none

def sendStep (s : St) (k : Nat) (accepted : Bool) : Option St :=
  match s.send k with
  | .memcpy p => some { s with heap := Function.update s.heap p (some (calls k).bytes), send := goto s k (.msgsnd p) }
  | .msgsnd p =>
    if accepted then
      some { s with queue := s.queue ++ [.own ⟨k, message p (calls k).len (calls k).msgType⟩],
                    accepted := s.accepted ++ [k], send := goto s k (.ret 0) }
    else some { s with refused := s.refused ++ [k], send := goto s k (.unsent p) }
  | .unsent p => some { free s p k with send := goto s k (.ret (-1)) }
  | _ => none

/-- `msgrcv(…, 0, 0)`: the first message of the queue. -/
def msgrcv (s : St) : Option St :=
  match s.queue with
  | .own m :: q => some { s with queue := q, thread := .received m }
  | .foreign m :: q => if payload < m.size then some { s with thread := .msgrcvNoError } else some { s with queue := q }
  | [] => none

def ofNoErrorType (e : Entry) : Bool := e.type == msgNoError

/-- `msgrcv(…, MSG_NOERROR, 0)`: the first message of that type. The loop goes on without a look at `msg`. -/
def msgrcvNoError (s : St) : Option St :=
  match s.queue.find? ofNoErrorType with
  | some (.own m) => some { s with queue := s.queue.eraseP ofNoErrorType, dropped := s.dropped ++ [m], thread := .msgrcv }
  | some (.foreign m) =>
    -- E2BIG once more
    if payload < m.size then some { s with thread := .msgrcv }
    else some { s with queue := s.queue.eraseP ofNoErrorType, thread := .msgrcv }
  | none => none

def receive (s : St) : Option St :=
  match s.thread with
  | .msgrcv => msgrcv s
  | .msgrcvNoError => msgrcvNoError s
  | _ => none

/-- `msg_thread` after a msgrcv that returned a msg_t. -/
def threadStep (s : St) : Option St :=
  match s.thread with
  | .received m =>
    if m.msg.msgBuf = 0 then some { s with thread := .msgrcv }
    else if onMsg then
      some { s with thread := .onMsg m, handled := s.handled ++ [m.call],
                    delivered := s.delivered ++ [((s.heap m.msg.msgBuf).map (·.take m.msg.msgSize), m.msg.msgSize)] }
    else some { s with thread := .free m, handled := s.handled ++ [m.call] }
  | .onMsg m => some { s with thread := .free m }
  | .free m => some { free s m.msg.msgBuf m.call with thread := .msgrcv }
  | _ => none

/-- A msgrcv fails for another reason than E2BIG. -/
def interrupt (s : St) : Option St :=
  match s.thread with
  | .msgrcv | .msgrcvNoError => some { s with thread := .msgrcv }
  | _ => none

inductive Ev where
  | call (k : Nat)
  | malloc (k : Nat) (p : Option Nat)
  | send (k : Nat) (accepted : Bool)
  /-- Another program's msgsnd. -/
  | foreign (m : Foreign)
  | receive
  | interrupt
  | thread
  deriving DecidableEq

def step (s : St) : Ev → Option St
  | .call k => enter calls s k
  | .malloc k p => malloc s k p
  | .send k accepted => sendStep calls s k accepted
  | .foreign m => some { s with queue := s.queue ++ [.foreign m] }
  | .receive => receive s
  | .interrupt => interrupt s
  | .thread => threadStep onMsg s

/-- No other program sends a message that is too large for msg_thread's first msgrcv. -/
def fits : Ev → Bool
  | .foreign m => m.size ≤ payload
  | _ => true

/-! ## Who has the copies -/

/-- The messages on their way, with the one msg_thread has in its hands first. -/
def travelling (s : St) : List Sent := s.thread.sent?.toList ++ s.queue.filterMap Entry.sent?

/-- The messages whose copies nobody has freed. -/
def held (s : St) : List Sent := s.dropped ++ travelling s

/-- The messages on their way that on_msg has not been given. -/
def unhandled (s : St) : List Sent :=
  (match s.thread with | .received m => [m] | _ => []) ++ s.queue.filterMap Entry.sent?

def Sent.buf (m : Sent) : Nat := m.msg.msgBuf

/-- What on_msg is to be given for call `k`. -/
def own (k : Nat) : Option (List UInt8) × Nat := (some (calls k).bytes, (calls k).len)

end UvWrapper.Utils.MsgQueue
