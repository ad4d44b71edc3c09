/-
  UvWrapper.Net.ServerDisconnect — tcp_server_send_data from threads that are not the
  loop's, against disconnects; the server itself is not closed.

  A connection is in sessions from on_new_connection until on_close_connection, which
  frees it. A call begins while its connection is in sessions, and the loop reads the
  connection through async_send->data later, in send_data. `uv_write` fails at once on
  a stream passed to uv_close and never calls back; writes queued then complete before
  the close callback.

  Proved: send_data reads no freed connection and nobody waits for a post that is not on
  its way, in every state of a run, if and only if send_data always finds its connection open,
  or closing with its malloc failing (`served_iff`). A disconnect between the notification
  and async_send_cb breaks it (`waits_for_good`).
-/

import UvWrapper.Net.SendPathPost

namespace UvWrapper.Net.ServerDisconnect

open UvWrapper.Lib.Trace UvWrapper.Net.SendPath

/-! ## The server -/

inductive Conn where
  | absent
  | opened
  | closing
  | freed
  deriving DecidableEq, Repr

def Conn.inSessions : Conn → Bool
  | .opened | .closing => true
  | _ => false

/-- What the loop thread has still to do after the user callback it is in. -/
inductive Job where
  /-- on_conn_read after on_conn_error: tcp_server_conn_close. -/
  | connClose (c : Nat)
  /-- on_close_connection after on_conn_close: QUEUE_REMOVE, and the frees. -/
  | remove (c : Nat)
  deriving DecidableEq, Repr

structure St where
  send : SendPath.St Unit
  conn : Nat → Conn
  job : Option Job
  /-- send_data has read a freed connection; nothing is said of what follows. -/
  uaf : Bool

def init : St := ⟨SendPath.init (), fun _ => .absent, none, false⟩

def tcpServer (threadId : Nat) (calls : Nat → Call Unit) : Cfg Unit := ⟨threadId, calls, false⟩

variable (cfg : Cfg Unit)

inductive Ev where
  | send (e : SendPath.Ev)
  | accept (c : Nat)
  | readError (c : Nat)
  /-- libuv has closed the session. -/
  | closed (c : Nat)
  /-- The rest of the job. -/
  | finish
  deriving DecidableEq, Repr

/-- A submission to a connection passed to uv_close is refused. -/
def refuse (s : St) : SendPath.Ev → SendPath.Ev
  | .loop malloc accepted =>
    match s.send.stack with
    | .sendData _ c :: _ => .loop malloc (accepted && s.conn c == .opened)
    | _ => .loop malloc accepted
  | e => e

/-- The connection that the loop's next step reads in send_data is freed. -/
def readsFreed (s : St) : SendPath.Ev → Bool
  | .loop _ _ =>
    match s.send.stack with
    | .sendData _ c :: _ => s.conn c == .freed
    | _ => false
  | _ => false

/-- What may not happen now: a callback while the loop thread is in a job, a call on a
    connection that is not in sessions. -/
def blocked (s : St) : SendPath.Ev → Bool
  | .callback | .asyncSend | .written _ => s.job.isSome
  | .call k => cfg.conn k != 0 && !(s.conn (cfg.conn k)).inSessions
  | _ => false

def sendStep (s : St) (e : SendPath.Ev) : Option St :=
  if blocked cfg s e then none
  else if readsFreed s e then some { s with uaf := true }
  else (SendPath.step cfg s.send (refuse s e)).map fun t => { s with send := t }

/-- The loop thread starts a callback for connection `c`, which is in state `p`. -/
def startJob (s : St) (c : Nat) (p : Conn) (j : Option Job) (q : Conn) : Option St :=
  if s.job = none ∧ s.conn c = p ∧ c ≠ 0 then
    (SendPath.step cfg s.send .callback).map fun t =>
      { s with send := t, job := j, conn := Function.update s.conn c q }
  else none

def step (s : St) (e : Ev) : Option St :=
  if s.uaf then none
  else match e with
  | .send e => sendStep cfg s e
  | .accept c => startJob cfg s c .absent none .opened
  | .readError c => startJob cfg s c .opened (some (.connClose c)) .opened
  | .closed c =>
    if s.send.inflight.all (fun r => r.conn != c) then startJob cfg s c .closing (some (.remove c)) .closing else none
  | .finish =>
    if s.send.stack = [] then
      match s.job with
      | some (.connClose c) => some { s with job := none, conn := Function.update s.conn c .closing }
      | some (.remove c) => some { s with job := none, conn := Function.update s.conn c .freed }
      | none => none
    else none

/-- send_data finds its connection open, and its write accepted, or closing, and its malloc fails. -/
def finds (s : St) : Ev → Bool
  | .send e => !readsFreed s e && acceptedStep s.send (refuse s e)
  | _ => true

/-! ## The send path inside -/

variable {cfg} {s s' : St}

theorem map_send {e : SendPath.Ev} {f : SendPath.St Unit → St} (hf : ∀ t, (f t).send = t)
    (h : (SendPath.step cfg s.send e).map f = some s') : SendPath.step cfg s.send e = some s'.send := by
  cases ht : SendPath.step cfg s.send e with
  | none => rw [ht] at h; cases h
  | some t => rw [ht] at h; cases h; rw [hf]

theorem startJob_cases {c : Nat} {p q : Conn} {j : Option Job} (h : startJob cfg s c p j q = some s') :
    SendPath.step cfg s.send .callback = some s'.send ∧ s'.uaf = s.uaf := by
  unfold startJob at h
  split at h
  · refine ⟨map_send (fun _ => rfl) h, ?_⟩
    cases ht : SendPath.step cfg s.send .callback with
    | none => rw [ht] at h; cases h
    | some t => rw [ht] at h; cases h; rfl
  · cases h

/-- A step of the server is a step of its send path, or leaves it as it is, or reads a
    freed connection. -/
theorem step_cases {e : Ev} (h : step cfg s e = some s') :
    (s'.uaf = s.uaf ∧ s'.send = s.send) ∨
      (s'.uaf = s.uaf ∧ ∃ e', SendPath.step cfg s.send e' = some s'.send ∧
        (finds s e = true → acceptedStep s.send e' = true)) ∨
      (finds s e = false ∧ s'.uaf = true) := by
  have hjob : ∀ {c : Nat} {p q : Conn} {j : Option Job}, startJob cfg s c p j q = some s' →
      s'.uaf = s.uaf ∧ ∃ e', SendPath.step cfg s.send e' = some s'.send ∧
        (finds s e = true → acceptedStep s.send e' = true) := fun h =>
    ⟨(startJob_cases h).2, .callback, (startJob_cases h).1, fun _ => rfl⟩
  unfold step at h
  split at h
  · cases h
  · cases e with
    | send e =>
      simp only [sendStep] at h
      split at h
      · cases h
      · split at h
        · rename_i hr
          cases h
          exact .inr (.inr ⟨by simp [finds, hr], rfl⟩)
        · refine .inr (.inl ⟨?_, refuse s e, map_send (fun _ => rfl) h, fun hw => ?_⟩)
          · cases ht : SendPath.step cfg s.send (refuse s e) with
            | none => rw [ht] at h; cases h
            | some t => rw [ht] at h; cases h; rfl
          · exact (Bool.and_eq_true_iff.mp hw).2
    | accept c => exact .inr (.inl (hjob h))
    | readError c => exact .inr (.inl (hjob h))
    | closed c =>
      simp only at h
      split at h
      · exact .inr (.inl (hjob h))
      · cases h
    | finish =>
      simp only at h
      split at h
      · split at h <;> cases h <;> exact .inl ⟨rfl, rfl⟩
      · cases h

structure Inv (cfg : Cfg Unit) (s : St) : Prop where
  send : SendPath.Inv cfg s.send
  flagged : Flagged cfg s.send
  reads : s.uaf = false

theorem step_inv (hoff : ∀ k, cfg.onLoop k = false) (hi : Inv cfg s) {e : Ev} (hw : finds s e = true)
    (h : step cfg s e = some s') : Inv cfg s' := by
  rcases step_cases h with ⟨hu, h⟩ | ⟨hu, e', h, he⟩ | ⟨hn, -⟩
  · exact ⟨h ▸ hi.send, h ▸ hi.flagged, hu.trans hi.reads⟩
  · exact ⟨SendPath.step_inv hi.send (apart_of_off hoff hi.send e') h,
      step_flagged hi.send hi.flagged (flagKept_of_off hoff hi.send e') (he hw) h, hu.trans hi.reads⟩
  · rw [hw] at hn; cases hn

theorem reach_inv (hoff : ∀ k, cfg.onLoop k = false)
    (hr : Reach (step cfg) (fun s e => finds s e = true) init s) : Inv cfg s :=
  hr.invariant ⟨init_inv cfg (), init_flagged (), rfl⟩ fun _ _ _ hi hw h => step_inv hoff hi hw h

/-- No freed connection read, and nobody waiting in vain. -/
def Served (s : St) : Prop := s.uaf = false ∧ NoStranded s.send

theorem not_finds_breaks (hoff : ∀ k, cfg.onLoop k = false) (hi : Inv cfg s) {e : Ev} (hw : finds s e = false)
    (h : step cfg s e = some s') : ¬ Served s' := by
  intro hsv
  obtain ⟨hu, hn⟩ := hsv
  cases e with
  | send e =>
    cases e with
    | loop malloc accepted =>
      have hb : blocked cfg s (.loop malloc accepted) = false := rfl
      simp only [step, hi.reads, Bool.false_eq_true, if_false, sendStep, hb] at h
      split at h
      · cases h; cases hu
      · rename_i hr
        have hr : readsFreed s (.loop malloc accepted) = false := by simpa using hr
        simp only [finds, hr, Bool.not_false, Bool.true_and] at hw
        simp only [refuse] at h hw
        split at hw
        · rename_i k c r hst
          rw [hst] at h
          simp only at h
          generalize (accepted && s.conn c == .opened) = taken at h hw
          cases malloc with
          | false => simp [acceptedStep] at hw
          | true =>
            have ht : taken = false := by simpa [acceptedStep, hst] using hw
            subst ht
            simp only [SendPath.step, loopStep, hst, if_true, Option.map_some, Option.some.injEq] at h
            rw [← h] at hn
            exact refused_strands hi.send hst (hoff k) hn
        · rename_i hst
          cases malloc <;> simp [acceptedStep] at hw
    | _ => simp [finds, readsFreed, refuse, acceptedStep] at hw
  | _ => cases hw

/-! ## Sends and disconnects -/

theorem served_iff (threadId : Nat) (calls : Nat → Call Unit) (hself : ∀ k, (calls k).self ≠ threadId) (es : List Ev) :
    Always (step (tcpServer threadId calls)) Served init es ↔
      Steps (step (tcpServer threadId calls)) (fun s e => finds s e = true) init es := by
  have hoff : ∀ k, (tcpServer threadId calls).onLoop k = false := fun k => by
    simpa [Cfg.onLoop, tcpServer] using (hself k).symm
  refine always_iff (fun s hr => ?_) (fun s e s' hr h hw => ?_) es
  · have hi := reach_inv hoff hr
    exact ⟨hi.reads, noStranded hi.send hi.flagged⟩
  · exact not_finds_breaks hoff (reach_inv hoff hr) (by simpa using hw) h

def oneCall (_ : Nat) : Call Unit := ⟨2, 1, 100, 5, ()⟩

def callRun : List Ev :=
  [.accept 1, .send .ret, .send (.call 0), .send (.caller 0), .send (.caller 0), .send (.caller 0), .send (.caller 0),
    .send (.caller 0)]

/-- The connection is closed while the write is queued: it is cancelled and posts. -/
theorem cancelled_write_posts :
    Always (step (tcpServer 1 oneCall)) Served init
      (callRun ++ [.send .asyncSend, .send (.loop true true), .readError 1, .send .ret, .finish, .send (.written 0),
        .closed 1, .send .ret, .finish, .send (.caller 0), .send (.caller 0)]) := by
  refine (served_iff 1 oneCall (fun k => by simp [oneCall]) _).mpr ?_
  exact steps_of_runIf finds (t := _) rfl

/-- Closing when send_data comes: uv_write fails at once, and nothing will post. -/
theorem waits_for_good :
    ∃ s, Reach (step (tcpServer 1 oneCall)) Free init s ∧ ¬ Served s := by
  obtain ⟨s, hr, hw, hs, hp, hst, hq⟩ := reach_of_run (step (tcpServer 1 oneCall)) init
    (fun s => s.send.h.pc 0 = .wait ∧ s.send.h.sem = 0 ∧ s.send.h.pending = false ∧ s.send.stack = [] ∧
      s.send.inflight = [])
    (callRun ++ [.readError 1, .send .ret, .finish, .send .asyncSend, .send (.loop true true)]) ⟨_, rfl, by decide⟩
  exact ⟨s, hr, fun h => stranded_of_quiet hw hs hp hst hq h.2⟩

/-- Freed when send_data comes. -/
example : ∃ s, run (step (tcpServer 1 oneCall)) init (callRun ++ [.readError 1, .send .ret, .finish, .closed 1,
    .send .ret, .finish, .send .asyncSend, .send (.loop true true)]) = some s ∧ s.uaf = true := ⟨_, rfl, by decide⟩

end UvWrapper.Net.ServerDisconnect
