/-
  UvWrapper.Net.ClientSend — tcp_client_send_data from threads that are not the loop's,
  against the life of the client's session.

  The session has its socket from uv_tcp_connect on, unless none can be made, also after
  connect fails; on_read passes it to uv_close when a read fails. async_send stays
  open then, and senders still arrive. `uv_write` fails at once on a session without a
  socket or one passed to uv_close, and its callback never runs; writes queued when the
  session is closed complete before its close callback. tcp_client_close comes after the
  last send has returned, when nobody waits, and is left out.

  Proved: nobody waits for a post that is not on its way, in every state of a run, if and
  only if every write is submitted while the session takes writes (`no_stranded_iff`). A send after a
  disconnect waits for good (`send_after_disconnect`).
-/

import UvWrapper.Net.SendPathPost

namespace UvWrapper.Net.ClientSend

open UvWrapper.Lib.Trace UvWrapper.Net.SendPath

/-! ## The client -/

inductive Session where
  | noSocket
  | connecting
  | refused
  | reading
  | closing
  | closed
  deriving DecidableEq, Repr

def Session.isClosing : Session → Bool
  | .closing | .closed => true
  | _ => false

/-- `uv_write` does not fail at once. -/
def Session.writable (s : Session) : Bool := s != .noSocket && !s.isClosing

structure St where
  send : SendPath.St Unit
  session : Session
  /-- on_read has called on_conn_close and has still to close the session. -/
  onRead : Bool

/-- `socket`: uv_tcp_connect could make one. When connect(2) fails then, with ENETUNREACH for one, the session
    keeps it, and on_connect does not come (the result is not looked at). -/
def init (socket : Bool) : St := ⟨SendPath.init (), if socket then .connecting else .noSocket, false⟩

def tcpClient (threadId : Nat) (calls : Nat → Call Unit) : Cfg Unit := ⟨threadId, calls, true⟩

variable (cfg : Cfg Unit)

inductive Ev where
  | send (e : SendPath.Ev)
  | onConnect (status : Int)
  | onRead (nread : Int)
  /-- The rest of on_read after on_conn_close. -/
  | closeSession
  /-- libuv has closed the session. -/
  | closed
  deriving DecidableEq, Repr

/-- A submission to a session that takes no writes is refused. -/
def refuse (s : St) : SendPath.Ev → SendPath.Ev
  | .loop malloc accepted => .loop malloc (accepted && s.session.writable)
  | e => e

/-- The loop thread is inside on_read, so it starts no other callback. -/
def busy (s : St) : SendPath.Ev → Bool
  | .callback | .asyncSend | .written _ => s.onRead
  | _ => false

/-- on_connect calls on_conn_open or on_conn_error, and on_conn_open is followed by uv_read_start. -/
def onConnect (s : St) (status : Int) : Option St :=
  if s.session = .connecting ∧ s.onRead = false then
    (SendPath.step cfg s.send .callback).map fun t =>
      { s with send := t, session := if status = 0 then .reading else .refused }
  else none

def onRead (s : St) (nread : Int) : Option St :=
  if s.session = .reading ∧ s.onRead = false ∧ s.send.stack = [] then
    if nread = 0 then some s
    else (SendPath.step cfg s.send .callback).map fun t => { s with send := t, onRead := decide (nread < 0) }
  else none

def step (s : St) : Ev → Option St
  | .send e =>
    if busy s e then none else (SendPath.step cfg s.send (refuse s e)).map fun t => { s with send := t }
  | .onConnect status => onConnect cfg s status
  | .onRead nread => onRead cfg s nread
  | .closeSession =>
    if s.onRead = true ∧ s.send.stack = [] then
      some { s with onRead := false, session := if s.session.isClosing then s.session else .closing }
    else none
  | .closed =>
    if s.session = .closing ∧ s.onRead = false ∧ s.send.stack = [] ∧ s.send.inflight = [] then
      some { s with session := .closed }
    else none

/-- The step is no submission to a session that takes no writes. -/
def writes (s : St) : Ev → Bool
  | .send e => acceptedStep s.send (refuse s e)
  | _ => true

/-! ## The send path inside -/

variable {cfg} {s s' : St}

/-- A step of the client is a step of its send path, or leaves it as it is. -/
theorem step_cases {e : Ev} (h : step cfg s e = some s') :
    s'.send = s.send ∨ ∃ e', SendPath.step cfg s.send e' = some s'.send ∧ (writes s e = acceptedStep s.send e') := by
  have hmap : ∀ {e' : SendPath.Ev} {f : SendPath.St Unit → St}, (∀ t, (f t).send = t) →
      (SendPath.step cfg s.send e').map f = some s' → SendPath.step cfg s.send e' = some s'.send := by
    intro e' f hf h
    cases ht : SendPath.step cfg s.send e' with
    | none => rw [ht] at h; cases h
    | some t => rw [ht] at h; cases h; rw [hf]
  cases e with
  | send e =>
    simp only [step] at h
    split at h
    · cases h
    · exact .inr ⟨_, hmap (fun _ => rfl) h, rfl⟩
  | onConnect status =>
    simp only [step, onConnect] at h
    split at h
    · exact .inr ⟨.callback, hmap (fun _ => rfl) h, rfl⟩
    · cases h
  | onRead nread =>
    simp only [step, onRead] at h
    split at h
    · split at h
      · cases h; exact .inl rfl
      · exact .inr ⟨.callback, hmap (fun _ => rfl) h, rfl⟩
    · cases h
  | closeSession =>
    simp only [step] at h
    split at h <;> cases h
    exact .inl rfl
  | closed =>
    simp only [step] at h
    split at h <;> cases h
    exact .inl rfl

theorem step_inv (hoff : ∀ k, cfg.onLoop k = false) (hs : Inv cfg s.send ∧ Flagged cfg s.send) {e : Ev}
    (hw : writes s e = true) (h : step cfg s e = some s') : Inv cfg s'.send ∧ Flagged cfg s'.send := by
  obtain ⟨hi, hf⟩ := hs
  rcases step_cases h with h | ⟨e', h, he⟩
  · rw [h]; exact ⟨hi, hf⟩
  · exact ⟨SendPath.step_inv hi (apart_of_off hoff hi e') h,
      step_flagged hi hf (flagKept_of_off hoff hi e') (he ▸ hw) h⟩

theorem reach_inv (hoff : ∀ k, cfg.onLoop k = false) {socket : Bool}
    (hr : Reach (step cfg) (fun s e => writes s e = true) (init socket) s) : Inv cfg s.send ∧ Flagged cfg s.send :=
  hr.invariant (P := fun s => Inv cfg s.send ∧ Flagged cfg s.send) ⟨init_inv cfg (), init_flagged ()⟩
    fun _ _ _ hs hw h => step_inv hoff hs hw h

/-- A write the session does not take strands its caller at once. -/
theorem not_writes_strands (hoff : ∀ k, cfg.onLoop k = false) (hi : Inv cfg s.send) {e : Ev} (hw : writes s e = false)
    (h : step cfg s e = some s') : ¬ NoStranded s'.send := by
  cases e with
  | send e =>
    cases e with
    | loop malloc accepted =>
      simp only [step, busy, refuse, Bool.false_eq_true, if_false, SendPath.step] at h
      simp only [writes, refuse] at hw
      generalize (accepted && s.session.writable) = taken at h hw
      cases malloc with
      | false => simp [acceptedStep] at hw
      | true =>
        simp only [acceptedStep] at hw
        split at hw
        · rename_i k c r hst
          subst hw
          simp only [loopStep, hst, if_true, Option.map_some, Option.some.injEq] at h
          rw [← h]
          exact refused_strands hi hst (hoff k)
        · cases hw
    | _ => simp [writes, refuse, acceptedStep] at hw
  | _ => cases hw

/-! ## Waiting senders -/

theorem no_stranded_iff (threadId : Nat) (calls : Nat → Call Unit) (hself : ∀ k, (calls k).self ≠ threadId)
    (socket : Bool) (es : List Ev) :
    Always (step (tcpClient threadId calls)) (fun s => NoStranded s.send) (init socket) es ↔
      Steps (step (tcpClient threadId calls)) (fun s e => writes s e = true) (init socket) es := by
  have hoff : ∀ k, (tcpClient threadId calls).onLoop k = false := fun k => by
    simpa [Cfg.onLoop, tcpClient] using (hself k).symm
  refine always_iff (fun s hr => ?_) (fun s e s' hr h hw => ?_) es
  · obtain ⟨hi, hf⟩ := reach_inv hoff hr
    exact noStranded hi hf
  · exact not_writes_strands hoff (reach_inv hoff hr).1 (by simpa using hw) h

def oneCall (_ : Nat) : Call Unit := ⟨2, 1, 100, 5, ()⟩

/-- Connected, sent to, and then disconnected: the write is cancelled and posts. -/
theorem send_before_disconnect :
    Always (step (tcpClient 1 oneCall)) (fun s => NoStranded s.send) (init true)
      [.onConnect 0, .send .ret, .send (.call 0), .send (.caller 0), .send (.caller 0), .send (.caller 0),
        .send (.caller 0), .send (.caller 0), .send .asyncSend, .send (.loop true true), .onRead (-4095), .send .ret,
        .closeSession, .send (.written 0), .send .ret, .send (.loop true true), .closed, .send (.caller 0),
        .send (.caller 0)] := by
  refine (no_stranded_iff 1 oneCall (fun k => by simp [oneCall]) true _).mpr ?_
  exact steps_of_runIf writes (t := _) rfl

/-- The same call after the disconnect waits, and nothing will ever post. -/
theorem send_after_disconnect :
    ∃ s, Reach (step (tcpClient 1 oneCall)) Free (init true) s ∧ ¬ NoStranded s.send := by
  obtain ⟨s, hr, hw, hs, hp, hst, hq⟩ := reach_of_run (step (tcpClient 1 oneCall)) (init true)
    (fun s => s.send.h.pc 0 = .wait ∧ s.send.h.sem = 0 ∧ s.send.h.pending = false ∧ s.send.stack = [] ∧
      s.send.inflight = [])
    ([.onConnect 0, .send .ret, .onRead (-4095), .send .ret, .closeSession, .closed, .send (.call 0),
      .send (.caller 0), .send (.caller 0), .send (.caller 0), .send (.caller 0), .send (.caller 0), .send .asyncSend,
      .send (.loop true true)]) ⟨_, rfl, by decide⟩
  exact ⟨s, hr, stranded_of_quiet hw hs hp hst hq⟩

end UvWrapper.Net.ClientSend
