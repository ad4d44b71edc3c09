/-
  UvWrapper.Net.SendReport — what becomes of each send on the loop's thread (tcp_server.c,
  tcp_client.c): its report to the user, and its write request.

  The two send_data are the same but for the callback they give to uv_write: on_conn_write frees
  the request, on_client_write calls on_write before that. on_write and on_conn_error are set. User
  code may send in the callbacks made here, and whenever none of this code is on the stack. libuv
  takes a request only on an open session, completes it once, with any status and before the
  session's close callback, and keeps nothing of a request it refuses. A connection is freed after
  its close callback (a client's earlier release is in `UvWrapper.Net.ClientClose`).

  Proved: once all is closed, each send has been reported once and each request freed once if and
  only if (client) uv_write refused none, (server) no send found memory (`settled_iff`): the server
  never calls on_write, and neither module looks at what uv_write returns (`unsettled`).
-/

import UvWrapper.Lib.Handle
import UvWrapper.Lib.Trace
import Mathlib.Data.List.Perm.Basic
import Mathlib.Logic.Function.Basic

namespace UvWrapper.Net.SendReport

open UvWrapper.Lib UvWrapper.Lib.Trace

/-! ## Model -/

inductive Outcome where
  | noMemory
  | refused
  | accepted
  deriving DecidableEq, Repr

inductive Report where
  | onWrite (c : Nat) (status : Int)
  | onConnError (c : Nat)
  deriving DecidableEq, Repr

def Report.conn : Report → Nat
  | .onWrite c _ | .onConnError c => c

/-- A write request, and the send it was allocated for. -/
structure Req where
  conn : Nat
  send : Nat
  deriving DecidableEq, Repr

inductive Frame where
  | user
  /-- on_client_write after on_write. -/
  | written (req : Req)
  /-- send_data after on_conn_error. -/
  | sendFailed (c : Nat)
  deriving DecidableEq, Repr

structure St where
  session : Nat → HandleSt
  asyncSendFlag : Nat → Bool
  /-- uv_sem_post. -/
  posts : Nat
  /-- The connection of each send, in the order of the calls. -/
  sends : List Nat
  /-- Requests that libuv holds. -/
  queue : List Req
  allocated : List Nat
  freed : List Nat
  stack : List Frame
  /-- The callbacks, each with the send it is about. -/
  reports : List (Nat × Report)

def init : St := ⟨fun _ => .absent, fun _ => false, 0, [], [], [], [], [], []⟩

def callUser (s : St) (send : Nat) (report : Report) (f : Frame) : St :=
  { s with stack := .user :: f :: s.stack, reports := s.reports ++ [(send, report)] }

def post (s : St) (c : Nat) : St := if s.asyncSendFlag c then { s with posts := s.posts + 1 } else s

def freeReq (s : St) (req : Req) : St := { s with freed := s.freed ++ [req.send] }

/-- `on_conn_write`; the status is logged only. -/
def onConnWrite (s : St) (req : Req) (_status : Int) : St := post (freeReq s req) req.conn

/-- `on_client_write`, up to on_write. -/
def onClientWrite (s : St) (req : Req) (status : Int) : St :=
  callUser s req.send (.onWrite req.conn status) (.written req)

def sendData (s : St) (c send : Nat) : Outcome → St
  | .noMemory => callUser s send (.onConnError c) (.sendFailed c)
  | .refused => { s with allocated := s.allocated ++ [send] }
  | .accepted => { s with allocated := s.allocated ++ [send], queue := s.queue ++ [⟨c, send⟩] }

def tcpSendData (s : St) (c : Nat) (o : Outcome) : St :=
  sendData { s with asyncSendFlag := Function.update s.asyncSendFlag c false, sends := s.sends ++ [c] } c s.sends.length o

def goOn (s : St) : Option St :=
  match s.stack with
  | .written req :: r => some (post (freeReq { s with stack := r } req) req.conn)
  | .sendFailed c :: r => some (post { s with stack := r } c)
  | _ => none

inductive Side where
  | server
  | client
  deriving DecidableEq, Repr

/-- The callback that send_data gives to uv_write. -/
def Side.onWritten : Side → St → Req → Int → St
  | .server => onConnWrite
  | .client => onClientWrite

inductive Ev where
  | opened (c : Nat)
  | send (c : Nat) (o : Outcome)
  /-- libuv completes a request. -/
  | written (i : Nat) (status : Int)
  /-- uv_close of the session: a disconnect, or the user's close. -/
  | close (c : Nat)
  | closed (c : Nat)
  | release (c : Nat)
  | goOn
  | ret
  deriving DecidableEq, Repr

def userRuns : List Frame → Bool
  | [] | .user :: _ => true
  | _ => false

def setSession (s : St) (c : Nat) (h : HandleSt) : St := { s with session := Function.update s.session c h }

def step (side : Side) (s : St) : Ev → Option St
  | .opened c => if userRuns s.stack = true ∧ s.session c = .absent then some (setSession s c .opened) else none
  | .send c o =>
    if userRuns s.stack = true ∧ s.session c ≠ .absent ∧ (o = .accepted → s.session c = .opened) then
      some (tcpSendData s c o)
    else none
  | .written i status =>
    if s.stack = [] then
      s.queue[i]?.map fun req => side.onWritten { s with queue := s.queue.eraseIdx i } req status
    else none
  | .close c => if userRuns s.stack = true ∧ s.session c = .opened then some (setSession s c .closing) else none
  | .closed c =>
    if s.stack = [] ∧ s.session c = .closing ∧ ∀ req ∈ s.queue, req.conn ≠ c then some (setSession s c .closed) else none
  | .release c => if s.stack = [] ∧ s.session c = .closed then some (setSession s c .absent) else none
  | .goOn => goOn s
  | .ret =>
    match s.stack with
    | .user :: r => some { s with stack := r }
    | _ => none

/-! ## What becomes of each send -/

/-- All is closed, and nothing is left to call back. -/
structure Drained (s : St) : Prop where
  stack : s.stack = []
  session : ∀ c, s.session c = .absent ∨ s.session c = .closed

structure Settled (s : St) : Prop where
  reported : ∀ i, i < s.sends.length → (s.reports.map Prod.fst).count i = 1
  conn : ∀ r ∈ s.reports, s.sends[r.1]? = some r.2.conn
  freed : ∀ i ∈ s.allocated, s.freed.count i = 1

def Ev.call? : Ev → Option (Nat × Outcome)
  | .send c o => some (c, o)
  | _ => none

def calls (es : List Ev) : List (Nat × Outcome) := es.filterMap Ev.call?

/-- The user is told of the send in the end, and its request freed. -/
def answered : Side → Outcome → Bool
  | .server, o => o == .noMemory
  | .client, o => o != .refused

def held (stack : List Frame) : List Nat :=
  stack.filterMap fun f => match f with
    | .written req => some req.send
    | _ => none

def one (l : List (Nat × Outcome)) (p : Outcome → Bool) (i : Nat) : Nat := if l[i]?.any fun call => p call.2 then 1 else 0

/-- Of each accepted request the callback is still to come, under way or done. -/
structure Inv (side : Side) (l : List (Nat × Outcome)) (s : St) : Prop where
  sends : s.sends = l.map Prod.fst
  allocated : ∀ i, s.allocated.count i = one l (· != .noMemory) i
  freed : ∀ i, s.freed.count i + (s.queue.map Req.send).count i + (held s.stack).count i = one l (· == .accepted) i
  reports : ∀ i, (s.reports.map Prod.fst).count i + (if side = .client then (s.queue.map Req.send).count i else 0) =
    one l (answered side) i
  conn : ∀ r ∈ s.reports, s.sends[r.1]? = some r.2.conn
  queue : ∀ req ∈ s.queue, s.sends[req.send]? = some req.conn ∧ s.session req.conn ≠ .absent ∧ s.session req.conn ≠ .closed

variable {side : Side} {l : List (Nat × Outcome)} {s s' : St}

/-! ## One more send -/

theorem one_snoc (l : List (Nat × Outcome)) (c : Nat) (o : Outcome) (p : Outcome → Bool) (i : Nat) :
    one (l ++ [(c, o)]) p i = one l p i + if l.length = i ∧ p o = true then 1 else 0 := by
  unfold one
  rcases Nat.lt_trichotomy i l.length with h | rfl | h
  · have hn : ¬ (l.length = i ∧ p o = true) := by omega
    rw [List.getElem?_append_left h, if_neg hn, Nat.add_zero]
  · simp
  · have hn : ¬ (l.length = i ∧ p o = true) := by omega
    rw [List.getElem?_eq_none (by simp; omega), List.getElem?_eq_none (by omega), if_neg hn, Nat.add_zero]

theorem getElem?_snoc {l : List Nat} {i x : Nat} (h : l[i]? = some x) (y : Nat) : (l ++ [y])[i]? = some x := by
  rw [List.getElem?_append_left (List.getElem?_eq_some_iff.mp h).1, h]

@[simp] theorem held_user (r : List Frame) : held (.user :: r) = held r := rfl

@[simp] theorem held_sendFailed (c : Nat) (r : List Frame) : held (.sendFailed c :: r) = held r := rfl

@[simp] theorem held_written (req : Req) (r : List Frame) : held (.written req :: r) = req.send :: held r := rfl

@[simp] theorem answered_noMemory : answered side .noMemory = true := by cases side <;> rfl

@[simp] theorem answered_refused : answered side .refused = false := by cases side <;> rfl

@[simp] theorem answered_accepted : answered side .accepted = true ↔ side = .client := by cases side <;> decide

theorem tcpSendData_inv (hi : Inv side l s) {c : Nat} {o : Outcome} (ho : o = .accepted → s.session c = .opened) :
    Inv side (l ++ [(c, o)]) (tcpSendData s c o) := by
  have hlen : s.sends.length = l.length := by rw [hi.sends, List.length_map]
  have hnew : (s.sends ++ [c])[l.length]? = some c := by rw [← hlen]; simp
  have hsends : s.sends ++ [c] = (l ++ [(c, o)]).map Prod.fst := by rw [hi.sends]; simp
  have hconn : ∀ r ∈ s.reports, (s.sends ++ [c])[r.1]? = some r.2.conn := fun r hr => getElem?_snoc (hi.conn r hr) c
  have hqueue : ∀ req ∈ s.queue, (s.sends ++ [c])[req.send]? = some req.conn ∧ s.session req.conn ≠ .absent ∧
      s.session req.conn ≠ .closed := fun req hr => ⟨getElem?_snoc (hi.queue req hr).1 c, (hi.queue req hr).2⟩
  unfold tcpSendData
  rw [hlen]
  cases o with
  | noMemory =>
    refine ⟨hsends, fun i => ?_, fun i => ?_, fun i => ?_, fun r hr => ?_, hqueue⟩
    · have := hi.allocated i
      simpa [sendData, callUser, one_snoc] using this
    · have := hi.freed i
      simpa [sendData, callUser, one_snoc] using this
    · have := hi.reports i
      simp only [sendData, callUser, one_snoc, List.map_append, List.map_cons, List.map_nil, count_snoc, answered_noMemory,
        and_true]
      omega
    · rcases List.mem_append.mp hr with hr | hr
      · exact hconn r hr
      · rw [List.mem_singleton.mp hr]; exact hnew
  | refused =>
    refine ⟨hsends, fun i => ?_, fun i => ?_, fun i => ?_, hconn, hqueue⟩
    · have := hi.allocated i
      simp only [sendData, one_snoc, count_snoc, this]
      simp
    · have := hi.freed i
      simpa [sendData, one_snoc] using this
    · have := hi.reports i
      simpa [sendData, one_snoc] using this
  | accepted =>
    refine ⟨hsends, fun i => ?_, fun i => ?_, fun i => ?_, hconn, fun req hr => ?_⟩
    · have := hi.allocated i
      simp only [sendData, one_snoc, count_snoc, this]
      simp
    · have := hi.freed i
      simp only [sendData, one_snoc, List.map_append, List.map_cons, List.map_nil, count_snoc, beq_self_eq_true, and_true]
      omega
    · have := hi.reports i
      simp only [sendData, one_snoc, List.map_append, List.map_cons, List.map_nil, count_snoc, answered_accepted]
      split <;> rename_i hs <;> simp only [hs, if_true, if_false, and_true, and_false] at this ⊢ <;> omega
    · rcases List.mem_append.mp hr with hr | hr
      · exact hqueue req hr
      · rw [List.mem_singleton.mp hr]
        exact ⟨hnew, by simp [sendData, ho rfl], by simp [sendData, ho rfl]⟩

/-! ## What becomes of it -/

theorem Inv.post (hi : Inv side l s) (c : Nat) : Inv side l (post s c) := by
  unfold SendReport.post
  split
  · exact { hi with }
  · exact hi

/-- A request leaves libuv's queue. -/
theorem count_queue {q : List Req} {k : Nat} {req : Req} (h : q[k]? = some req) (i : Nat) :
    (q.map Req.send).count i = ((q.eraseIdx k).map Req.send).count i + if req.send = i then 1 else 0 := by
  obtain ⟨hk, rfl⟩ := List.getElem?_eq_some_iff.mp h
  have hp := (List.getElem_cons_eraseIdx_perm hk).map Req.send
  rw [← hp.count_eq, List.map_cons, List.count_cons]
  simp only [beq_iff_eq]

theorem onWritten_inv (hi : Inv side l s) (hst : s.stack = []) {k : Nat} {req : Req} (h : s.queue[k]? = some req)
    (status : Int) : Inv side l (side.onWritten { s with queue := s.queue.eraseIdx k } req status) := by
  have hmem : ∀ r ∈ s.queue.eraseIdx k, r ∈ s.queue := fun r hr => List.mem_of_mem_eraseIdx hr
  have hf : ∀ i, s.freed.count i + ((s.queue.eraseIdx k).map Req.send).count i + (if req.send = i then 1 else 0) =
      one l (· == .accepted) i := by
    intro i
    have h1 := hi.freed i
    rw [count_queue h i, hst, show held [] = [] from rfl, List.count_nil] at h1
    omega
  cases side with
  | server =>
    apply Inv.post
    refine ⟨hi.sends, hi.allocated, fun i => ?_, fun i => ?_, hi.conn, fun r hr => hi.queue r (hmem r hr)⟩
    · have := hf i
      simp only [freeReq, count_snoc, hst, show held [] = [] from rfl, List.count_nil]
      omega
    · simpa [freeReq] using hi.reports i
  | client =>
    refine ⟨hi.sends, hi.allocated, fun i => ?_, fun i => ?_, fun r hr => ?_, fun r hr => hi.queue r (hmem r hr)⟩
    · have := hf i
      simp only [Side.onWritten, onClientWrite, callUser, hst, held_user, held_written, show held [] = [] from rfl,
        List.count_singleton, beq_iff_eq]
      omega
    · have h1 := hi.reports i
      rw [if_pos rfl, count_queue h i] at h1
      simp only [Side.onWritten, onClientWrite, callUser, List.map_append, List.map_cons, List.map_nil, count_snoc, if_true]
      omega
    · rcases List.mem_append.mp hr with hr | hr
      · exact hi.conn r hr
      · rw [List.mem_singleton.mp hr]
        exact (hi.queue req (List.mem_of_getElem? h)).1

theorem goOn_inv (hi : Inv side l s) (h : goOn s = some s') : Inv side l s' := by
  unfold goOn at h
  split at h
  · rename_i req r hst
    cases h
    apply Inv.post
    refine { hi with freed := fun i => ?_ }
    have := hi.freed i
    rw [hst, held_written, List.count_cons] at this
    simp only [beq_iff_eq] at this
    simp only [freeReq, count_snoc]
    omega
  · rename_i c r hst
    cases h
    apply Inv.post
    refine { hi with freed := fun i => ?_ }
    have := hi.freed i
    rw [hst, held_sendFailed] at this
    exact this
  · cases h

/-- The session of a connection without queued requests changes, or it is to be closed. -/
theorem setSession_inv (hi : Inv side l s) {c : Nat} {h : HandleSt}
    (hq : (h ≠ .absent ∧ h ≠ .closed) ∨ ∀ req ∈ s.queue, req.conn ≠ c) : Inv side l (setSession s c h) := by
  refine { hi with queue := fun req hr => ⟨(hi.queue req hr).1, ?_⟩ }
  show Function.update s.session c h req.conn ≠ _ ∧ Function.update s.session c h req.conn ≠ _
  by_cases e : req.conn = c
  · rw [e, Function.update_self]
    exact hq.resolve_right fun hn => hn req hr e
  · rw [Function.update_of_ne e]
    exact (hi.queue req hr).2

theorem step_inv (hi : Inv side l s) {e : Ev} (h : step side s e = some s') : Inv side (l ++ e.call?.toList) s' := by
  cases e with
  | send c o =>
    simp only [step] at h
    split at h <;> cases h
    rename_i hg
    exact tcpSendData_inv hi hg.2.2
  | opened c | close c =>
    simp only [step] at h
    split at h <;> cases h
    simpa [Ev.call?] using setSession_inv hi (.inl (by simp))
  | closed c =>
    simp only [step] at h
    split at h <;> cases h
    rename_i hg
    simpa [Ev.call?] using setSession_inv hi (.inr hg.2.2)
  | release c =>
    simp only [step] at h
    split at h <;> cases h
    rename_i hg
    have hq : ∀ req ∈ s.queue, req.conn ≠ c := fun req hr e => (hi.queue req hr).2.2 (e ▸ hg.2)
    simpa [Ev.call?] using setSession_inv hi (.inr hq)
  | written i status =>
    simp only [step] at h
    split at h
    · rename_i hst
      obtain ⟨req, hr, rfl⟩ := Option.map_eq_some_iff.mp h
      simpa [Ev.call?] using onWritten_inv hi hst hr status
    · cases h
  | goOn => simpa [Ev.call?] using goOn_inv hi h
  | ret =>
    simp only [step] at h
    split at h <;> cases h
    rename_i r hst
    have : ∀ i, (held r).count i = (held s.stack).count i := fun i => by rw [hst, held_user]
    simpa [Ev.call?] using { hi with freed := fun i => by rw [this i]; exact hi.freed i }

theorem run_inv {es : List Ev} (h : run (step side) init es = some s) : Inv side (calls es) s := by
  refine run_induction (P := fun es s => Inv side (calls es) s) ?_ (fun es s e s' _ hi h => ?_) h
  · refine ⟨rfl, fun i => rfl, fun i => rfl, fun i => ?_, fun r hr => ?_, fun r hr => ?_⟩
    · cases side <;> rfl
    · cases hr
    · cases hr
  · rw [calls, List.filterMap_append]
    have hc : [e].filterMap Ev.call? = e.call?.toList := by cases hc : e.call? <;> simp [hc]
    rw [hc]
    exact step_inv hi h

/-! ## Once all is closed -/

theorem one_eq_one {p : Outcome → Bool} {i c : Nat} {o : Outcome} (h : l[i]? = some (c, o)) :
    one l p i = 1 ↔ p o = true := by
  unfold one
  rw [h]
  simp

theorem Inv.queue_nil (hi : Inv side l s) (hd : Drained s) : s.queue = [] := by
  refine List.eq_nil_iff_forall_not_mem.mpr fun req hr => ?_
  have := (hi.queue req hr).2
  rcases hd.session req.conn with h | h
  · exact this.1 h
  · exact this.2 h

/-- A send is reported if the module answers it, ... -/
theorem Inv.reports_eq (hi : Inv side l s) (hd : Drained s) (i : Nat) :
    (s.reports.map Prod.fst).count i = one l (answered side) i := by
  have := hi.reports i
  rw [hi.queue_nil hd] at this
  simpa using this

/-- ... and its request freed if libuv took it. -/
theorem Inv.freed_eq (hi : Inv side l s) (hd : Drained s) (i : Nat) : s.freed.count i = one l (· == .accepted) i := by
  have := hi.freed i
  rw [hi.queue_nil hd, hd.stack] at this
  simpa [held] using this

theorem settled_iff (side : Side) {es : List Ev} {s : St} (h : run (step side) init es = some s) (hd : Drained s) :
    Settled s ↔ ∀ c o, .send c o ∈ es → answered side o = true := by
  have hi := run_inv h
  have hlen : s.sends.length = (calls es).length := by rw [hi.sends, List.length_map]
  have hcalls : ∀ c o, .send c o ∈ es ↔ (c, o) ∈ calls es := by
    intro c o
    rw [calls, List.mem_filterMap]
    constructor
    · exact fun he => ⟨_, he, rfl⟩
    · rintro ⟨e, he, hc⟩
      cases e <;> cases hc
      exact he
  constructor
  · intro hs c o he
    obtain ⟨i, hc⟩ := List.mem_iff_getElem?.mp ((hcalls c o).mp he)
    have hlt : i < s.sends.length := by rw [hlen]; exact (List.getElem?_eq_some_iff.mp hc).1
    exact (one_eq_one hc).mp ((hi.reports_eq hd i).symm.trans (hs.reported i hlt))
  · intro ha
    have hall : ∀ i c o, (calls es)[i]? = some (c, o) → answered side o = true := fun i c o hc =>
      ha c o ((hcalls c o).mpr (List.mem_of_getElem? hc))
    refine ⟨fun i hlt => ?_, hi.conn, fun i hmem => ?_⟩
    · have hc := List.getElem?_eq_getElem (hlen ▸ hlt : i < (calls es).length)
      rw [hi.reports_eq hd]
      exact (one_eq_one hc).mpr (hall i _ _ hc)
    · have hp := List.count_pos_iff.mpr hmem
      rw [hi.allocated i] at hp
      rw [hi.freed_eq hd]
      cases hc : (calls es)[i]? with
      | none => simp [one, hc] at hp
      | some call =>
        obtain ⟨c, o⟩ := call
        rw [one_eq_one hc]
        cases o with
        | noMemory => simp [one, hc] at hp
        | refused => exact absurd (hall i c _ hc) (by simp)
        | accepted => rfl

/-- Connection 1 alone was there, and is closed. -/
theorem closed_one (c : Nat) :
    Function.update (Function.update (Function.update init.session 1 .opened) 1 .closing) 1 .closed c = .absent ∨
    Function.update (Function.update (Function.update init.session 1 .opened) 1 .closing) 1 .closed c = .closed := by
  rw [Function.update_idem, Function.update_idem]
  by_cases e : c = 1
  · subst e; exact .inr (Function.update_self ..)
  · rw [Function.update_of_ne e]; exact .inl rfl

/-- The server answers a send without memory; the client also one that completes and one that is cancelled. -/
theorem settled : (∃ es, ∃ s : St, run (step .server) init es = some s ∧ s.sends = [1] ∧ Settled s) ∧
    ∃ es, ∃ s : St, run (step .client) init es = some s ∧ s.sends = [1, 1, 1] ∧ Settled s := by
  constructor
  · obtain ⟨s, hr, hd, hl⟩ : ∃ s : St, run (step .server) init
        [.opened 1, .send 1 .noMemory, .ret, .goOn, .close 1, .closed 1] = some s ∧ Drained s ∧ s.sends = [1] :=
      ⟨_, rfl, ⟨rfl, closed_one⟩, rfl⟩
    refine ⟨_, s, hr, hl, (settled_iff .server hr hd).mpr fun c o he => ?_⟩
    have he : c = 1 ∧ o = .noMemory := by simpa using he
    rw [he.2]; rfl
  · -- a send from on_write, and one that the close cancels
    obtain ⟨s, hr, hd, hl⟩ : ∃ s : St, run (step .client) init
        [.opened 1, .send 1 .accepted, .written 0 0, .send 1 .noMemory, .ret, .goOn, .ret, .goOn, .send 1 .accepted, .close 1,
          .written 0 (-125), .ret, .goOn, .closed 1] = some s ∧ Drained s ∧ s.sends = [1, 1, 1] :=
      ⟨_, rfl, ⟨rfl, closed_one⟩, rfl⟩
    refine ⟨_, s, hr, hl, (settled_iff .client hr hd).mpr fun c o he => ?_⟩
    have he : o = .accepted ∨ o = .noMemory := by simp at he; tauto
    rcases he with rfl | rfl
    · rfl
    · rfl

/-- The server reports no send that completes; and a send that is refused after a disconnect is lost on
    both sides. -/
theorem unsettled : (∃ es, ∃ s : St, run (step .server) init es = some s ∧ Drained s ∧ s.freed = [0] ∧ ¬ Settled s) ∧
    ∀ side, ∃ es, ∃ s : St, run (step side) init es = some s ∧ Drained s ∧ s.freed = [] ∧ ¬ Settled s := by
  constructor
  · obtain ⟨s, hr, hd, hf, hl, h⟩ : ∃ s : St, run (step .server) init
        [.opened 1, .send 1 .accepted, .written 0 0, .close 1, .closed 1] = some s ∧ Drained s ∧ s.freed = [0] ∧
        s.sends = [1] ∧ s.reports = [] := ⟨_, rfl, ⟨rfl, closed_one⟩, rfl, rfl, rfl⟩
    refine ⟨_, s, hr, hd, hf, fun hs => ?_⟩
    have := hs.reported 0 (by simp [hl])
    rw [h] at this
    cases this
  · intro side
    obtain ⟨s, hr, hd, hf, ha⟩ : ∃ s : St, run (step side) init [.opened 1, .close 1, .send 1 .refused, .closed 1] = some s ∧
        Drained s ∧ s.freed = [] ∧ s.allocated = [0] := ⟨_, rfl, ⟨rfl, closed_one⟩, rfl, rfl⟩
    refine ⟨_, s, hr, hd, hf, fun hs => ?_⟩
    have := hs.freed 0 (by simp [ha])
    rw [hf] at this
    cases this

end UvWrapper.Net.SendReport
