/-
  UvWrapper.Net.ServerDrain — after tcp_server_close the loop comes to an end of its work (see
  `UvWrapper.Net.ServerSendAll`).

  What is due needs nothing new to happen: user code returns, the wrapper goes on after it, broadcasts go
  on, queued writes complete and close callbacks run. Each such step takes something off `work`: a client
  that is still to be closed counts for its close and for the two frames of its close callback.

  Proved: from every state after the close, what is due leads to a drained loop (`drains`).
-/

import Mathlib.Algebra.BigOperators.Group.Finset.Basic
import Mathlib.Algebra.Order.BigOperators.Group.Finset
import UvWrapper.Net.ServerClose
import UvWrapper.Net.ServerSendAll

namespace UvWrapper.Net.ServerLife

open UvWrapper.Lib

variable {l l' : St} {n : Nat}

/-! ## What a step of the life does not undo -/

/-- A close stays called, and only a new connection makes a client. -/
structure Lasting (l : St) (e : Ev) (l' : St) : Prop where
  closer : l.closer = .done → l'.closer = .done
  absent : ∀ n, (∀ a, e ≠ .newConnection (.client n a)) → (l.client n).st = .absent → (l'.client n).st = .absent

theorem Lasting.same {e : Ev} (h1 : l'.closer = l.closer) (h2 : l'.client = l.client) : Lasting l e l' :=
  ⟨fun h => h1.trans h, fun _ _ h => h2 ▸ h⟩

theorem Lasting.update {e : Ev} {h : Handle} (h1 : l'.closer = l.closer) (h2 : l'.client = Function.update l.client n h)
    (hh : (l.client n).st = .absent → h.st = .absent) : Lasting l e l' := by
  refine ⟨fun h => h1.trans h, fun m _ hm => ?_⟩
  rw [h2]
  by_cases e : m = n
  · subst e
    rw [Function.update_self]
    exact hh hm
  · rw [Function.update_of_ne e]
    exact hm

theorem Lasting.reads {e : Ev} {server : Bool} {m : Option Nat} (h : Lasting l e l') :
    Lasting l e (reads l server m l') := by
  unfold ServerLife.reads
  split
  · exact .same rfl rfl
  · exact h

theorem closeHandle_lasting {e : Ev} {t : St} (hn : t.sessions.Nodup) (h1 : t.closer = l.closer ∨ t.closer = .done)
    (h2 : t.client = l.client) : Lasting l e (closeHandle t) := by
  rw [closeHandle_eq hn]
  refine ⟨fun h => ?_, fun n _ h => ?_⟩
  · rcases h1 with h1 | h1
    · exact h1.trans h
    · exact h1
  · rw [← h2] at h
    show (if n ∈ t.sessions then _ else _ : Handle).st = _
    split
    · exact Handle.closeOnce_absent.mpr h
    · exact h

theorem goOn_lasting (h : goOn l = some l') : Lasting l .goOn l' := by
  unfold goOn at h
  split at h
  · cases h; exact .same rfl rfl
  · cases h; exact .update rfl rfl Handle.closeOnce_absent.mpr
  · cases h; exact .reads (.update rfl rfl Handle.closeOnce_absent.mpr)
  · cases h
    rw [remove_eq]
    exact .reads (.update rfl rfl fun h => h)
  · cases h; exact .reads (.same rfl rfl)
  · cases h

theorem step_lasting (hi : Inv l) {e : Ev} (h : step l e = some l') : Lasting l e l' := by
  unfold step at h
  rw [if_neg (by simp [hi.uaf])] at h
  cases e with
  | newConnection a =>
    simp only at h
    split at h
    · cases a with
      | client n accepted =>
        simp only [onNewConnection] at h
        split at h
        · cases h
          refine .reads ⟨fun h => ?_, fun m hm h => ?_⟩
          · split <;> exact h
          · have e : m ≠ n := fun e => hm accepted (by rw [e])
            split <;> exact (congrArg Handle.st (Function.update_of_ne e ..)).trans h
        · cases h
      | _ => cases h; exact .reads (.same rfl rfl)
    · cases h
  | read n nread =>
    simp only at h
    split at h <;> cases h
    refine .reads ?_
    split
    · exact .same rfl rfl
    · split <;> exact .same rfl rfl
  | written i =>
    simp only at h
    split at h
    · cases hq : l.inflight[i]? with
      | none => rw [hq] at h; cases h
      | some n => rw [hq] at h; cases h; exact .reads (.same rfl rfl)
    · cases h
  | closed n =>
    simp only at h
    split at h <;> cases h
    rename_i hc
    have hne : (l.client n).st = .absent → ∀ {p : Prop}, p := fun h => by rw [h] at hc; cases hc.2.1
    unfold onClosed
    split
    · exact .reads (.update rfl rfl fun h => hne h)
    · exact .update rfl rfl fun h => hne h
  | ownClosed o =>
    simp only at h
    split at h
    · cases o <;> (simp only [onOwnClosed] at h; split at h <;> cases h; exact .same rfl rfl)
    · cases h
  | asyncClose =>
    simp only at h
    split at h <;> cases h
    exact .reads (closeHandle_lasting hi.nodup (.inl rfl) rfl)
  | goOn => exact goOn_lasting h
  | ret =>
    simp only at h
    split at h
    · cases h; exact .same rfl rfl
    · cases h
  | send n malloc =>
    simp only at h
    split at h <;> cases h
    refine .reads ?_
    split <;> exact .same rfl rfl
  | close =>
    simp only at h
    split at h <;> cases h
    exact .reads (closeHandle_lasting hi.nodup (.inr rfl) rfl)
  | closer =>
    simp only at h
    unfold closerStep at h
    cases hc : l.closer <;> rw [hc] at h <;> cases h
    all_goals
      exact .reads ⟨fun h => absurd (hc.symm.trans h) (by simp), fun _ _ h => h⟩

/-! ## What is left of a handle -/

/-- Its close, the two frames of its close callback, and before them the call that closes it. -/
def weight (h : Handle) : Nat :=
  match h.st with
  | .opened => 4
  | .closing => 3
  | _ => 0

theorem weight_closeOnce (h : Handle) : weight h.closeOnce ≤ weight h := by
  unfold Handle.closeOnce
  split
  · exact Nat.le_refl _
  · cases hs : h.st <;> simp [weight, Handle.close, hs]

def ownLeft (l : St) : Nat :=
  (if l.listen.st = .closing then 1 else 0) + (if l.asyncSend.st = .closing then 1 else 0) +
    if l.asyncClose.st = .closing then 1 else 0

end UvWrapper.Net.ServerLife

namespace UvWrapper.Net.ServerSendAll

open UvWrapper.Lib UvWrapper.Lib.Trace UvWrapper.Net.ServerLife

/-! ## What is due -/

/-- tcp_server_close has been called, and the loop has nothing left to call back. -/
structure LoopDrained (s : St) : Prop where
  closed : s.life.closer = .done
  stack : s.life.stack = []
  listen : s.life.listen.st ≠ .closing
  asyncSend : s.life.asyncSend.st ≠ .closing
  asyncClose : s.life.asyncClose.st ≠ .closing
  clients : ∀ n, (s.life.client n).st ≠ .closing

/-- It goes on with what there is: nothing connects, and user code only returns. -/
def Ev.due : Ev → Bool
  | .life .ret | .life .goOn | .life (.written _) | .life (.closed _) | .life (.ownClosed _) | .traverse _ => true
  | _ => false

def Ev.made? : Ev → Option Nat
  | .life (.newConnection (.client n _)) => some n
  | _ => none

variable {s s' : St} {c : Finset Nat} {n : Nat}

/-- A close on the loop's thread, with the clients `c`. -/
structure Closing (c : Finset Nat) (s : St) : Prop where
  inv : Inv s
  closer : s.life.closer = .done
  known : ∀ n, n ∉ c → (s.life.client n).st = .absent

theorem Closing.down (hc : Closing c s) : Down s.life := by
  have hp := hc.inv.life.phase
  rw [hc.closer] at hp
  rcases hp.2 with ⟨-, h⟩ | ⟨h, -⟩
  · rw [hc.inv.alone.pending] at h; cases h
  · exact h

/-- A session is no longer open. -/
theorem Closing.not_opened (hc : Closing c s) (hn : n ∈ s.life.sessions) : (s.life.client n).st ≠ .opened := fun h => by
  have := hc.down.clients n hn
  rw [Handle.not_closing_of_opened h] at this
  cases this

theorem step_lasts (hi : Inv s) {e : Ev} (h : step s e = some s') :
    (s.life.closer = .done → s'.life.closer = .done) ∧
      ∀ n, e.made? ≠ some n → (s.life.client n).st = .absent → (s'.life.client n).st = .absent := by
  unfold step at h
  rw [if_neg (by simp [hi.life.uaf])] at h
  cases e with
  | life f =>
    simp only at h
    split at h
    · cases h
    · cases hl : ServerLife.step s.life f with
      | none => rw [hl] at h; cases h
      | some l =>
        rw [hl] at h
        cases h
        have hlast := step_lasting hi.life hl
        exact ⟨hlast.closer, fun n hn => hlast.absent n fun a e => hn (by rw [e]; rfl)⟩
  | sendAll =>
    simp only at h
    split at h <;> cases h
    exact ⟨fun h => h, fun _ _ h => h⟩
  | traverse malloc =>
    simp only at h
    split at h
    · rename_i hb
      unfold traverse at h
      split at h
      · cases h
      · rename_i t r hall
        split at h
        · cases h
          exact ⟨fun h => h, fun _ _ h => h⟩
        · rename_i n hpos
          cases h
          have hlast := step_lasting hi.life (send_step hi hb hall hpos malloc)
          exact ⟨hlast.closer, fun m _ => hlast.absent m fun a e => by cases e⟩
        · rename_i n hpos
          have hn := (hi.all t (by rw [hall]; exact List.mem_cons_self)).sent n hpos
          rw [hi.life.reads_conn hn] at h
          cases h
          exact ⟨fun h => h, fun _ _ h => h⟩
    · cases h

theorem Closing.step (hc : Closing c s) {e : Ev} (he : e.due = true) (h : step s e = some s') : Closing c s' := by
  obtain ⟨h1, h2⟩ := step_lasts hc.inv h
  refine ⟨step_keeps hc.inv h, h1 hc.closer, fun n hn => h2 n (fun hm => ?_) (hc.known n hn)⟩
  unfold Ev.made? at hm
  split at hm
  · cases he
  · cases hm

/-! ## Broadcasts -/

def ahead (sessions : List Nat) : Pos → Nat
  | .test none => 0
  | .test (some n) => 2 * (sessions.length - sessions.idxOf n)
  | .sent n => 2 * (sessions.length - sessions.idxOf n) - 1

def walks (sessions : List Nat) : List Traversal → Nat
  | [] => 0
  | t :: r => ahead sessions t.pos + 1 + walks sessions r

theorem ahead_next {l : List Nat} (hd : l.Nodup) (hn : n ∈ l) : ahead l (.test (queueNext l n)) < ahead l (.sent n) := by
  have hlt := List.idxOf_lt_length_of_mem hn
  unfold queueNext
  by_cases h : l.idxOf n + 1 < l.length
  · rw [List.getElem?_eq_getElem h]
    simp only [ahead]
    rw [hd.idxOf_getElem _ h]
    omega
  · rw [List.getElem?_eq_none (Nat.not_lt.mp h)]
    simp only [ahead]
    omega

/-- The innermost traversal goes on: after a close its send queues nothing. -/
theorem traverse_due (hc : Closing c s) (hb : busy s = true) :
    ∃ all, step s (.traverse true) = some ⟨s.life, all⟩ ∧ walks s.life.sessions all < walks s.life.sessions s.all := by
  have hstep : step s (.traverse true) = traverse s true := by
    unfold step
    rw [if_neg (by simp [hc.inv.life.uaf])]
    exact if_pos hb
  rw [hstep]
  cases hall : s.all with
  | nil => simp [busy, hall] at hb
  | cons t r =>
    have hok := hc.inv.all t (by rw [hall]; exact List.mem_cons_self)
    obtain ⟨base, pos⟩ := t
    unfold traverse
    rw [hall]
    cases pos with
    | test q =>
      cases q with
      | none => exact ⟨r, rfl, by simp only [walks]; omega⟩
      | some n =>
        have hn := hok.test n rfl
        have hsend : sendData s.life n true = s.life := by
          unfold sendData
          rw [hc.inv.life.reads_conn hn, if_pos rfl, if_neg (hc.not_opened hn)]
        refine ⟨⟨base, .sent n⟩ :: r, by simp only [hsend], ?_⟩
        have hlt := List.idxOf_lt_length_of_mem hn
        simp only [walks, ahead]
        omega
    | sent n =>
      have hn := hok.sent n rfl
      refine ⟨⟨base, .test (queueNext s.life.sessions n)⟩ :: r, by simp only [hc.inv.life.reads_conn hn], ?_⟩
      have := ahead_next hc.inv.life.nodup hn
      simp only [walks]
      omega

/-! ## Frames -/

/-- What a step of the server's life has left of the rest. -/
structure Shrinks (s : St) (l : ServerLife.St) : Prop where
  inflight : l.inflight = s.life.inflight
  own : ownLeft l = ownLeft s.life
  walks : walks l.sessions s.all = walks s.life.sessions s.all
  client : ∀ n, weight (l.client n) ≤ weight (s.life.client n)

theorem weight_update {c : Nat → Handle} {h : Handle} (hh : weight h ≤ weight (c n)) (m : Nat) :
    weight (Function.update c n h m) ≤ weight (c m) := by
  by_cases e : m = n
  · subst e; rw [Function.update_self]; exact hh
  · rw [Function.update_of_ne e]

theorem life_step (hc : Closing c s) (hb : busy s = false) {e : ServerLife.Ev} (he : e ≠ .closer) {l : ServerLife.St}
    (h : ServerLife.step s.life e = some l) : step s (.life e) = some ⟨l, s.all⟩ := by
  unfold step
  rw [if_neg (by simp [hc.inv.life.uaf])]
  simp only [hb, Bool.false_eq_true, he, or_self, if_false, h, Option.map_some]

/-- No broadcast is under way when on_close_connection goes on. -/
theorem Inv.no_walk (hi : Inv s) (hb : busy s = false) {r : List Frame} (hst : s.life.stack = .remove n :: r) :
    s.all = [] := by
  cases hall : s.all with
  | nil => rfl
  | cons t r' =>
    obtain ⟨f, above, h, hf, -⟩ := hi.waiting hb (t := t) (by rw [hall]; exact List.mem_cons_self)
    rw [hst] at h
    rw [← (List.cons.inj h).1] at hf
    cases hf

theorem goOn_due (hc : Closing c s) (hb : busy s = false) {f : Frame} {r : List Frame} (hst : s.life.stack = f :: r)
    (hf : ∀ cb, f ≠ .user cb) : ∃ l, goOn s.life = some l ∧ l.stack = r ∧ Shrinks s l := by
  have hi := hc.inv.life
  have hmem : ∀ {m}, f.conn? = some m → m ∈ s.life.sessions := fun hm =>
    hi.frames f (by rw [hst]; exact List.mem_cons_self) _ hm
  unfold goOn
  rw [hst]
  cases f with
  | user cb => exact absurd rfl (hf cb)
  | readStart n => exact ⟨_, rfl, rfl, rfl, rfl, rfl, fun _ => Nat.le_refl _⟩
  | refuse n => exact ⟨_, rfl, rfl, rfl, rfl, rfl, weight_update (weight_closeOnce _)⟩
  | readError n =>
    simp only [hi.reads_conn (hmem rfl)]
    exact ⟨_, rfl, rfl, rfl, rfl, rfl, weight_update (weight_closeOnce _)⟩
  | remove n =>
    simp only [hi.reads_conn (hmem rfl)]
    rw [remove_eq]
    refine ⟨_, rfl, rfl, rfl, rfl, ?_, weight_update (Nat.le_refl _)⟩
    rw [hc.inv.no_walk hb hst]
    rfl
  | sendFailed n =>
    simp only [hi.reads_conn (hmem rfl)]
    exact ⟨_, rfl, rfl, rfl, rfl, rfl, fun _ => Nat.le_refl _⟩

/-! ## The work left -/

def work (c : Finset Nat) (s : St) : Nat :=
  s.life.stack.length + s.life.inflight.length + ownLeft s.life + walks s.life.sessions s.all +
    ∑ n ∈ c, weight (s.life.client n)

theorem frame_due (hc : Closing c s) (hb : busy s = false) {f : Frame} {r : List Frame} (hst : s.life.stack = f :: r) :
    ∃ e s', e.due = true ∧ step s e = some s' ∧ work c s' < work c s := by
  have hwork : ∀ {l : ServerLife.St}, l.stack = r → Shrinks s l → work c ⟨l, s.all⟩ < work c s := by
    intro l hl hs
    have hsum : ∑ n ∈ c, weight (l.client n) ≤ ∑ n ∈ c, weight (s.life.client n) :=
      Finset.sum_le_sum fun n _ => hs.client n
    have hl' : work c ⟨l, s.all⟩ = l.stack.length + l.inflight.length + ownLeft l + walks l.sessions s.all +
        ∑ n ∈ c, weight (l.client n) := rfl
    rw [hl', hl, hs.inflight, hs.own, hs.walks, work, hst, List.length_cons]
    omega
  by_cases hu : ∃ cb, f = .user cb
  · obtain ⟨cb, rfl⟩ := hu
    have h : ServerLife.step s.life .ret = some { s.life with stack := r, log := s.life.log ++ [.ret cb] } := by
      unfold ServerLife.step
      rw [if_neg (by simp [hc.inv.life.uaf])]
      simp only [hst]
    exact ⟨.life .ret, _, rfl, life_step hc hb (by simp) h, hwork rfl ⟨rfl, rfl, rfl, fun _ => Nat.le_refl _⟩⟩
  · obtain ⟨l, h, hl, hs⟩ := goOn_due hc hb hst fun cb e => hu ⟨cb, e⟩
    have h' : ServerLife.step s.life .goOn = some l := by
      unfold ServerLife.step
      rw [if_neg (by simp [hc.inv.life.uaf])]
      exact h
    exact ⟨.life .goOn, _, rfl, life_step hc hb (by simp) h', hwork hl hs⟩

/-- With no frame left there is no broadcast, unless it has the thread. -/
theorem Inv.no_frame (hi : Inv s) (hb : busy s = false) (hst : s.life.stack = []) : s.all = [] := by
  cases hall : s.all with
  | nil => rfl
  | cons t r =>
    obtain ⟨f, above, h, -⟩ := hi.waiting hb (t := t) (by rw [hall]; exact List.mem_cons_self)
    rw [hst] at h
    cases h

theorem sum_update_lt {f : Nat → Handle} {h : Handle} {k : Nat} (hn : n ∈ c) (hk : weight h + k ≤ weight (f n)) :
    ∑ m ∈ c, weight (Function.update f n h m) + k ≤ ∑ m ∈ c, weight (f m) := by
  rw [← Finset.add_sum_erase c (fun m => weight (Function.update f n h m)) hn,
    ← Finset.add_sum_erase c (fun m => weight (f m)) hn]
  have hrest : ∑ m ∈ c.erase n, weight (Function.update f n h m) = ∑ m ∈ c.erase n, weight (f m) :=
    Finset.sum_congr rfl fun m hm => by rw [Function.update_of_ne (Finset.ne_of_mem_erase hm)]
  rw [hrest, Function.update_self]
  omega

/-- A client's close callback, of a session or not. -/
theorem closed_due (hc : Closing c s) (hb : busy s = false) (hst : s.life.stack = []) (hq : s.life.inflight = [])
    (hn : (s.life.client n).st = .closing) : ∃ e s', e.due = true ∧ step s e = some s' ∧ work c s' < work c s := by
  have hall := hc.inv.no_frame hb hst
  have hmem : n ∈ c := by
    by_contra h
    rw [hc.known n h] at hn; cases hn
  have h : ServerLife.step s.life (.closed n) = some (onClosed s.life n) := by
    unfold ServerLife.step
    rw [if_neg (by simp [hc.inv.life.uaf])]
    exact if_pos ⟨hst, hn, by rw [hq]; exact List.not_mem_nil⟩
  refine ⟨.life (.closed n), _, rfl, life_step hc hb (by simp) h, ?_⟩
  have hsum : ∀ h : Handle, h.st = .closed →
      ∑ m ∈ c, weight (Function.update s.life.client n h m) + 3 ≤ ∑ m ∈ c, weight (s.life.client m) := fun h hh =>
    sum_update_lt hmem (by simp [weight, hh, hn])
  unfold onClosed
  split
  · rename_i hs
    rw [hc.inv.life.reads_conn hs]
    have := hsum (s.life.client n).finish rfl
    simp only [work, callUser, hst, hall, walks, List.length_cons, List.length_nil]
    simp only [ownLeft]
    omega
  · have := hsum (s.life.client n).finish.free rfl
    simp only [work, hst, hall, walks]
    simp only [ownLeft]
    omega

theorem ownClosed_due (hc : Closing c s) (hb : busy s = false) (hst : s.life.stack = [])
    (ho : s.life.listen.st = .closing ∨ s.life.asyncSend.st = .closing ∨ s.life.asyncClose.st = .closing) :
    ∃ e s', e.due = true ∧ step s e = some s' ∧ work c s' < work c s := by
  have hown : ∀ {o : Own} {l : ServerLife.St}, onOwnClosed s.life o = some l →
      ServerLife.step s.life (.ownClosed o) = some l := fun h => by
    unfold ServerLife.step
    rw [if_neg (by simp [hc.inv.life.uaf])]
    exact (if_pos hst).trans h
  rcases ho with ho | ho | ho
  · have h : onOwnClosed s.life .listen = some { s.life with listen := s.life.listen.finish.free } := if_pos ho
    refine ⟨.life (.ownClosed .listen), _, rfl, life_step hc hb (by simp) (hown h), ?_⟩
    simp only [work, ownLeft, ho, Handle.free_st, Handle.finish_st, reduceCtorEq, if_true, if_false]
    omega
  · have h : onOwnClosed s.life .asyncSend = some { s.life with asyncSend := s.life.asyncSend.finish.free } := if_pos ho
    refine ⟨.life (.ownClosed .asyncSend), _, rfl, life_step hc hb (by simp) (hown h), ?_⟩
    simp only [work, ownLeft, ho, Handle.free_st, Handle.finish_st, reduceCtorEq, if_true, if_false]
    omega
  · have h : onOwnClosed s.life .asyncClose = some { s.life with asyncClose := s.life.asyncClose.finish.free } :=
      if_pos ho
    refine ⟨.life (.ownClosed .asyncClose), _, rfl, life_step hc hb (by simp) (hown h), ?_⟩
    simp only [work, ownLeft, ho, Handle.free_st, Handle.finish_st, reduceCtorEq, if_true, if_false]
    omega

theorem written_due (hc : Closing c s) (hb : busy s = false) (hst : s.life.stack = []) (hq : s.life.inflight ≠ []) :
    ∃ e s', e.due = true ∧ step s e = some s' ∧ work c s' < work c s := by
  obtain ⟨m, q, hq⟩ := List.exists_cons_of_ne_nil hq
  have hm := (hc.inv.life.inflight m (by rw [hq]; exact List.mem_cons_self)).1
  have h : ServerLife.step s.life (.written 0) = some { s.life with inflight := q } := by
    unfold ServerLife.step
    rw [if_neg (by simp [hc.inv.life.uaf])]
    simp only [if_pos hst, hq, List.getElem?_cons_zero, Option.map_some, hc.inv.life.reads_conn hm,
      List.eraseIdx_cons_zero]
  refine ⟨.life (.written 0), _, rfl, life_step hc hb (by simp) h, ?_⟩
  simp only [work, ownLeft, hq, List.length_cons]
  omega

/-- Something is due, until the loop has drained. -/
theorem some_due (hc : Closing c s) (hd : ¬ LoopDrained s) :
    ∃ e s', e.due = true ∧ step s e = some s' ∧ work c s' < work c s := by
  cases hb : busy s with
  | true =>
    obtain ⟨all, h, hlt⟩ := traverse_due hc hb
    refine ⟨.traverse true, _, rfl, h, ?_⟩
    simp only [work]
    omega
  | false =>
    cases hst : s.life.stack with
    | cons f r => exact frame_due hc hb hst
    | nil =>
      by_cases hq : s.life.inflight = []
      · by_cases ho : s.life.listen.st = .closing ∨ s.life.asyncSend.st = .closing ∨ s.life.asyncClose.st = .closing
        · exact ownClosed_due hc hb hst ho
        · by_cases hn : ∃ n, (s.life.client n).st = .closing
          · obtain ⟨n, hn⟩ := hn
            exact closed_due hc hb hst hq hn
          · rw [not_or, not_or] at ho
            exact absurd ⟨hc.closer, hst, ho.1, ho.2.1, ho.2.2, fun n h => hn ⟨n, h⟩⟩ hd
      · exact written_due hc hb hst hq

def made (es : List Ev) : Finset Nat := (es.filterMap Ev.made?).toFinset

theorem made_known {bind listen : Int} {es : List Ev} (h : run step (tcpServerRun bind listen) es = some s) :
    ∀ n, n ∉ made es → (s.life.client n).st = .absent := by
  refine run_induction (P := fun es s => ∀ n, n ∉ made es → (s.life.client n).st = .absent) (fun n _ => ?_)
    (fun es s e s' hr ih h n hn => ?_) h
  · exact tcpServerRun_cases (P := fun l => (l.client n).st = .absent) rfl
      (fun l h => (step_lasting ServerLife.init_inv h).absent n (fun a e => by cases e) rfl) bind listen
  · have hmade : n ∉ made es ∧ e.made? ≠ some n := by
      simpa [made, List.filterMap_append, not_or] using hn
    exact (step_lasts (kept hr).inv h).2 n hmade.2 (ih n hmade.1)

theorem loopDrained_of_made (bind listen : Int) {es : List Ev} (h : run step (tcpServerRun bind listen) es = some s)
    (hc : s.life.closer = .done ∧ s.life.stack = [])
    (ho : s.life.listen.st ≠ .closing ∧ s.life.asyncSend.st ≠ .closing ∧ s.life.asyncClose.st ≠ .closing)
    (hm : ∀ n ∈ made es, (s.life.client n).st ≠ .closing) : LoopDrained s := by
  refine ⟨hc.1, hc.2, ho.1, ho.2.1, ho.2.2, fun n => ?_⟩
  by_cases hn : n ∈ made es
  · exact hm n hn
  · rw [made_known h n hn]
    simp

/-- What is due, and nothing else, leads there. -/
theorem drains {bind listen : Int} {es : List Ev} (h : run step (tcpServerRun bind listen) es = some s)
    (hc : s.life.closer = .done) :
    ∃ fs t, (∀ f ∈ fs, Ev.due f = true) ∧ run step s fs = some t ∧ LoopDrained t := by
  have hdue : ∀ s, Closing (made es) s → ¬ LoopDrained s →
      ∃ e s', Ev.due e = true ∧ step s e = some s' ∧ Closing (made es) s' ∧ work (made es) s' < work (made es) s := by
    intro s hi hd
    obtain ⟨e, s', he, h, hlt⟩ := some_due hi hd
    exact ⟨e, s', he, h, hi.step he h, hlt⟩
  obtain ⟨fs, t, hfs, hr, -, hd⟩ := run_until_by (work (made es)) hdue ⟨(kept h).inv, hc, made_known h⟩
  exact ⟨fs, t, hfs, hr, hd⟩

end UvWrapper.Net.ServerSendAll
