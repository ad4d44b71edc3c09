/-
  UvWrapper.Net.ServerLifeProofs — the invariant of a server's life, as long as no
  on_close_connection empties sessions between is_closing and close_handle
  (`orderly`): the server is freed exactly when its handles are on their way and sessions is
  empty, and no step reads it, or a connection, after that.
-/

import UvWrapper.Net.ServerLife

namespace UvWrapper.Net.ServerLife

open UvWrapper.Lib UvWrapper.Lib.Trace

/-- on_close_connection does not remove the last session while is_closing is set and
    close_handle is still to come. -/
def orderly (s : St) : Ev → Bool
  | .goOn =>
    match s.stack with
    | .remove n :: _ => !(s.isClosing && s.listen.st == .opened && (s.sessions.erase n).isEmpty)
    | _ => true
  | _ => true

/-! ## The invariant -/

structure Up (s : St) : Prop where
  listen : s.listen.st = .opened
  asyncSend : s.asyncSend.st = .opened
  asyncClose : s.asyncClose.st = .opened
  frees : s.frees = 0

structure Down (s : St) : Prop where
  listen : s.listen.isClosing = true
  asyncSend : s.asyncSend.isClosing = true
  asyncClose : s.asyncClose.isClosing = true
  clients : ∀ n ∈ s.sessions, (s.client n).isClosing = true
  frees : s.frees = if s.sessions = [] then 1 else 0

def Phase (s : St) : Closer → Prop
  | .idle => Up s ∧ s.isClosing = false ∧ s.closePending = false
  | .compare | .notify => Up s ∧ s.isClosing = true ∧ s.closePending = false
  | .done => s.isClosing = true ∧ ((Up s ∧ s.closePending = true) ∨ (Down s ∧ s.closePending = false))

/-- The connection that a frame reads when it goes on. -/
def Frame.conn? : Frame → Option Nat
  | .readStart n | .readError n | .remove n | .sendFailed n => some n
  | _ => none

/-- A frame that may have others under it. -/
def Frame.nested : Frame → Bool
  | .user _ | .sendFailed _ => true
  | _ => false

structure Inv (s : St) : Prop where
  phase : Phase s s.closer
  nodup : s.sessions.Nodup
  alive : ∀ n ∈ s.sessions, s.connFrees n = 0
  fresh : ∀ n, (s.client n).st = .absent → n ∉ s.sessions ∧ s.connFrees n = 0 ∧ s.reading n = false
  frames : ∀ f ∈ s.stack, ∀ n, f.conn? = some n → n ∈ s.sessions
  bottom : ∀ f ∈ s.stack.dropLast, f.nested = true
  closed : ∀ n ∈ s.sessions, (s.client n).st = .closed → .remove n ∈ s.stack
  removing : ∀ n, .remove n ∈ s.stack → (s.client n).st = .closed
  inflight : ∀ n ∈ s.inflight, n ∈ s.sessions ∧ (s.client n).st ≠ .closed
  reading : ∀ n, s.reading n = true → (s.client n).st = .opened → n ∈ s.sessions
  uaf : s.uaf = false

theorem init_inv : Inv init where
  phase := ⟨⟨rfl, rfl, rfl, rfl⟩, rfl, rfl⟩
  nodup := List.nodup_nil
  alive := fun _ h => by cases h
  fresh := fun _ _ => ⟨List.not_mem_nil, rfl, rfl⟩
  frames := fun _ h => by cases h
  bottom := fun _ h => by cases h
  closed := fun _ h => by cases h
  removing := fun _ h => by cases h
  inflight := fun _ h => by cases h
  reading := fun _ h => by cases h
  uaf := rfl

variable {s s' : St}

/-! ## Reading the server and its connections -/

theorem reads_eq {server : Bool} {n : Option Nat} {t : St} (hs : server = true → s.frees = 0)
    (hn : ∀ m, n = some m → s.connFrees m = 0) : reads s server n t = t := by
  unfold reads
  rw [if_neg]
  simp only [Bool.or_eq_true, Bool.and_eq_true, bne_iff_ne, ne_eq, not_or, not_and, not_not]
  refine ⟨hs, ?_⟩
  cases n with
  | none => simp
  | some m => simpa using hn m rfl

theorem Phase.up (h : Phase s s.closer) (ho : s.listen.st = .opened ∨ s.asyncClose.st = .opened) : Up s := by
  cases hc : s.closer <;> rw [hc] at h
  · exact h.1
  · exact h.1
  · exact h.1
  · rcases h.2 with ⟨hu, -⟩ | ⟨hd, -⟩
    · exact hu
    · rcases ho with ho | ho
      · have := hd.listen; rw [Handle.not_closing_of_opened ho] at this; cases this
      · have := hd.asyncClose; rw [Handle.not_closing_of_opened ho] at this; cases this

/-- With a session left the server is not freed. -/
theorem Inv.frees_eq (hi : Inv s) {n : Nat} (hn : n ∈ s.sessions) : s.frees = 0 := by
  have h := hi.phase
  have hne : s.sessions ≠ [] := List.ne_nil_of_mem hn
  cases hc : s.closer <;> rw [hc] at h
  · exact h.1.frees
  · exact h.1.frees
  · exact h.1.frees
  · rcases h.2 with ⟨hu, -⟩ | ⟨hd, -⟩
    · exact hu.frees
    · rw [hd.frees, if_neg hne]

theorem Inv.reads_conn (hi : Inv s) {n : Nat} (hn : n ∈ s.sessions) {server : Bool} {t : St} :
    reads s server (some n) t = t :=
  reads_eq (fun _ => hi.frees_eq hn) fun m h => by cases h; exact hi.alive n hn

/-- The phase looks at the server's own fields, the sessions, and whether their clients are closing. -/
theorem Phase.keep {c : Closer} (h : Phase s c) (h1 : s'.listen = s.listen) (h2 : s'.asyncSend = s.asyncSend)
    (h3 : s'.asyncClose = s.asyncClose) (h4 : s'.frees = s.frees) (h5 : s'.isClosing = s.isClosing)
    (h6 : s'.closePending = s.closePending)
    (h7 : s.listen.st ≠ .opened → s'.sessions = s.sessions ∧
      ∀ n ∈ s.sessions, (s.client n).isClosing = true → (s'.client n).isClosing = true) : Phase s' c := by
  have hup : Up s → Up s' := fun hu => ⟨h1 ▸ hu.listen, h2 ▸ hu.asyncSend, h3 ▸ hu.asyncClose, h4 ▸ hu.frees⟩
  have hdown : Down s → Down s' := fun hd => by
    obtain ⟨h8, h9⟩ := h7 fun ho => by
      have := hd.listen; rw [Handle.not_closing_of_opened ho] at this; cases this
    exact ⟨h1 ▸ hd.listen, h2 ▸ hd.asyncSend, h3 ▸ hd.asyncClose,
      fun n hn => h9 n (h8 ▸ hn) (hd.clients n (h8 ▸ hn)), by rw [h4, h8]; exact hd.frees⟩
  cases c with
  | idle => exact ⟨hup h.1, h5 ▸ h.2.1, h6 ▸ h.2.2⟩
  | compare => exact ⟨hup h.1, h5 ▸ h.2.1, h6 ▸ h.2.2⟩
  | notify => exact ⟨hup h.1, h5 ▸ h.2.1, h6 ▸ h.2.2⟩
  | done =>
    refine ⟨h5 ▸ h.1, ?_⟩
    rcases h.2 with ⟨hu, hp⟩ | ⟨hd, hp⟩
    · exact .inl ⟨hup hu, h6 ▸ hp⟩
    · exact .inr ⟨hdown hd, h6 ▸ hp⟩

/-! ## User callbacks -/

/-- The wrapper makes a user callback, with `r` to go on with. -/
theorem callUser_inv (hi : Inv s) {cb : Cb} {r : List Frame} (hr : ∀ f ∈ r, ∀ n, f.conn? = some n → n ∈ s.sessions)
    (hb : ∀ f ∈ r.dropLast, f.nested = true) (hc : ∀ f ∈ s.stack, f ∈ r)
    (hrem : ∀ n, .remove n ∈ r → .remove n ∈ s.stack) : Inv (callUser s cb r) :=
  { hi with
    phase := hi.phase.keep rfl rfl rfl rfl rfl rfl fun _ => ⟨rfl, fun _ _ h => h⟩
    frames := fun f hf n hn => by
      rcases List.mem_cons.mp hf with rfl | hf
      · cases hn
      · exact hr f hf n hn
    bottom := fun f hf => by
      cases r with
      | nil => cases hf
      | cons g r =>
        rcases List.mem_cons.mp hf with rfl | hf
        · rfl
        · exact hb f hf
    closed := fun n hn h => List.mem_cons_of_mem _ (hc _ (hi.closed n hn h))
    removing := fun n hn => by
      rcases List.mem_cons.mp hn with h | h
      · cases h
      · exact hi.removing n (hrem n h) }

/-- The top frame is done. -/
theorem pop_inv (hi : Inv s) {f : Frame} {r : List Frame} (hst : s.stack = f :: r) (hf : ∀ n, f ≠ .remove n)
    (l : List Mark) : Inv { s with stack := r, log := l } :=
  { hi with
    phase := hi.phase.keep rfl rfl rfl rfl rfl rfl fun _ => ⟨rfl, fun _ _ h => h⟩
    frames := fun g hg => hi.frames g (by rw [hst]; exact List.mem_cons_of_mem _ hg)
    bottom := fun g hg => hi.bottom g (by
      rw [hst]
      cases r with
      | nil => cases hg
      | cons h r => exact List.mem_cons_of_mem _ hg)
    closed := fun n hn h => by
      have := hi.closed n hn h
      rw [hst] at this
      rcases List.mem_cons.mp this with h | h
      · exact absurd h.symm (hf n)
      · exact h
    removing := fun n hn => hi.removing n (by rw [hst]; exact List.mem_cons_of_mem _ hn) }

/-! ## Clients and connections -/

theorem update_closing {n m : Nat} {h : Handle} (hh : (s.client n).isClosing = true → h.isClosing = true)
    (hm : (s.client m).isClosing = true) : (Function.update s.client n h m).isClosing = true := by
  by_cases e : m = n
  · subst e; rw [Function.update_self]; exact hh hm
  · rw [Function.update_of_ne e]; exact hm

/-- A client of no connection moves on; it is a known one afterwards. -/
theorem client_inv (hi : Inv s) {n : Nat} {h : Handle} (hn : n ∉ s.sessions) (hh : h.st ≠ .absent)
    (hrd : s.reading n = true → h.st ≠ .opened) : Inv { s with client := Function.update s.client n h } := by
  have hne : ∀ m ∈ s.sessions, Function.update s.client n h m = s.client m := fun m hm =>
    Function.update_of_ne (by intro heq; subst heq; exact hn hm) _ _
  exact { hi with
    phase := hi.phase.keep rfl rfl rfl rfl rfl rfl fun _ =>
      ⟨rfl, fun m hm hc => (congrArg Handle.isClosing (hne m hm)).trans hc⟩
    fresh := fun m hm => by
      by_cases e : m = n
      · rw [e] at hm; simp only [Function.update_self] at hm; exact absurd hm hh
      · simp only [Function.update_of_ne e] at hm; exact hi.fresh m hm
    closed := fun m hm hc => hi.closed m hm ((congrArg Handle.st (hne m hm)).symm.trans hc)
    inflight := fun m hm => by
      obtain ⟨h1, h2⟩ := hi.inflight m hm
      exact ⟨h1, (congrArg Handle.st (hne m h1)).trans_ne h2⟩
    removing := fun m hm => (congrArg Handle.st (hne m (hi.frames _ hm m rfl))).trans (hi.removing m hm)
    reading := fun m hm ho => by
      by_cases e : m = n
      · rw [e] at hm ho; simp only [Function.update_self] at ho; exact absurd ho (hrd hm)
      · simp only [Function.update_of_ne e] at ho; exact hi.reading m hm ho }

/-- on_new_connection makes its client a connection. -/
theorem accept_inv (hi : Inv s) {n : Nat} (hn : (s.client n).st = .absent) (ho : s.listen.st = .opened) (c : Int) :
    Inv { s with client := Function.update s.client n Handle.opened, sessions := s.sessions ++ [n], connCount := c } := by
  obtain ⟨hns, hfree, hread⟩ := hi.fresh n hn
  have h1 := client_inv hi (h := Handle.opened) hns (by simp) fun h => by rw [hread] at h; cases h
  have hmem : ∀ m, m ∈ s.sessions → m ∈ s.sessions ++ [n] := fun m h => List.mem_append_left _ h
  have hself : (Function.update s.client n Handle.opened n).st = .opened := by rw [Function.update_self]; rfl
  exact { h1 with
    phase := h1.phase.keep rfl rfl rfl rfl rfl rfl fun h => absurd ho h
    nodup := nodup_snoc hi.nodup hns
    alive := fun m hm => by
      rcases List.mem_append.mp hm with hm | hm
      · exact hi.alive m hm
      · rw [List.mem_singleton.mp hm]; exact hfree
    fresh := fun m hm => by
      obtain ⟨h2, h3⟩ := h1.fresh m hm
      refine ⟨fun h => ?_, h3⟩
      rcases List.mem_append.mp h with h | h
      · exact h2 h
      · rw [List.mem_singleton.mp h] at hm
        have hm : (Function.update s.client n Handle.opened n).st = .absent := hm
        rw [hself] at hm; cases hm
    frames := fun f hf m hm => hmem m (hi.frames f hf m hm)
    closed := fun m hm hc => by
      rcases List.mem_append.mp hm with hm | hm
      · exact h1.closed m hm hc
      · rw [List.mem_singleton.mp hm] at hc
        have hc : (Function.update s.client n Handle.opened n).st = .closed := hc
        rw [hself] at hc; cases hc
    inflight := fun m hm => ⟨hmem m (h1.inflight m hm).1, (h1.inflight m hm).2⟩
    reading := fun m hm ho => hmem m (h1.reading m hm ho) }

theorem onNewConnection_inv (hi : Inv s) {a : Accept} (hst : s.stack = []) (ho : s.listen.st = .opened)
    (h : onNewConnection s a = some s') : Inv s' := by
  have hup := hi.phase.up (.inl ho)
  have hreads : ∀ t, reads s true none t = t := fun t => reads_eq (fun _ => hup.frees) fun m h => by cases h
  have hnil : ∀ {r : List Frame} (f : Frame), f ∈ s.stack → f ∈ r := fun f hf => by rw [hst] at hf; cases hf
  cases a with
  | error =>
    simp only [onNewConnection, hreads, Option.some.injEq] at h
    rw [← h]; exact callUser_inv hi (fun _ h => by cases h) (fun _ h => by cases h) hnil fun _ h => by cases h
  | noMemory =>
    simp only [onNewConnection, hreads, Option.some.injEq] at h
    rw [← h]; exact callUser_inv hi (fun _ h => by cases h) (fun _ h => by cases h) hnil fun _ h => by cases h
  | client n accepted =>
    simp only [onNewConnection, hreads] at h
    split at h
    · rename_i hn
      cases accepted with
      | true =>
        simp only [if_true, Option.some.injEq] at h
        rw [← h]
        refine callUser_inv (accept_inv hi hn ho _) (fun f hf m hm => ?_) (fun _ h => by cases h) hnil fun _ h => by simp at h
        rw [List.mem_singleton.mp hf] at hm
        cases hm
        exact List.mem_append_right _ (List.mem_singleton.mpr rfl)
      | false =>
        simp only [Bool.false_eq_true, if_false, Option.some.injEq] at h
        rw [← h]
        obtain ⟨hns, -, hread⟩ := hi.fresh n hn
        refine callUser_inv (client_inv hi hns (by simp) fun h => by rw [hread] at h; cases h) (fun f hf m hm => ?_)
          (fun _ h => by cases h) hnil fun _ h => by simp at h
        rw [List.mem_singleton.mp hf] at hm
        cases hm
    · cases h

theorem onConnRead_inv (hi : Inv s) {n : Nat} {nread : Int} (hst : s.stack = []) (hr : s.reading n = true)
    (ho : (s.client n).st = .opened) : Inv (onConnRead s n nread) := by
  have hn := hi.reading n hr ho
  have hnil : ∀ {r : List Frame} (f : Frame), f ∈ s.stack → f ∈ r := fun f hf => by rw [hst] at hf; cases hf
  unfold onConnRead
  rw [hi.reads_conn hn]
  split
  · exact callUser_inv hi (fun _ h => by cases h) (fun _ h => by cases h) hnil fun _ h => by cases h
  · split
    · exact hi
    · refine callUser_inv hi (fun f hf m hm => ?_) (fun _ h => by cases h) hnil fun _ h => by simp at h
      rw [List.mem_singleton.mp hf] at hm
      cases hm
      exact hn

theorem onClosed_inv (hi : Inv s) {n : Nat} (hst : s.stack = []) (hq : n ∉ s.inflight) : Inv (onClosed s n) := by
  unfold onClosed
  split
  · rename_i hn
    rw [hi.reads_conn hn]
    -- the connection's session is closed, and its frame to remove it is on the stack
    have hne : ∀ {m}, m ≠ n → Function.update s.client n (s.client n).finish m = s.client m :=
      fun e => Function.update_of_ne e _ _
    refine { hi with
      phase := hi.phase.keep rfl rfl rfl rfl rfl rfl fun _ => ⟨rfl, fun m _ hc => update_closing (fun _ => rfl) hc⟩
      fresh := fun m hm => ?_
      frames := fun f hf m hm => ?_
      bottom := fun f hf => ?_
      closed := fun m hm hc => ?_
      removing := fun m hm => ?_
      inflight := fun m hm => ?_
      reading := fun m hm ho => ?_ }
    · by_cases e : m = n
      · rw [e] at hm; simp [callUser] at hm
      · simp only [callUser, hne e] at hm; exact hi.fresh m hm
    · rcases List.mem_cons.mp hf with rfl | hf
      · cases hm
      · rw [List.mem_singleton.mp hf] at hm; cases hm; exact hn
    · have hf : f ∈ [Frame.user (.onClose n)] := hf
      rw [List.mem_singleton.mp hf]; rfl
    · by_cases e : m = n
      · rw [e]; exact List.mem_cons_of_mem _ (List.mem_singleton.mpr rfl)
      · simp only [callUser, hne e] at hc
        have := hi.closed m hm hc
        rw [hst] at this; cases this
    · have hm : Frame.remove m ∈ [.user (.onClose n), .remove n] := hm
      have e : m = n := by simpa using hm
      simp [callUser, e]
    · have e : m ≠ n := by intro heq; subst heq; exact hq hm
      simp only [callUser, hne e]
      exact hi.inflight m hm
    · by_cases e : m = n
      · rw [e]; exact hn
      · simp only [callUser, hne e] at ho; exact hi.reading m hm ho
  · rename_i hn
    exact client_inv hi hn (by simp) fun _ => by simp

/-! ## The server's handles -/

theorem ownClosed_inv (hi : Inv s) {o : Own} (h : onOwnClosed s o = some s') : Inv s' := by
  -- none of them is closing before close_handle
  have hkeep : ∀ {t : St}, (Up s → False) → (Down s → Down t) → t.isClosing = s.isClosing →
      t.closePending = s.closePending → t.closer = s.closer → Phase t t.closer := by
    intro t hup hdown h1 h2 h3
    have hp := hi.phase
    cases hc : s.closer <;> rw [hc] at hp
    · exact (hup hp.1).elim
    · exact (hup hp.1).elim
    · exact (hup hp.1).elim
    · rw [h3, hc]
      rcases hp.2 with ⟨hu, -⟩ | ⟨hd, hpend⟩
      · exact (hup hu).elim
      · exact ⟨h1 ▸ hp.1, .inr ⟨hdown hd, h2 ▸ hpend⟩⟩
  cases o with
  | listen =>
    simp only [onOwnClosed] at h
    split at h <;> cases h
    rename_i hc
    exact { hi with
      phase := hkeep (fun hu => by rw [hu.listen] at hc; cases hc) (fun hd => { hd with listen := rfl }) rfl rfl rfl }
  | asyncSend =>
    simp only [onOwnClosed] at h
    split at h <;> cases h
    rename_i hc
    exact { hi with
      phase := hkeep (fun hu => by rw [hu.asyncSend] at hc; cases hc) (fun hd => { hd with asyncSend := rfl }) rfl rfl rfl }
  | asyncClose =>
    simp only [onOwnClosed] at h
    split at h <;> cases h
    rename_i hc
    exact { hi with
      phase := hkeep (fun hu => by rw [hu.asyncClose] at hc; cases hc) (fun hd => { hd with asyncClose := rfl }) rfl rfl rfl }

/-- tcp_server_conn_close over a list of connections. -/
theorem foldl_connClose (l : List Nat) (hl : l.Nodup) (s : St) :
    l.foldl connClose s =
      { s with reading := fun n => if n ∈ l then false else s.reading n,
               client := fun n => if n ∈ l then (s.client n).closeOnce else s.client n } := by
  induction l generalizing s with
  | nil => simp
  | cons m l ih =>
    obtain ⟨hm, hl⟩ := List.nodup_cons.mp hl
    rw [List.foldl_cons, ih hl]
    simp only [connClose]
    congr 1
    · funext n
      by_cases e : n = m
      · subst e; simp [hm]
      · simp [e]
    · funext n
      by_cases e : n = m
      · subst e; simp [hm]
      · simp [e]

theorem closeHandle_eq (hn : s.sessions.Nodup) :
    closeHandle s =
      { s with listen := s.listen.closeOnce, asyncSend := s.asyncSend.close, asyncClose := s.asyncClose.close,
               frees := if s.sessions = [] then s.frees + 1 else s.frees,
               reading := fun n => if n ∈ s.sessions then false else s.reading n,
               client := fun n => if n ∈ s.sessions then (s.client n).closeOnce else s.client n } := by
  unfold closeHandle closeSessions
  split
  · rename_i he
    have he : s.sessions = [] := he
    simp [he]
  · rw [foldl_connClose _ hn]

/-- close_handle, once the close is requested. -/
theorem closeHandle_inv (hi : Inv s) (hu : Up s) (t : St)
    (ht : t = { s with isClosing := true, closePending := false, closer := .done }) : Inv (closeHandle t) := by
  have hlive : ∀ n ∈ s.sessions, (s.client n).st ≠ .absent := fun n hn h => (hi.fresh n h).1 hn
  rw [closeHandle_eq (by rw [ht]; exact hi.nodup), ht]
  refine { hi with
    phase := ⟨rfl, .inr ⟨⟨Handle.closeOnce_isClosing (by rw [hu.listen]; simp), Handle.close_isClosing hu.asyncSend,
      Handle.close_isClosing hu.asyncClose, fun n hn => ?_, ?_⟩, rfl⟩⟩
    fresh := fun n hn => ?_
    closed := fun n hn hc => ?_
    removing := fun n hn => ?_
    inflight := fun n hn => ?_
    reading := fun n hn ho => ?_ }
  · have hn : n ∈ s.sessions := hn
    simp only [if_pos hn]
    exact Handle.closeOnce_isClosing (hlive n hn)
  · simp only [hu.frees]
  · simp only at hn
    split at hn
    · rename_i hm; exact absurd (Handle.closeOnce_absent.mp hn) (hlive n hm)
    · rename_i hm
      obtain ⟨h1, h2, h3⟩ := hi.fresh n hn
      exact ⟨h1, h2, by simp only [if_neg hm, h3]⟩
  · have hn' : n ∈ s.sessions := hn
    simp only [if_pos hn', Handle.closeOnce_closed] at hc
    exact hi.closed n hn' hc
  · simp only [if_pos (hi.frames _ hn n rfl), Handle.closeOnce_closed]
    exact hi.removing n hn
  · obtain ⟨h1, h2⟩ := hi.inflight n hn
    refine ⟨h1, ?_⟩
    simp only [if_pos h1, ne_eq, Handle.closeOnce_closed]
    exact h2
  · simp only at hn ho
    split at hn
    · cases hn
    · rename_i hm
      simp only [if_neg hm] at ho
      exact hi.reading n hn ho

/-! ## Going on -/

/-- What stands under a frame that is not user code or send_data's: nothing. -/
theorem Inv.under (hi : Inv s) {f : Frame} {r : List Frame} (hst : s.stack = f :: r) (hf : f.nested = false) : r = [] := by
  cases r with
  | nil => rfl
  | cons g r =>
    have := hi.bottom f (by rw [hst]; exact List.mem_cons_self)
    rw [hf] at this; cases this

/-- What on_close_connection leaves of the phase when it removes connection `n`. -/
theorem remove_phase (hi : Inv s) {n : Nat} {r : List Frame} (hst : s.stack = .remove n :: r)
    (hg : orderly s .goOn = true) (hn : n ∈ s.sessions) {t : St} (h1 : t.listen = s.listen)
    (h2 : t.asyncSend = s.asyncSend) (h3 : t.asyncClose = s.asyncClose) (h4 : t.isClosing = s.isClosing)
    (h5 : t.closePending = s.closePending) (h6 : t.sessions = s.sessions.erase n)
    (h7 : ∀ m, (t.client m).isClosing = (s.client m).isClosing)
    (h8 : t.frees = if s.isClosing = true ∧ s.sessions.erase n = [] then s.frees + 1 else s.frees) :
    Phase t s.closer := by
  have hg : ¬ (s.isClosing = true ∧ s.listen.st = .opened ∧ s.sessions.erase n = []) := by
    intro hd
    obtain ⟨h1, h2, h3⟩ := hd
    simp [orderly, hst, h1, h2, h3] at hg
  -- before close_handle: is_closing is not set, or a session is left
  have hup : Up s → Up t := fun hu => by
    refine ⟨h1 ▸ hu.listen, h2 ▸ hu.asyncSend, h3 ▸ hu.asyncClose, ?_⟩
    rw [h8, if_neg fun h => hg ⟨h.1, hu.listen, h.2⟩]
    exact hu.frees
  have hdown : Down s → s.isClosing = true → Down t := fun hd hc => by
    refine ⟨h1 ▸ hd.listen, h2 ▸ hd.asyncSend, h3 ▸ hd.asyncClose, fun m hm => ?_, ?_⟩
    · rw [h7]
      exact hd.clients m (List.mem_of_mem_erase (h6 ▸ hm))
    · have : s.frees = 0 := hi.frees_eq hn
      rw [h8, h6, this]
      by_cases he : s.sessions.erase n = []
      · rw [if_pos ⟨hc, he⟩, if_pos he]
      · rw [if_neg fun h => he h.2, if_neg he]
  have hp := hi.phase
  cases hc : s.closer <;> rw [hc] at hp
  · exact ⟨hup hp.1, h4 ▸ hp.2.1, h5 ▸ hp.2.2⟩
  · exact ⟨hup hp.1, h4 ▸ hp.2.1, h5 ▸ hp.2.2⟩
  · exact ⟨hup hp.1, h4 ▸ hp.2.1, h5 ▸ hp.2.2⟩
  · refine ⟨h4 ▸ hp.1, ?_⟩
    rcases hp.2 with ⟨hu, hpend⟩ | ⟨hd, hpend⟩
    · exact .inl ⟨hup hu, h5 ▸ hpend⟩
    · exact .inr ⟨hdown hd hp.1, h5 ▸ hpend⟩

theorem remove_eq (n : Nat) :
    remove s n =
      { s with sessions := s.sessions.erase n, connCount := s.connCount - 1,
               client := Function.update s.client n (s.client n).free,
               connFrees := Function.update s.connFrees n (s.connFrees n + 1),
               frees := if s.isClosing = true ∧ s.sessions.erase n = [] then s.frees + 1 else s.frees } := by
  unfold remove
  simp only
  split
  · rfl
  · rfl

/-- on_close_connection removes connection `n` and frees it, and the server when its time has come. -/
theorem remove_inv (hi : Inv s) {n : Nat} {r : List Frame} (hst : s.stack = .remove n :: r)
    (hg : orderly s .goOn = true) : Inv { remove s n with stack := r } := by
  have hn := hi.frames (.remove n) (by rw [hst]; exact List.mem_cons_self) n rfl
  have hcn := hi.removing n (by rw [hst]; exact List.mem_cons_self)
  have hr := hi.under hst rfl
  subst hr
  have hmem : ∀ m, m ∈ s.sessions.erase n ↔ m ≠ n ∧ m ∈ s.sessions := fun m => hi.nodup.mem_erase_iff
  have hst' : ∀ m, (Function.update s.client n (s.client n).free m).st = (s.client m).st := fun m => by
    by_cases e : m = n
    · subst e; rw [Function.update_self]; rfl
    · rw [Function.update_of_ne e]
  have hcl : ∀ m, (Function.update s.client n (s.client n).free m).isClosing = (s.client m).isClosing := fun m => by
    simp only [Handle.isClosing, hst']
  rw [remove_eq]
  exact
    { phase := remove_phase hi hst hg hn rfl rfl rfl rfl rfl rfl hcl rfl
      nodup := hi.nodup.erase n
      alive := fun m hm => by
        obtain ⟨h1, h2⟩ := (hmem m).mp hm
        exact (Function.update_of_ne h1 _ _).trans (hi.alive m h2)
      fresh := fun m hm => by
        obtain ⟨h1, h2, h3⟩ := hi.fresh m ((hst' m).symm.trans hm)
        have e : m ≠ n := by intro heq; subst heq; exact h1 hn
        exact ⟨fun h => h1 ((hmem m).mp h).2, (Function.update_of_ne e _ _).trans h2, h3⟩
      frames := fun f hf => by cases hf
      bottom := fun f hf => by cases hf
      closed := fun m hm hc => by
        obtain ⟨h1, h2⟩ := (hmem m).mp hm
        have := hi.closed m h2 ((hst' m).symm.trans hc)
        rw [hst, List.mem_singleton] at this
        cases this; exact absurd rfl h1
      removing := fun m hm => by cases hm
      inflight := fun m hm => by
        obtain ⟨h1, h2⟩ := hi.inflight m hm
        exact ⟨(hmem m).mpr ⟨by intro heq; subst heq; exact h2 hcn, h1⟩, fun h => h2 ((hst' m).symm.trans h)⟩
      reading := fun m hm ho => by
        have ho := (hst' m).symm.trans ho
        have e : m ≠ n := fun e => by rw [e, hcn] at ho; cases ho
        exact (hmem m).mpr ⟨e, hi.reading m hm ho⟩
      uaf := hi.uaf }

/-- A client is closed behind the test, and perhaps no longer read. -/
theorem closeOnce_inv (hi : Inv s) (n : Nat) {rd : Nat → Bool} (hrd : ∀ m, rd m = true → s.reading m = true) :
    Inv { s with client := Function.update s.client n (s.client n).closeOnce, reading := rd } := by
  have habs : ∀ m, (Function.update s.client n (s.client n).closeOnce m).st = .absent ↔ (s.client m).st = .absent :=
    fun m => by
      by_cases e : m = n
      · subst e; rw [Function.update_self]; exact Handle.closeOnce_absent
      · rw [Function.update_of_ne e]
  have hcl : ∀ m, (Function.update s.client n (s.client n).closeOnce m).st = .closed ↔ (s.client m).st = .closed :=
    fun m => by
      by_cases e : m = n
      · subst e; rw [Function.update_self]; exact Handle.closeOnce_closed
      · rw [Function.update_of_ne e]
  exact { hi with
    phase := hi.phase.keep rfl rfl rfl rfl rfl rfl fun _ => ⟨rfl, fun m _ h => update_closing
      (fun h => by rw [Handle.closeOnce, if_pos h]; exact h) h⟩
    fresh := fun m hm => by
      obtain ⟨h1, h2, h3⟩ := hi.fresh m ((habs m).mp hm)
      refine ⟨h1, h2, ?_⟩
      cases hr : rd m with
      | false => exact hr
      | true => rw [hrd m hr] at h3; cases h3
    closed := fun m hm hc => hi.closed m hm ((hcl m).mp hc)
    removing := fun m hm => (hcl m).mpr (hi.removing m hm)
    inflight := fun m hm => ⟨(hi.inflight m hm).1, fun h => (hi.inflight m hm).2 ((hcl m).mp h)⟩
    reading := fun m hm ho => by
      by_cases e : m = n
      · subst e; simp only [Function.update_self] at ho; exact absurd ho Handle.closeOnce_opened
      · simp only [Function.update_of_ne e] at ho; exact hi.reading m (hrd m hm) ho }

theorem goOn_inv (hi : Inv s) (hg : orderly s .goOn = true) (h : goOn s = some s') : Inv s' := by
  unfold goOn at h
  split at h
  · rename_i n r hst
    cases h
    have h1 := pop_inv hi hst (by simp) s.log
    have hn := hi.frames (.readStart n) (by rw [hst]; exact List.mem_cons_self) n rfl
    exact { h1 with
      phase := h1.phase.keep rfl rfl rfl rfl rfl rfl fun _ => ⟨rfl, fun _ _ h => h⟩
      fresh := fun m hm => by
        obtain ⟨h2, h3, h4⟩ := hi.fresh m hm
        exact ⟨h2, h3, (Function.update_of_ne (by intro heq; subst heq; exact h2 hn) _ _).trans h4⟩
      reading := fun m hm ho => by
        by_cases e : m = n
        · rw [e]; exact hn
        · simp only [Function.update_of_ne e] at hm; exact hi.reading m hm ho }
  · rename_i n r hst
    cases h
    exact closeOnce_inv (pop_inv hi hst (by simp) s.log) n fun _ h => h
  · rename_i n r hst
    have hn := hi.frames (.readError n) (by rw [hst]; exact List.mem_cons_self) n rfl
    rw [hi.reads_conn hn] at h
    cases h
    refine closeOnce_inv (pop_inv hi hst (by simp) s.log) n fun m hm => ?_
    have hm : Function.update s.reading n false m = true := hm
    by_cases e : m = n
    · rw [e, Function.update_self] at hm; cases hm
    · rw [Function.update_of_ne e] at hm; exact hm
  · rename_i n r hst
    have hn := hi.frames (.remove n) (by rw [hst]; exact List.mem_cons_self) n rfl
    rw [hi.reads_conn hn] at h
    cases h
    exact remove_inv hi hst hg
  · rename_i n r hst
    have hn := hi.frames (.sendFailed n) (by rw [hst]; exact List.mem_cons_self) n rfl
    rw [hi.reads_conn hn] at h
    cases h
    exact pop_inv hi hst (by simp) s.log
  · cases h

/-! ## Runs -/

theorem sendData_inv (hi : Inv s) {n : Nat} {malloc : Bool} (hn : n ∈ s.sessions) :
    Inv (sendData s n malloc) := by
  unfold sendData
  rw [hi.reads_conn hn]
  split
  · refine { hi with
      phase := hi.phase.keep rfl rfl rfl rfl rfl rfl fun _ => ⟨rfl, fun _ _ h => h⟩
      inflight := fun m hm => ?_ }
    simp only at hm
    split at hm
    · rename_i ho
      rcases List.mem_append.mp hm with hm | hm
      · exact hi.inflight m hm
      · rw [List.mem_singleton.mp hm]
        exact ⟨hn, by rw [ho]; simp⟩
    · exact hi.inflight m hm
  · refine callUser_inv hi (fun f hf m hm => ?_) (fun f hf => ?_) (fun f hf => List.mem_cons_of_mem _ hf) fun m hm => ?_
    · rcases List.mem_cons.mp hf with rfl | hf
      · cases hm; exact hn
      · exact hi.frames f hf m hm
    · cases hst : s.stack with
      | nil => rw [hst] at hf; cases hf
      | cons g r =>
        rw [hst] at hf
        rcases List.mem_cons.mp hf with rfl | hf
        · rfl
        · exact hi.bottom f (by rw [hst]; exact hf)
    · rcases List.mem_cons.mp hm with hm | hm
      · cases hm
      · exact hm

theorem closerStep_inv (hi : Inv s) (h : closerStep s = some s') : Inv s' := by
  have hp := hi.phase
  have hreads : Up s → ∀ t, reads s true none t = t := fun hu t => reads_eq (fun _ => hu.frees) fun m h => by cases h
  unfold closerStep at h
  cases hc : s.closer with
  | idle =>
    rw [hc] at h hp
    simp only [hreads hp.1, Option.some.injEq] at h
    rw [← h]
    exact { hi with phase := ⟨⟨hp.1.listen, hp.1.asyncSend, hp.1.asyncClose, hp.1.frees⟩, rfl, hp.2.2⟩ }
  | compare =>
    rw [hc] at h hp
    simp only [hreads hp.1, Option.some.injEq] at h
    rw [← h]
    exact { hi with phase := ⟨⟨hp.1.listen, hp.1.asyncSend, hp.1.asyncClose, hp.1.frees⟩, hp.2⟩ }
  | notify =>
    rw [hc] at h hp
    simp only [hreads hp.1, Option.some.injEq] at h
    rw [← h]
    exact { hi with
      phase := ⟨hp.2.1, .inl ⟨⟨hp.1.listen, hp.1.asyncSend, hp.1.asyncClose, hp.1.frees⟩, rfl⟩⟩ }
  | done => rw [hc] at h; cases h

theorem step_inv (hi : Inv s) {e : Ev} (hg : orderly s e = true) (h : step s e = some s') : Inv s' := by
  unfold step at h
  rw [if_neg (by simp [hi.uaf])] at h
  cases e with
  | newConnection a =>
    simp only at h
    split at h
    · rename_i hc; exact onNewConnection_inv hi hc.1 hc.2 h
    · cases h
  | read n nread =>
    simp only at h
    split at h <;> cases h
    rename_i hc; exact onConnRead_inv hi hc.1 hc.2.1 hc.2.2
  | written i =>
    simp only at h
    split at h
    · cases hq : s.inflight[i]? with
      | none => rw [hq] at h; cases h
      | some n =>
        rw [hq, Option.map_some, hi.reads_conn (hi.inflight n (List.mem_of_getElem? hq)).1] at h
        cases h
        exact { hi with
          phase := hi.phase.keep rfl rfl rfl rfl rfl rfl fun _ => ⟨rfl, fun _ _ h => h⟩
          inflight := fun m hm => hi.inflight m (List.mem_of_mem_eraseIdx hm) }
    · cases h
  | closed n =>
    simp only at h
    split at h <;> cases h
    rename_i hc; exact onClosed_inv hi hc.1 hc.2.2
  | ownClosed o =>
    simp only at h
    split at h
    · exact ownClosed_inv hi h
    · cases h
  | asyncClose =>
    simp only at h
    split at h
    · rename_i hc
      have hu := hi.phase.up (.inr hc.2.2)
      rw [reads_eq (fun _ => hu.frees) fun m h => by cases h] at h
      cases h
      have hp := hi.phase
      cases hcl : s.closer <;> rw [hcl] at hp
      · rw [hp.2.2] at hc; cases hc.2.1
      · rw [hp.2.2] at hc; cases hc.2.1
      · rw [hp.2.2] at hc; cases hc.2.1
      · exact closeHandle_inv hi hu _ (by rw [← hp.1, ← hcl])
    · cases h
  | goOn => exact goOn_inv hi hg h
  | ret =>
    simp only at h
    split at h
    · rename_i cb r hst; cases h; exact pop_inv hi hst (by simp) _
    · cases h
  | send n malloc =>
    simp only at h
    split at h <;> cases h
    rename_i hc; exact sendData_inv hi hc.2
  | close =>
    simp only at h
    split at h
    · rename_i hc
      have hp := hi.phase
      rw [hc.2] at hp
      rw [reads_eq (fun _ => hp.1.frees) fun m h => by cases h] at h
      cases h
      exact closeHandle_inv hi hp.1 _ (by rw [← hp.2.2])
    · cases h
  | closer => exact closerStep_inv hi h

theorem reach_inv (hr : Reach step (fun s e => orderly s e = true) init s) : Inv s :=
  hr.invariant init_inv fun _ _ _ hi hg h => step_inv hi hg h

end UvWrapper.Net.ServerLife
