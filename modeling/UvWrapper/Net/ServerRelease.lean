/-
  UvWrapper.Net.ServerRelease — what a server that only its loop's thread uses has given
  back once that thread has closed it.

  `Ledger` counts, per handle and per connection, the uv_close calls and the frees. Proved:
  wherever in the run tcp_server_close is called (in any user callback, between events, or by
  tcp_server_run when bind or listen fails), nothing is closed or freed twice or read after it
  was freed, the loop can drain from wherever it is then (`UvWrapper.Net.ServerDrain`), and when it
  has drained everything was closed and freed once (`released_once`).
-/

import UvWrapper.Net.ServerDrain

namespace UvWrapper.Net.ServerLife

open UvWrapper.Lib UvWrapper.Lib.Trace

/-! ## The ledger -/

/-- A handle of the server's own: not closed yet, or closed once and freed with its close callback. -/
def OwnOk (h : Handle) : Prop := h = Handle.opened ∨ (h.closes = 1 ∧ h.OnItsWay)

/-- A client's handle, by how far it got. -/
inductive ClientOk (s : St) (n : Nat) : Prop
  | absent (h : s.client n = Handle.none)
  | opened (h : s.client n = Handle.opened) (hw : n ∈ s.sessions ∨ .refuse n ∈ s.stack)
  | closing (hst : (s.client n).st = .closing) (hc : (s.client n).closes = 1) (hf : (s.client n).frees = 0)
  | closed (hst : (s.client n).st = .closed) (hc : (s.client n).closes = 1)
      (hf : (s.client n).frees = if n ∈ s.sessions then 0 else 1)

/-- `acc`: the connections accepted so far. -/
structure Ledger (acc : List Nat) (s : St) : Prop where
  listen : OwnOk s.listen
  asyncSend : OwnOk s.asyncSend
  asyncClose : OwnOk s.asyncClose
  client : ∀ n, ClientOk s n
  refused : ∀ n, .refuse n ∈ s.stack → (s.client n).st ≠ .absent
  conn : ∀ n, s.connFrees n = if n ∈ acc ∧ n ∉ s.sessions then 1 else 0

theorem init_ledger : Ledger [] init where
  listen := .inl rfl
  asyncSend := .inl rfl
  asyncClose := .inl rfl
  client := fun _ => .absent rfl
  refused := fun _ h => by cases h
  conn := fun _ => rfl

variable {s s' : St} {acc ran : List Nat} {n : Nat}

/-! ## Handles -/

theorem OwnOk.close {h : Handle} (ho : OwnOk h) (hst : h.st = .opened) : OwnOk h.close := by
  rcases ho with rfl | ⟨-, hw⟩
  · exact .inr ⟨rfl, Handle.close_onItsWay⟩
  · exact absurd hst hw.not_opened

theorem OwnOk.closeOnce {h : Handle} (ho : OwnOk h) (hst : h.st = .opened) : OwnOk h.closeOnce := by
  rw [Handle.closeOnce, if_neg (by simp [Handle.not_closing_of_opened hst])]
  exact ho.close hst

theorem OwnOk.finish {h : Handle} (ho : OwnOk h) (hst : h.st = .closing) : OwnOk h.finish.free := by
  rcases ho with rfl | ⟨hc, hw⟩
  · cases hst
  · exact .inr ⟨hc, hw.finish hst⟩

theorem OwnOk.le {h : Handle} (ho : OwnOk h) : h.closes ≤ 1 ∧ h.frees ≤ 1 := by
  rcases ho with rfl | ⟨hc, hw⟩
  · exact ⟨Nat.zero_le _, Nat.zero_le _⟩
  · exact ⟨Nat.le_of_eq hc, hw.frees_le⟩

theorem OwnOk.done {h : Handle} (ho : OwnOk h) (hcl : h.isClosing = true) (hst : h.st ≠ .closing) :
    h.closes = 1 ∧ h.frees = 1 := by
  rcases ho with rfl | ⟨hc, hw⟩
  · cases hcl
  · exact ⟨hc, hw.frees_eq hst⟩

theorem ClientOk.le (ho : ClientOk s n) : (s.client n).closes ≤ 1 ∧ (s.client n).frees ≤ 1 := by
  cases ho with
  | absent h => rw [h]; exact ⟨Nat.zero_le _, Nat.zero_le _⟩
  | opened h => rw [h]; exact ⟨Nat.zero_le _, Nat.zero_le _⟩
  | closing _ hc hf => omega
  | closed _ hc hf => refine ⟨Nat.le_of_eq hc, ?_⟩; rw [hf]; split <;> omega

/-- A step that leaves the client, whether it is a session, and its way to be refused. -/
theorem ClientOk.keep (ho : ClientOk s n) (hc : s'.client n = s.client n) (hs : n ∈ s'.sessions ↔ n ∈ s.sessions)
    (hr : .refuse n ∈ s.stack → .refuse n ∈ s'.stack) : ClientOk s' n := by
  cases ho with
  | absent h => exact .absent (hc.trans h)
  | opened h hw => exact .opened (hc.trans h) (hw.imp hs.mpr hr)
  | closing hst h hf => exact .closing (hc ▸ hst) (hc ▸ h) (hc ▸ hf)
  | closed hst h hf => exact .closed (hc ▸ hst) (hc ▸ h) (by rw [hc, hf]; simp only [hs])

/-- A client that exists is closed behind the test. -/
theorem ClientOk.closeOnce (ho : ClientOk s n) (ha : (s.client n).st ≠ .absent)
    (hc : s'.client n = (s.client n).closeOnce) (hs : n ∈ s'.sessions ↔ n ∈ s.sessions) : ClientOk s' n := by
  have hsame : (s.client n).isClosing = true → s'.client n = s.client n := fun h => by
    rw [hc, Handle.closeOnce, if_pos h]
  cases ho with
  | absent h => rw [h] at ha; exact absurd rfl ha
  | opened h hw => rw [h] at hc; exact .closing (by rw [hc]; rfl) (by rw [hc]; rfl) (by rw [hc]; rfl)
  | closing hst h hf =>
    have e := hsame (by simp [Handle.isClosing, hst])
    exact .closing (e ▸ hst) (e ▸ h) (e ▸ hf)
  | closed hst h hf =>
    have e := hsame (by simp [Handle.isClosing, hst])
    exact .closed (e ▸ hst) (e ▸ h) (by rw [e, hf]; simp only [hs])

/-- The loop is done closing a client; whoever is no session any more is freed with it. -/
theorem ClientOk.finish (ho : ClientOk s n) (hst : (s.client n).st = .closing) {h : Handle}
    (hh : h = if n ∈ s.sessions then (s.client n).finish else (s.client n).finish.free) (hc : s'.client n = h)
    (hs : n ∈ s'.sessions ↔ n ∈ s.sessions) : ClientOk s' n := by
  have hcf : (s.client n).closes = 1 ∧ (s.client n).frees = 0 := by
    cases ho with
    | absent h => rw [h] at hst; cases hst
    | opened h => rw [h] at hst; cases hst
    | closing _ h1 h2 => exact ⟨h1, h2⟩
    | closed h => rw [h] at hst; cases hst
  rw [hh] at hc
  by_cases hn : n ∈ s.sessions
  · rw [if_pos hn] at hc
    exact .closed (by rw [hc]; rfl) (by rw [hc]; exact hcf.1) (by rw [hc, if_pos (hs.mpr hn)]; exact hcf.2)
  · rw [if_neg hn] at hc
    refine .closed (by rw [hc]; rfl) (by rw [hc]; exact hcf.1) ?_
    rw [hc, if_neg fun h => hn (hs.mp h)]
    exact congrArg (· + 1) hcf.2

/-! ## Steps -/

/-- A step that leaves all handles, sessions and connections, and who is on the way to be refused. -/
theorem Ledger.same (hl : Ledger acc s) (h1 : s'.listen = s.listen) (h2 : s'.asyncSend = s.asyncSend)
    (h3 : s'.asyncClose = s.asyncClose) (h4 : s'.client = s.client) (h5 : s'.sessions = s.sessions)
    (h6 : s'.connFrees = s.connFrees) (hr : ∀ n, .refuse n ∈ s'.stack ↔ .refuse n ∈ s.stack) : Ledger acc s' where
  listen := h1 ▸ hl.listen
  asyncSend := h2 ▸ hl.asyncSend
  asyncClose := h3 ▸ hl.asyncClose
  client := fun n => (hl.client n).keep (by rw [h4]) (by rw [h5]) (hr n).mpr
  refused := fun n hn => by rw [h4]; exact hl.refused n ((hr n).mp hn)
  conn := fun n => by rw [h6, h5]; exact hl.conn n

theorem closeHandle_ledger (hl : Ledger acc s) (hi : Inv s) (hu : Up s) {t : St}
    (ht : t = { s with closePending := false } ∨ t = { s with isClosing := true, closer := .done }) :
    Ledger acc (closeHandle t) := by
  have hn : t.sessions.Nodup := by rcases ht with rfl | rfl <;> exact hi.nodup
  have hlt : Ledger acc t := by
    rcases ht with rfl | rfl <;> exact hl.same rfl rfl rfl rfl rfl rfl fun _ => Iff.rfl
  have hut : t.listen = s.listen ∧ t.asyncSend = s.asyncSend ∧ t.asyncClose = s.asyncClose ∧ t.sessions = s.sessions ∧
      t.client = s.client := by rcases ht with rfl | rfl <;> exact ⟨rfl, rfl, rfl, rfl, rfl⟩
  obtain ⟨h1, h2, h3, h4, h5⟩ := hut
  rw [closeHandle_eq hn]
  refine ⟨hlt.listen.closeOnce (by rw [h1, hu.listen]), hlt.asyncSend.close (by rw [h2, hu.asyncSend]),
    hlt.asyncClose.close (by rw [h3, hu.asyncClose]), fun n => ?_, fun n hr ha => ?_, hlt.conn⟩
  · by_cases hm : n ∈ t.sessions
    · refine (hlt.client n).closeOnce (fun ha => ?_) (if_pos hm) Iff.rfl
      rw [h5] at ha
      exact (hi.fresh n ha).1 (h4 ▸ hm)
    · exact (hlt.client n).keep (if_neg hm) Iff.rfl fun h => h
  · refine hlt.refused n hr ?_
    simp only at ha
    split at ha
    · exact Handle.closeOnce_absent.mp ha
    · exact ha

/-- A new client, which may become connection `n`. -/
theorem newClient_ledger (hl : Ledger acc s) (ha : Accounted acc ran s) (hst : s.stack = []) (hn : (s.client n).st = .absent)
    (hns : n ∉ s.sessions) (accepted : Bool) (h1 : s'.listen = s.listen) (h2 : s'.asyncSend = s.asyncSend)
    (h3 : s'.asyncClose = s.asyncClose) (h4 : s'.client = Function.update s.client n Handle.opened)
    (h5 : s'.sessions = if accepted then s.sessions ++ [n] else s.sessions) (h6 : s'.connFrees = s.connFrees)
    (hr : ∀ m, .refuse m ∈ s'.stack ↔ m = n ∧ accepted = false) : Ledger (if accepted then acc ++ [n] else acc) s' := by
  have hacc : n ∉ acc := fun hm => ha.known n hm hn
  have hmem : ∀ m, m ≠ n → (m ∈ s'.sessions ↔ m ∈ s.sessions) := fun m hm => by
    rw [h5]; cases accepted <;> simp [hm]
  have hnew : n ∈ s'.sessions ↔ accepted = true := by rw [h5]; cases accepted <;> simp [hns]
  refine ⟨h1 ▸ hl.listen, h2 ▸ hl.asyncSend, h3 ▸ hl.asyncClose, fun m => ?_, fun m hm => ?_, fun m => ?_⟩
  · by_cases e : m = n
    · subst e
      refine .opened (by rw [h4, Function.update_self]) ?_
      cases accepted with
      | true => exact .inl (hnew.mpr rfl)
      | false => exact .inr ((hr m).mpr ⟨rfl, rfl⟩)
    · exact (hl.client m).keep (by rw [h4, Function.update_of_ne e]) (hmem m e) fun h => by rw [hst] at h; cases h
  · rw [((hr m).mp hm).1, h4, Function.update_self]
    simp
  · have hc := hl.conn m
    rw [h6, hc]
    by_cases e : m = n
    · subst e
      cases accepted <;> simp [hacc, hnew]
    · cases accepted <;> simp [hmem m e, e]

theorem onNewConnection_ledger (hi : Inv s) (ha : Accounted acc ran s) (hl : Ledger acc s) {a : Accept}
    (hst : s.stack = []) (ho : s.listen.st = .opened) (h : onNewConnection s a = some s') :
    Ledger (acc ++ (Ev.newConnection a).accepted?.toList) s' := by
  have hup := hi.phase.up (.inl ho)
  have hreads : ∀ t, reads s true none t = t := fun t => reads_eq (fun _ => hup.frees) fun m h => by cases h
  cases a with
  | client n accepted =>
    simp only [onNewConnection, hreads] at h
    split at h
    · rename_i hn
      cases h
      have hns := (hi.fresh n hn).1
      cases accepted with
      | true => exact newClient_ledger hl ha hst hn hns true rfl rfl rfl rfl rfl rfl fun m => by simp [callUser]
      | false =>
        have h1 : Ledger acc
            (callUser { s with client := Function.update s.client n Handle.opened } (.onError none) [.refuse n]) :=
          newClient_ledger hl ha hst hn hns false rfl rfl rfl rfl rfl rfl fun m => by simp [callUser]
        exact (List.append_nil acc).symm ▸ h1
    · cases h
  | _ =>
    simp only [onNewConnection, hreads, Option.some.injEq] at h
    subst h
    exact (List.append_nil acc).symm ▸ hl.same rfl rfl rfl rfl rfl rfl fun m => by simp [callUser, hst]

theorem onClosed_ledger (hi : Inv s) (hl : Ledger acc s) (hst : s.stack = []) (hc : (s.client n).st = .closing) :
    Ledger acc (onClosed s n) := by
  have hne : ∀ {m : Nat} {h : Handle}, m ≠ n → Function.update s.client n h m = s.client m := fun e =>
    Function.update_of_ne e _ _
  unfold onClosed
  split
  · rename_i hn
    rw [hi.reads_conn hn]
    refine ⟨hl.listen, hl.asyncSend, hl.asyncClose, fun m => ?_, fun m hm => by simp [callUser] at hm, hl.conn⟩
    by_cases e : m = n
    · subst e
      exact (hl.client m).finish hc (if_pos hn).symm (Function.update_self ..) Iff.rfl
    · exact (hl.client m).keep (hne e) Iff.rfl fun h => by rw [hst] at h; cases h
  · rename_i hn
    refine ⟨hl.listen, hl.asyncSend, hl.asyncClose, fun m => ?_, fun m hm => (by rw [hst] at hm; cases hm),
      hl.conn⟩
    by_cases e : m = n
    · subst e
      exact (hl.client m).finish hc (if_neg hn).symm (Function.update_self ..) Iff.rfl
    · exact (hl.client m).keep (hne e) Iff.rfl fun h => h

/-- on_close_connection gives connection `n` and its session back. -/
theorem remove_ledger (hi : Inv s) (ha : Accounted acc ran s) (hl : Ledger acc s) {r : List Frame}
    (hst : s.stack = .remove n :: r) : Ledger acc { remove s n with stack := r } := by
  have hn := hi.frames (.remove n) (by rw [hst]; exact List.mem_cons_self) n rfl
  have hcn := hi.removing n (by rw [hst]; exact List.mem_cons_self)
  have hr := hi.under hst rfl
  subst hr
  have hmem : ∀ m, m ≠ n → (m ∈ s.sessions.erase n ↔ m ∈ s.sessions) := fun m e => by
    rw [hi.nodup.mem_erase_iff]; simp [e]
  have hnot : n ∉ s.sessions.erase n := fun h => (hi.nodup.mem_erase_iff.mp h).1 rfl
  rw [remove_eq]
  refine ⟨hl.listen, hl.asyncSend, hl.asyncClose, fun m => ?_, fun m hm => (by cases hm), fun m => ?_⟩
  · by_cases e : m = n
    · subst e
      have hcl := hl.client m
      cases hcl with
      | closed _ hc hf =>
        refine .closed (by simp [hcn]) (by simp [Handle.free, hc]) ?_
        rw [if_neg hnot]
        simp [Handle.free, hf, hn]
      | absent h => rw [h] at hcn; cases hcn
      | opened h => rw [h] at hcn; cases hcn
      | closing h => rw [h] at hcn; cases hcn
    · refine (hl.client m).keep (Function.update_of_ne e _ _) (hmem m e) fun h => ?_
      rw [hst] at h; simp at h
  · by_cases e : m = n
    · subst e
      simp [hnot, (ha.mem.mp hn).1, hi.alive m hn]
    · simp only [Function.update_of_ne e, hmem m e]
      exact hl.conn m

/-- A client is closed behind the test, and a frame is popped: its own if it is to be refused. -/
theorem closeOnce_ledger (hl : Ledger acc s) {f : Frame} {r : List Frame} (hst : s.stack = f :: r)
    (hf : ∀ m, m ≠ n → f ≠ .refuse m) (hr : .refuse n ∉ r) (hn : (s.client n).st ≠ .absent) (rd : Nat → Bool) :
    Ledger acc { s with client := Function.update s.client n (s.client n).closeOnce, reading := rd, stack := r } := by
  refine ⟨hl.listen, hl.asyncSend, hl.asyncClose, fun m => ?_, fun m hm => ?_, hl.conn⟩
  · by_cases e : m = n
    · subst e
      exact (hl.client m).closeOnce hn (Function.update_self ..) Iff.rfl
    · refine (hl.client m).keep (Function.update_of_ne e _ _) Iff.rfl fun h => ?_
      rw [hst] at h
      exact (List.mem_cons.mp h).resolve_left fun h => hf m e h.symm
  · have hm : Frame.refuse m ∈ r := hm
    have e : m ≠ n := fun e => hr (e ▸ hm)
    simp only [Function.update_of_ne e]
    exact hl.refused m (by rw [hst]; exact List.mem_cons_of_mem _ hm)

theorem goOn_ledger (hi : Inv s) (ha : Accounted acc ran s) (hl : Ledger acc s) (h : goOn s = some s') :
    Ledger acc s' := by
  unfold goOn at h
  split at h
  · rename_i n r hst; cases h; exact hl.same rfl rfl rfl rfl rfl rfl fun m => by simp [hst]
  · rename_i n r hst
    cases h
    have hr := hi.under hst rfl
    subst hr
    exact closeOnce_ledger hl hst (fun m e => by simp [Ne.symm e]) List.not_mem_nil
      (hl.refused n (by rw [hst]; exact List.mem_cons_self)) _
  · rename_i n r hst
    have hn := hi.frames (.readError n) (by rw [hst]; exact List.mem_cons_self) n rfl
    have hr := hi.under hst rfl
    subst hr
    rw [hi.reads_conn hn] at h
    cases h
    exact closeOnce_ledger hl hst (fun m _ => by simp) List.not_mem_nil (fun h => (hi.fresh n h).1 hn) _
  · rename_i n r hst
    rw [hi.reads_conn (hi.frames (.remove n) (by rw [hst]; exact List.mem_cons_self) n rfl)] at h
    cases h
    exact remove_ledger hi ha hl hst
  · rename_i n r hst
    rw [hi.reads_conn (hi.frames (.sendFailed n) (by rw [hst]; exact List.mem_cons_self) n rfl)] at h
    cases h
    exact hl.same rfl rfl rfl rfl rfl rfl fun m => by simp [hst]
  · cases h

theorem closerStep_ledger (hi : Inv s) (hl : Ledger acc s) (h : closerStep s = some s') : Ledger acc s' := by
  have hp := hi.phase
  have hreads : Up s → ∀ t, reads s true none t = t := fun hu t => reads_eq (fun _ => hu.frees) fun m h => by cases h
  unfold closerStep at h
  cases hc : s.closer with
  | done => rw [hc] at h; cases h
  | _ =>
    rw [hc] at h hp
    simp only [hreads hp.1, Option.some.injEq] at h
    subst h
    exact hl.same rfl rfl rfl rfl rfl rfl fun _ => Iff.rfl

theorem step_ledger (hi : Inv s) (ha : Accounted acc ran s) (hl : Ledger acc s) {e : Ev} (h : step s e = some s') :
    Ledger (acc ++ e.accepted?.toList) s' := by
  unfold step at h
  rw [if_neg (by simp [hi.uaf])] at h
  cases e with
  | newConnection a =>
    simp only at h
    split at h
    · rename_i hc; exact onNewConnection_ledger hi ha hl hc.1 hc.2 h
    · cases h
  | read n nread =>
    simp only at h
    split at h <;> cases h
    rename_i hc
    have hn := hi.reading n hc.2.1 hc.2.2
    show Ledger (acc ++ []) _
    rw [List.append_nil, onConnRead, hi.reads_conn hn]
    split
    · exact hl.same rfl rfl rfl rfl rfl rfl fun m => by simp [callUser, hc.1]
    · split
      · exact hl
      · exact hl.same rfl rfl rfl rfl rfl rfl fun m => by simp [callUser, hc.1]
  | written i =>
    simp only at h
    split at h
    · cases hq : s.inflight[i]? with
      | none => rw [hq] at h; cases h
      | some n =>
        rw [hq, Option.map_some, hi.reads_conn (hi.inflight n (List.mem_of_getElem? hq)).1] at h
        cases h
        exact (List.append_nil acc).symm ▸ hl.same rfl rfl rfl rfl rfl rfl fun _ => Iff.rfl
    · cases h
  | closed n =>
    simp only at h
    split at h <;> cases h
    rename_i hc; exact (List.append_nil acc).symm ▸ onClosed_ledger hi hl hc.1 hc.2.1
  | ownClosed o =>
    simp only at h
    split at h
    · have hclient : ∀ {t : St}, t.client = s.client → t.sessions = s.sessions → t.stack = s.stack →
          ∀ n, ClientOk t n := fun h1 h2 h3 n => (hl.client n).keep (by rw [h1]) (by rw [h2]) fun h => h3 ▸ h
      show Ledger (acc ++ []) _
      rw [List.append_nil]
      cases o with
      | listen =>
        simp only [onOwnClosed] at h
        split at h <;> cases h
        rename_i hc; exact { hl with listen := hl.listen.finish hc, client := hclient rfl rfl rfl }
      | asyncSend =>
        simp only [onOwnClosed] at h
        split at h <;> cases h
        rename_i hc; exact { hl with asyncSend := hl.asyncSend.finish hc, client := hclient rfl rfl rfl }
      | asyncClose =>
        simp only [onOwnClosed] at h
        split at h <;> cases h
        rename_i hc; exact { hl with asyncClose := hl.asyncClose.finish hc, client := hclient rfl rfl rfl }
    · cases h
  | asyncClose =>
    simp only at h
    split at h
    · rename_i hc
      have hu := hi.phase.up (.inr hc.2.2)
      rw [reads_eq (fun _ => hu.frees) fun m h => by cases h] at h
      cases h
      exact (List.append_nil acc).symm ▸ closeHandle_ledger hl hi hu (.inl rfl)
    · cases h
  | goOn => exact (List.append_nil acc).symm ▸ goOn_ledger hi ha hl h
  | ret =>
    simp only at h
    split at h
    · rename_i cb r hst
      cases h
      exact (List.append_nil acc).symm ▸ hl.same rfl rfl rfl rfl rfl rfl fun m => by simp [hst]
    · cases h
  | send n malloc =>
    simp only at h
    split at h <;> cases h
    rename_i hc
    show Ledger (acc ++ []) _
    rw [List.append_nil, sendData, hi.reads_conn hc.2]
    split
    · exact hl.same rfl rfl rfl rfl rfl rfl fun _ => Iff.rfl
    · exact hl.same rfl rfl rfl rfl rfl rfl fun m => by simp [callUser]
  | close =>
    simp only at h
    split at h
    · rename_i hc
      have hp := hi.phase
      rw [hc.2] at hp
      rw [reads_eq (fun _ => hp.1.frees) fun m h => by cases h] at h
      cases h
      exact (List.append_nil acc).symm ▸ closeHandle_ledger hl hi hp.1 (.inr rfl)
    · cases h
  | closer => exact (List.append_nil acc).symm ▸ closerStep_ledger hi hl h

end UvWrapper.Net.ServerLife

namespace UvWrapper.Net.ServerSendAll

open UvWrapper.Lib UvWrapper.Lib.Trace UvWrapper.Net.ServerLife

/-! ## Everything is given back -/

variable {s : St}

def Once (h : Handle) : Prop := h.closes = 1 ∧ h.frees = 1

def AtMostOnce (h : Handle) : Prop := h.closes ≤ 1 ∧ h.frees ≤ 1

structure ReleasedOnce (es : List Ev) (s : St) : Prop where
  uaf : s.life.uaf = false
  /-- The connections that close_handle and a broadcast walk over are not freed. -/
  alive : ∀ n ∈ s.life.sessions, s.life.connFrees n = 0
  handles : AtMostOnce s.life.listen ∧ AtMostOnce s.life.asyncSend ∧ AtMostOnce s.life.asyncClose ∧
    ∀ n, AtMostOnce (s.life.client n)
  memory : s.life.frees ≤ 1 ∧ ∀ n, s.life.connFrees n ≤ 1
  drained : LoopDrained s → Once s.life.listen ∧ Once s.life.asyncSend ∧ Once s.life.asyncClose ∧
    (∀ n, (s.life.client n).st ≠ .absent → Once (s.life.client n)) ∧ s.life.frees = 1 ∧
    ∀ n ∈ accepted es, s.life.connFrees n = 1
  drains : s.life.closer = .done → ∃ fs t, (∀ f ∈ fs, Ev.due f = true) ∧ run step s fs = some t ∧ LoopDrained t

theorem ledger {bind listen : Int} {es : List Ev} (h : run step (tcpServerRun bind listen) es = some s) :
    Ledger (accepted es) s.life := by
  refine run_induction (P := fun es s => Ledger (accepted es) s.life) ?_ (fun es s e s' hr hl h => ?_) h
  · exact tcpServerRun_cases init_ledger (fun l h => step_ledger ServerLife.init_inv init_accounted init_ledger h) bind listen
  · have hk := kept hr
    rw [accepted_snoc]
    rcases step_life hk.inv h with ⟨f, -, hf, h1, -⟩ | ⟨he, h1, -⟩
    · rw [← h1]; exact step_ledger hk.inv.life hk.accounted hl hf
    · rw [h1, he]
      simpa using hl

/-- A drained loop has no session left, and no client that is still open. -/
theorem LoopDrained.clients_done (hd : LoopDrained s) (hi : Inv s) {acc : List Nat} (hl : Ledger acc s.life) :
    s.life.sessions = [] ∧ ∀ n, (s.life.client n).st ≠ .absent → Once (s.life.client n) := by
  have hdr : Drained s.life := ⟨hd.closed, hi.alone.pending, hd.stack, hd.clients⟩
  have hrel := hi.life.released
  have hnil : s.life.sessions = [] := (hrel.after (by rw [hrel.freed hdr]; exact Nat.one_pos)).2.2.2
  refine ⟨hnil, fun n hn => ?_⟩
  cases hl.client n with
  | absent h => rw [h] at hn; exact absurd rfl hn
  | opened _ hw =>
    rw [hnil, hd.stack] at hw
    rcases hw with hw | hw <;> cases hw
  | closing h => exact absurd h (hd.clients n)
  | closed _ hc hf => exact ⟨hc, by rw [hf, hnil, if_neg List.not_mem_nil]⟩

theorem released_once (bind listen : Int) {es : List Ev} (h : run step (tcpServerRun bind listen) es = some s) :
    ReleasedOnce es s := by
  have hi := (kept h).inv
  have hl := ledger h
  have hrel := hi.life.released
  refine ⟨hi.life.uaf, hi.life.alive, ⟨hl.listen.le, hl.asyncSend.le, hl.asyncClose.le, fun n => (hl.client n).le⟩,
    ⟨hrel.once, fun n => ?_⟩, fun hd => ?_, drains h⟩
  · rw [hl.conn n]; split <;> omega
  · obtain ⟨hnil, hclients⟩ := hd.clients_done hi hl
    have hdr : Drained s.life := ⟨hd.closed, hi.alone.pending, hd.stack, hd.clients⟩
    have hdown := hi.life.down (.inr hdr)
    refine ⟨hl.listen.done hdown.listen hd.listen, hl.asyncSend.done hdown.asyncSend hd.asyncSend,
      hl.asyncClose.done hdown.asyncClose hd.asyncClose, hclients, hrel.freed hdr, fun n hn => ?_⟩
    rw [hl.conn n, if_pos ⟨hn, by rw [hnil]; exact List.not_mem_nil⟩]

def refusing : List Ev :=
  [.life (.newConnection (.client 1 true)), .life .ret, .life .goOn, .life (.newConnection (.client 2 true)), .life .ret,
    .life .goOn, .life (.read 1 (-4095)), .life .ret, .life .goOn, .life (.newConnection (.client 3 false)), .life .close,
    .life .ret, .life .goOn, .life (.closed 2), .life .ret, .life .goOn, .life (.closed 3), .life (.ownClosed .listen),
    .life (.ownClosed .asyncSend), .life (.ownClosed .asyncClose), .life (.closed 1), .life .ret, .life .goOn]

/-- The server is closed in on_conn_error for a client that was refused, with one connection open and
    another already closing, and the loop drains. -/
theorem closed_while_refusing : ∃ s, run step (tcpServerRun 0 0) refusing = some s ∧ LoopDrained s ∧
    (Once s.life.listen ∧ Once s.life.asyncSend ∧ Once s.life.asyncClose ∧ s.life.frees = 1 ∧
      (∀ n ∈ [1, 2, 3], Once (s.life.client n)) ∧ ∀ n ∈ [1, 2], s.life.connFrees n = 1) ∧ ReleasedOnce refusing s := by
  obtain ⟨s, h, hc, ho, hm, honce⟩ : ∃ s, run step (tcpServerRun 0 0) refusing = some s ∧
      (s.life.closer = .done ∧ s.life.stack = []) ∧
      (s.life.listen.st ≠ .closing ∧ s.life.asyncSend.st ≠ .closing ∧ s.life.asyncClose.st ≠ .closing) ∧
      (∀ n ∈ made refusing, (s.life.client n).st ≠ .closing) ∧
      Once s.life.listen ∧ Once s.life.asyncSend ∧ Once s.life.asyncClose ∧ s.life.frees = 1 ∧
        (∀ n ∈ [1, 2, 3], Once (s.life.client n)) ∧ ∀ n ∈ [1, 2], s.life.connFrees n = 1 :=
    ⟨_, rfl, by unfold Once; decide⟩
  exact ⟨s, h, loopDrained_of_made 0 0 h hc ho hm, honce, released_once 0 0 h⟩

end UvWrapper.Net.ServerSendAll
