/-
  UvWrapper.Net.ClientClose — the release of a client: what tcp_client_run allocated is
  freed once, the session after libuv is done with it, and nobody reads the client or
  its session afterwards.

  close_handle frees at once when uv_is_closing holds of the session, and that test
  does not tell closing from closed. Proved: as long as close_handle finds the session open,
  or closed with no failed send waiting underneath (`orderly`), the release is right in every
  state (`client_released`). A close in the loop iteration of a disconnect breaks it
  (`closed_while_closing`).
-/

import UvWrapper.Net.ClientLife

namespace UvWrapper.Net.ClientLife

open UvWrapper.Lib UvWrapper.Lib.Trace

/-! ## What the release promises -/

/-- The close is through, and the loop has nothing left to call back. -/
structure Drained (s : St) : Prop where
  closer : s.closer = .done
  pending : s.closePending = false
  stack : s.stack = []
  session : s.session.st ≠ .closing
  asyncSend : s.asyncSend.st ≠ .closing
  asyncClose : s.asyncClose.st ≠ .closing

def freed (s : St) : List Nat := [s.frees, s.session.frees, s.reqFrees, s.asyncSend.frees, s.asyncClose.frees]

structure Released (s : St) : Prop where
  once : ∀ n ∈ freed s, n ≤ 1
  after : 0 < s.session.frees → s.session.st = .closed
  uaf : s.uaf = false
  all : Drained s → ∀ n ∈ freed s, n = 1

/-- close_handle, past on_conn_close, finds the session open, or closed and no send_data to return to. -/
def orderly (s : St) : Ev → Bool
  | .goOn =>
    match s.stack with
    | .closing :: r => s.session.st == .opened || (s.session.st == .closed && !r.contains .sendFailed)
    | _ => true
  | _ => true

/-! ## The invariant -/

/-- Before close_handle is past on_conn_close. -/
structure Up (s : St) : Prop where
  asyncSend : s.asyncSend = Handle.opened
  asyncClose : s.asyncClose = Handle.opened
  frees : s.frees = 0
  reqFrees : s.reqFrees = 0
  sessionFrees : s.session.frees = 0
  sessionCb : s.sessionCb = false
  session : s.session.st ≠ .absent

structure Down (s : St) : Prop where
  asyncSend : s.asyncSend.OnItsWay
  asyncClose : s.asyncClose.OnItsWay
  session : (s.session.st = .closing ∧ s.sessionCb = true ∧ s.session.frees = 0 ∧ s.frees = 0 ∧ s.reqFrees = 0) ∨
    (s.session.st = .closed ∧ s.session.frees = 1 ∧ s.frees = 1 ∧ s.reqFrees = 1)

def Phase (s : St) : Closer → Prop
  | .idle | .notify => Up s ∧ s.closePending = false ∧ s.stack.count .closing = 0
  | .done => (Up s ∧ s.closePending = true ∧ s.stack.count .closing = 0) ∨
      (Up s ∧ s.closePending = false ∧ s.stack.count .closing = 1) ∨
      (Down s ∧ s.closePending = false ∧ s.stack.count .closing = 0)

/-- A frame under which the session's close phase cannot come. -/
def Frame.inUse : Frame → Bool
  | .connected | .readError | .written => true
  | _ => false

def Frame.isUser : Frame → Bool
  | .user _ => true
  | _ => false

structure Inv (s : St) : Prop where
  phase : Phase s s.closer
  inUse : s.session.st = .closed → ∀ f ∈ s.stack, f.inUse = false
  gone : s.frees ≠ 0 → ∀ f ∈ s.stack, f.isUser = true
  uaf : s.uaf = false

theorem init_inv (connecting : Bool) : Inv (init connecting) where
  phase := ⟨⟨rfl, rfl, rfl, rfl, rfl, rfl, by simp [init]⟩, rfl, rfl⟩
  inUse := fun _ _ h => by cases h
  gone := fun _ _ h => by cases h
  uaf := rfl

variable {s s' : St}

/-- The phase, without where the request is. -/
theorem Inv.upOrDown (hi : Inv s) : Up s ∨ Down s := by
  have hp := hi.phase
  cases hc : s.closer <;> rw [hc] at hp
  · exact .inl hp.1
  · exact .inl hp.1
  · rcases hp with ⟨hu, -⟩ | ⟨hu, -⟩ | ⟨hd, -⟩
    · exact .inl hu
    · exact .inl hu
    · exact .inr hd

theorem Inv.session_frees (hi : Inv s) (h : s.frees = 0) : s.session.frees = 0 := by
  rcases hi.upOrDown with hu | hd
  · exact hu.sessionFrees
  · rcases hd.session with hs | hs
    · exact hs.2.2.1
    · rw [hs.2.2.1] at h; cases h

theorem Inv.alive (hi : Inv s) (h : s.session.st ≠ .closed) : s.frees = 0 := by
  rcases hi.upOrDown with hu | hd
  · exact hu.frees
  · rcases hd.session with hs | hs
    · exact hs.2.2.2.1
    · exact absurd hs.1 h

theorem Inv.reads_eq (hi : Inv s) (h : s.frees = 0) (t : St) : reads s t = t := by
  unfold reads
  rw [if_neg]
  intro hf
  rcases hf with hf | hf
  · exact hf h
  · exact hf (hi.session_frees h)

/-- A frame that is not user code keeps the client. -/
theorem Inv.alive_of_frame (hi : Inv s) {f : Frame} (hf : f ∈ s.stack) (hu : f.isUser = false) : s.frees = 0 := by
  by_contra h
  rw [hi.gone h f hf] at hu
  cases hu

theorem Phase.keep {c : Closer} (h : Phase s c) (hup : Up s → Up s') (hdown : Down s → Down s')
    (hpend : s'.closePending = s.closePending) (hcount : s'.stack.count .closing = s.stack.count .closing) :
    Phase s' c := by
  cases c with
  | idle => exact ⟨hup h.1, hpend ▸ h.2.1, hcount ▸ h.2.2⟩
  | notify => exact ⟨hup h.1, hpend ▸ h.2.1, hcount ▸ h.2.2⟩
  | done =>
    rcases h with ⟨hu, h1, h2⟩ | ⟨hu, h1, h2⟩ | ⟨hd, h1, h2⟩
    · exact .inl ⟨hup hu, hpend ▸ h1, hcount ▸ h2⟩
    · exact .inr (.inl ⟨hup hu, hpend ▸ h1, hcount ▸ h2⟩)
    · exact .inr (.inr ⟨hdown hd, hpend ▸ h1, hcount ▸ h2⟩)

/-! ## User callbacks -/

/-- The stack changes, and nothing the phase looks at besides. -/
theorem stack_inv (hi : Inv s) {st : List Frame} {l : List Mark} (hc : st.count .closing = s.stack.count .closing)
    (hin : s.session.st = .closed → ∀ f ∈ st, f.inUse = false) (hg : s.frees ≠ 0 → ∀ f ∈ st, f.isUser = true) :
    Inv { s with stack := st, log := l } :=
  { hi with
    phase := hi.phase.keep (fun hu => { hu with }) (fun hd => { hd with }) rfl hc
    inUse := hin
    gone := hg }

theorem callUser_inv (hi : Inv s) (hst : s.stack = []) (ha : s.frees = 0) {cb : Cb} {r : List Frame}
    (hr : r.count .closing = 0) (hin : s.session.st = .closed → r = []) : Inv (callUser s cb r) := by
  refine stack_inv hi (by simp [hst, hr]) (fun hc f hf => ?_) fun hg => absurd ha hg
  rw [hin hc] at hf
  rw [List.mem_singleton.mp hf]; rfl

theorem pop_inv (hi : Inv s) {f : Frame} {r : List Frame} (hst : s.stack = f :: r) (hf : f ≠ .closing) (l : List Mark) :
    Inv { s with stack := r, log := l } := by
  have hmem : ∀ g ∈ r, g ∈ s.stack := fun g hg => by rw [hst]; exact List.mem_cons_of_mem _ hg
  refine stack_inv hi ?_ (fun hc g hg => hi.inUse hc g (hmem g hg)) fun hne g hg => hi.gone hne g (hmem g hg)
  rw [hst, List.count_cons_of_ne hf]

/-- Fields that the invariant does not look at. -/
theorem frame_inv (hi : Inv s) (conn rd : Bool) (w : Nat) : Inv { s with connecting := conn, reading := rd, writes := w } :=
  { hi with phase := hi.phase.keep (fun hu => { hu with }) (fun hd => { hd with }) rfl rfl }

/-! ## The close -/

/-- close_handle is called, and calls on_conn_close. -/
theorem closeHandle_inv (hi : Inv s) (hu : Up s) (hc : s.stack.count .closing = 0) (t : St)
    (ht : t = { s with closePending := false, closer := .done }) : Inv (closeHandle t) := by
  have ha : t.frees = 0 := by rw [ht]; exact hu.frees
  have hs : t.session.frees = 0 := by rw [ht]; exact hu.sessionFrees
  unfold closeHandle reads
  rw [if_neg (by rw [ha, hs]; simp), ht]
  refine { hi with
    phase := .inr (.inl ⟨{ hu with }, rfl, ?_⟩)
    inUse := fun h f hf => ?_
    gone := fun h => absurd hu.frees h }
  · show (Frame.user .onClose :: .closing :: s.stack).count .closing = 1
    rw [List.count_cons_of_ne (by simp), List.count_cons_self, hc]
  · rcases List.mem_cons.mp hf with rfl | hf
    · rfl
    · rcases List.mem_cons.mp hf with rfl | hf
      · rfl
      · exact hi.inUse h f hf

/-- ... and goes on after it: the one frame of it in the stack is done. -/
theorem closing_inv (hi : Inv s) {r : List Frame} (hst : s.stack = .closing :: r) (hg : orderly s .goOn = true) :
    Inv (closing s r) := by
  have hmem : ∀ f ∈ r, f ∈ s.stack := fun f hf => by rw [hst]; exact List.mem_cons_of_mem _ hf
  have hcount : s.stack.count .closing = r.count .closing + 1 := by rw [hst, List.count_cons_self]
  obtain ⟨hcl, hu, hpend, hone⟩ : s.closer = .done ∧ Up s ∧ s.closePending = false ∧ r.count .closing = 0 := by
    have hp := hi.phase
    cases hcl : s.closer <;> rw [hcl] at hp
    · have := hp.2.2; omega
    · have := hp.2.2; omega
    · rcases hp with ⟨-, -, h⟩ | ⟨hu, h1, h2⟩ | ⟨-, -, h⟩
      · omega
      · exact ⟨rfl, hu, h1, by omega⟩
      · omega
  unfold closing
  simp only [orderly, hst, Bool.or_eq_true, Bool.and_eq_true, beq_iff_eq, Bool.not_eq_true'] at hg
  rcases hg with ho | ⟨hclosed, hfail⟩
  · rw [if_neg (by rw [Handle.not_closing_of_opened ho]; simp)]
    refine { phase := ?_, inUse := fun h => ?_, gone := fun h => absurd hu.frees h, uaf := hi.uaf }
    · show Phase _ s.closer
      rw [hcl]
      refine .inr (.inr
        ⟨⟨hu.asyncSend ▸ Handle.close_onItsWay, hu.asyncClose ▸ Handle.close_onItsWay, .inl ?_⟩, hpend, hone⟩)
      exact ⟨Handle.close_st ho, rfl, hu.sessionFrees, hu.frees, hu.reqFrees⟩
    · have h : s.session.close.st = .closed := h
      rw [Handle.close_closed, ho] at h; cases h
  · rw [if_pos (by simp [Handle.isClosing, hclosed])]
    refine { phase := ?_, inUse := fun h f hf => hi.inUse hclosed f (hmem f hf), gone := fun _ f hf => ?_, uaf := hi.uaf }
    · show Phase _ s.closer
      rw [hcl]
      refine .inr (.inr ⟨⟨hu.asyncSend ▸ Handle.close_onItsWay, hu.asyncClose ▸ Handle.close_onItsWay,
        .inr ⟨hclosed, ?_, ?_, ?_⟩⟩, hpend, hone⟩)
      · show s.session.frees + 1 = 1
        rw [hu.sessionFrees]
      · show s.frees + 1 = 1
        rw [hu.frees]
      · show s.reqFrees + 1 = 1
        rw [hu.reqFrees]
    · -- what is left under it is user code
      have hf : f ∈ r := hf
      have h1 := hi.inUse hclosed f (hmem f hf)
      have h2 : f ≠ .closing := by intro heq; subst heq; exact absurd (List.count_pos_iff.mpr hf) (by omega)
      have h3 : f ≠ .sendFailed := by intro heq; subst heq; simp at hfail; exact hfail hf
      cases f <;> simp_all [Frame.inUse, Frame.isUser]

/-- The session leaves the close phase, with on_close_connection for its callback or none. -/
theorem onClosed_inv (hi : Inv s) (hst : s.stack = []) (hc : s.session.st = .closing) : Inv (onClosed s) := by
  have ha := hi.alive (by rw [hc]; simp)
  have hnil : ∀ {p : Frame → Prop}, ∀ f ∈ s.stack, p f := fun f hf => by rw [hst] at hf; cases hf
  unfold onClosed
  split
  · rename_i hcb
    rw [hi.reads_eq ha]
    refine { phase := ?_, inUse := fun _ => hnil, gone := fun _ => hnil, uaf := hi.uaf }
    refine hi.phase.keep (fun hu => ?_) (fun hd => ⟨hd.asyncSend, hd.asyncClose, ?_⟩) rfl rfl
    · rw [hu.sessionCb] at hcb; cases hcb
    · rcases hd.session with ⟨-, -, h3, h4, h5⟩ | ⟨h, -⟩
      · refine .inr ⟨rfl, ?_, ?_, ?_⟩
        · show s.session.frees + 1 = 1
          rw [h3]
        · show s.frees + 1 = 1
          rw [h4]
        · show s.reqFrees + 1 = 1
          rw [h5]
      · rw [hc] at h; cases h
  · rename_i hcb
    refine { hi with phase := ?_, inUse := fun _ => hnil }
    refine hi.phase.keep (fun hu => { hu with sessionFrees := hu.sessionFrees, session := by simp })
      (fun hd => ?_) rfl rfl
    rcases hd.session with ⟨-, h, -⟩ | ⟨h, -⟩
    · exact absurd h hcb
    · rw [hc] at h; cases h

/-! ## Runs -/

theorem goOn_inv (hi : Inv s) (hg : orderly s .goOn = true) (h : goOn s = some s') : Inv s' := by
  unfold goOn at h
  split at h
  · rename_i r hst
    rw [hi.reads_eq (hi.alive_of_frame (f := .connected) (by rw [hst]; exact List.mem_cons_self) rfl)] at h
    cases h
    exact frame_inv (pop_inv hi hst (by simp) s.log) s.connecting _ s.writes
  · rename_i r hst
    rw [hi.reads_eq (hi.alive_of_frame (f := .readError) (by rw [hst]; exact List.mem_cons_self) rfl)] at h
    cases h
    have h1 := pop_inv hi hst (by simp) s.log
    have hf : s.session.closeOnce.frees = s.session.frees := by unfold Handle.closeOnce; split <;> rfl
    refine { h1 with phase := ?_, inUse := fun hc => h1.inUse (Handle.closeOnce_closed.mp hc) }
    refine h1.phase.keep (fun hu => { hu with sessionFrees := hf.trans hu.sessionFrees, session := ?_ })
      (fun hd => { hd with session := ?_ }) rfl rfl
    · exact fun h => hu.session (Handle.closeOnce_absent.mp h)
    · have he : s.session.closeOnce = s.session := by
        rw [Handle.closeOnce, if_pos]
        have h : s.session.st = .closing ∨ s.session.st = .closed := hd.session.imp And.left And.left
        rcases h with h | h <;> simp [Handle.isClosing, h]
      show (s.session.closeOnce.st = _ ∧ _ ∧ s.session.closeOnce.frees = _ ∧ _) ∨ _
      rw [he]
      exact hd.session
  · rename_i r hst
    rw [hi.reads_eq (hi.alive_of_frame (f := .written) (by rw [hst]; exact List.mem_cons_self) rfl)] at h
    cases h
    exact pop_inv hi hst (by simp) s.log
  · rename_i r hst
    rw [hi.reads_eq (hi.alive_of_frame (f := .closing) (by rw [hst]; exact List.mem_cons_self) rfl)] at h
    cases h
    exact closing_inv hi hst hg
  · rename_i r hst
    rw [hi.reads_eq (hi.alive_of_frame (f := .sendFailed) (by rw [hst]; exact List.mem_cons_self) rfl)] at h
    cases h
    exact pop_inv hi hst (by simp) s.log
  · cases h

theorem onConnect_inv (hi : Inv s) {status : Int} (hst : s.stack = []) (hc : s.session.st ≠ .closed) :
    Inv (onConnect s status) := by
  unfold onConnect
  rw [hi.reads_eq (hi.alive hc)]
  have h1 := frame_inv hi false s.reading s.writes
  split
  · exact callUser_inv h1 hst (hi.alive hc) rfl fun h => absurd h hc
  · exact callUser_inv h1 hst (hi.alive hc) rfl fun _ => rfl

theorem onRead_inv (hi : Inv s) {nread : Int} (hst : s.stack = []) (ho : s.session.st = .opened) : Inv (onRead s nread) := by
  have hc : s.session.st ≠ .closed := by rw [ho]; simp
  unfold onRead
  rw [hi.reads_eq (hi.alive hc)]
  split
  · exact callUser_inv hi hst (hi.alive hc) rfl fun _ => rfl
  · split
    · exact hi
    · exact callUser_inv hi hst (hi.alive hc) rfl fun h => absurd h hc

theorem sendData_inv (hi : Inv s) {malloc : Bool} (ha : s.frees = 0) : Inv (sendData s malloc) := by
  unfold sendData
  rw [hi.reads_eq ha]
  split
  · exact frame_inv hi s.connecting s.reading _
  · refine stack_inv hi (by simp) (fun hc f hf => ?_) fun h => absurd ha h
    rcases List.mem_cons.mp hf with rfl | hf
    · rfl
    · rcases List.mem_cons.mp hf with rfl | hf
      · rfl
      · exact hi.inUse hc f hf

theorem closerStep_inv (hi : Inv s) (h : closerStep s = some s') : Inv s' := by
  have hp := hi.phase
  unfold closerStep at h
  cases hc : s.closer with
  | idle =>
    rw [hc] at h hp
    simp only [hi.reads_eq hp.1.frees, Option.some.injEq] at h
    rw [← h]
    exact { hi with phase := ⟨{ hp.1 with }, hp.2⟩ }
  | notify =>
    rw [hc] at h hp
    simp only [hi.reads_eq hp.1.frees, Option.some.injEq] at h
    rw [← h]
    exact { hi with phase := .inl ⟨{ hp.1 with }, rfl, hp.2.2⟩ }
  | done => rw [hc] at h; cases h

/-- One of the client's own handles is closed: that is after close_handle. -/
theorem ownClosed_inv (hi : Inv s) {a b : Handle} (ha : a = s.asyncSend ∨ (s.asyncSend.st = .closing ∧ a = s.asyncSend.finish.free))
    (hb : b = s.asyncClose ∨ (s.asyncClose.st = .closing ∧ b = s.asyncClose.finish.free)) :
    Inv { s with asyncSend := a, asyncClose := b } := by
  have hway : ∀ {h h' : Handle}, h.OnItsWay → h' = h ∨ (h.st = .closing ∧ h' = h.finish.free) → h'.OnItsWay := by
    intro h h' hw he
    rcases he with rfl | ⟨hc, rfl⟩
    · exact hw
    · exact hw.finish hc
  have hup : ∀ {h h' : Handle}, h = Handle.opened → h' = h ∨ (h.st = .closing ∧ h' = h.finish.free) →
      h' = Handle.opened := by
    intro h h' ho he
    rcases he with rfl | ⟨hc, -⟩
    · exact ho
    · rw [ho] at hc; cases hc
  exact { hi with
    phase := hi.phase.keep (fun hu => { hu with asyncSend := hup hu.asyncSend ha, asyncClose := hup hu.asyncClose hb })
      (fun hd => { hd with asyncSend := hway hd.asyncSend ha, asyncClose := hway hd.asyncClose hb }) rfl rfl }

theorem step_inv (hi : Inv s) {e : Ev} (hg : orderly s e = true) (h : step s e = some s') : Inv s' := by
  unfold step at h
  rw [if_neg (by simp [hi.uaf])] at h
  cases e with
  | connect status =>
    simp only at h
    split at h <;> cases h
    rename_i hc; exact onConnect_inv hi hc.1 hc.2.2.1
  | read nread =>
    simp only at h
    split at h <;> cases h
    rename_i hc; exact onRead_inv hi hc.1 hc.2.2
  | written =>
    simp only at h
    split at h
    · rename_i hc
      have ha := hi.alive hc.2.2
      rw [hi.reads_eq ha] at h
      cases h
      have h1 := frame_inv hi s.connecting s.reading (s.writes - 1)
      exact callUser_inv h1 hc.1 ha (r := [.written]) rfl fun h => absurd h hc.2.2
    · cases h
  | closed =>
    simp only at h
    split at h <;> cases h
    rename_i hc; exact onClosed_inv hi hc.1 hc.2.1
  | asyncSendClosed =>
    simp only at h
    split at h <;> cases h
    rename_i hc; exact ownClosed_inv hi (.inr ⟨hc.2, rfl⟩) (.inl rfl)
  | asyncCloseClosed =>
    simp only at h
    split at h <;> cases h
    rename_i hc; exact ownClosed_inv hi (.inl rfl) (.inr ⟨hc.2, rfl⟩)
  | asyncClose =>
    simp only at h
    split at h <;> cases h
    rename_i hc
    have hp := hi.phase
    cases hcl : s.closer <;> rw [hcl] at hp
    · rw [hp.2.1] at hc; cases hc.2.1
    · rw [hp.2.1] at hc; cases hc.2.1
    · rcases hp with ⟨hu, -, h0⟩ | ⟨-, h, -⟩ | ⟨-, h, -⟩
      · exact closeHandle_inv hi hu h0 _ (by rw [← hcl])
      · rw [h] at hc; cases hc.2.1
      · rw [h] at hc; cases hc.2.1
  | goOn => exact goOn_inv hi hg h
  | ret =>
    simp only at h
    split at h
    · rename_i cb r hst; cases h; exact pop_inv hi hst (by simp) _
    · cases h
  | send malloc =>
    simp only at h
    split at h <;> cases h
    rename_i hc; exact sendData_inv hi hc.2
  | close =>
    simp only at h
    split at h <;> cases h
    rename_i hc
    have hp := hi.phase
    rw [hc.2] at hp
    exact closeHandle_inv hi hp.1 hp.2.2 _ (by rw [← hp.2.1])
  | closer => exact closerStep_inv hi h

theorem Inv.released (hi : Inv s) : Released s := by
  refine ⟨fun n hn => ?_, fun h => ?_, hi.uaf, fun hdr n hn => ?_⟩
  · simp only [freed, List.mem_cons, List.not_mem_nil, or_false] at hn
    rcases hi.upOrDown with hu | hd
    · have h1 : s.asyncSend.frees = 0 := by rw [hu.asyncSend]; rfl
      have h2 : s.asyncClose.frees = 0 := by rw [hu.asyncClose]; rfl
      have := hu.frees
      have := hu.reqFrees
      have := hu.sessionFrees
      omega
    · have h1 := hd.asyncSend.frees_le
      have h2 := hd.asyncClose.frees_le
      rcases hd.session with ⟨-, -, h3, h4, h5⟩ | ⟨-, h3, h4, h5⟩ <;> omega
  · rcases hi.upOrDown with hu | hd
    · rw [hu.sessionFrees] at h; cases h
    · rcases hd.session with ⟨-, -, h3, -⟩ | ⟨h3, -⟩
      · rw [h3] at h; cases h
      · exact h3
  · have hd : Down s := by
      have hp := hi.phase
      rw [hdr.closer] at hp
      rcases hp with ⟨-, h, -⟩ | ⟨-, -, h⟩ | ⟨hd, -⟩
      · rw [hdr.pending] at h; cases h
      · rw [hdr.stack] at h; cases h
      · exact hd
    have h1 := hd.asyncSend.frees_eq hdr.asyncSend
    have h2 := hd.asyncClose.frees_eq hdr.asyncClose
    simp only [freed, List.mem_cons, List.not_mem_nil, or_false] at hn
    rcases hd.session with ⟨h, -⟩ | ⟨-, h3, h4, h5⟩
    · exact absurd h hdr.session
    · omega

theorem client_released (connecting : Bool) {s : St}
    (hr : Reach step (fun s e => orderly s e = true) (init connecting) s) : Released s :=
  (hr.invariant (init_inv connecting) fun _ _ _ hi hg h => step_inv hi hg h).released

/-- Disconnected and closed by on_read, and closed by the user once libuv is through with the session. -/
theorem closed_after_disconnect :
    ∃ s, Reach step (fun s e => orderly s e = true) (init true) s ∧ (Drained s ∧ freed s = [1, 1, 1, 1, 1]) ∧
      Released s := by
  obtain ⟨s, hr, h, hf⟩ := reach_of_runIf step orderly (init true)
    (fun s => (s.closer = .done ∧ s.closePending = false ∧ s.stack = [] ∧ s.session.st ≠ .closing ∧
      s.asyncSend.st ≠ .closing ∧ s.asyncClose.st ≠ .closing) ∧ freed s = [1, 1, 1, 1, 1])
    ([.connect 0, .ret, .goOn, .send true, .read (-4095), .ret, .goOn, .written, .ret, .goOn, .closed, .closer,
      .closer, .asyncClose, .ret, .goOn, .asyncSendClosed, .asyncCloseClosed]) ⟨_, rfl, by decide⟩
  exact ⟨s, hr, ⟨⟨h.1, h.2.1, h.2.2.1, h.2.2.2.1, h.2.2.2.2.1, h.2.2.2.2.2⟩, hf⟩, client_released true hr⟩

/-- The disconnect and the close in one loop iteration: the session is freed while libuv has
    it in its close phase. -/
theorem closed_while_closing : ∃ s, Reach step Free (init true) s ∧ ¬ Released s := by
  obtain ⟨s, hr, hf, hc⟩ := reach_of_run step (init true)
    (fun s => s.session.frees = 1 ∧ s.session.st = .closing)
    ([.connect 0, .ret, .goOn, .read (-4095), .ret, .goOn, .close, .ret, .goOn]) ⟨_, rfl, by decide⟩
  refine ⟨s, hr, fun h => ?_⟩
  have := h.after (by omega)
  rw [hc] at this; cases this

end UvWrapper.Net.ClientLife
