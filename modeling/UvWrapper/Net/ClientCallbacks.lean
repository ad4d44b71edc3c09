/-
  UvWrapper.Net.ClientCallbacks — the callbacks of one connection attempt, as the client's user sees
  them (see `UvWrapper.Net.ClientLife`).

  on_conn_close is raised by on_read at a read error, and by close_handle whatever happened before.
  Proved, for runs in which the client is closed between events or by another thread, and sends find
  memory: on_conn_open and on_conn_close come at most once, on_conn_close only after on_conn_open,
  after it no on_read, on_conn_open or on_conn_error, and they balance once close_handle has run, if
  and only if close_handle always finds the session open and being read (`callbacks_iff`). A close
  after a disconnect, or before the connect completes, breaks it (`unbalanced`).
-/

import UvWrapper.Net.ClientLife

namespace UvWrapper.Net.ClientCallbacks

open UvWrapper.Lib UvWrapper.Lib.Trace UvWrapper.Net.ClientLife

/-! ## What the user is to see -/

structure Calls (log : List Mark) : Prop where
  opened : log.count (.start .onOpen) ≤ 1
  closed : log.count (.start .onClose) ≤ 1
  first : .start .onClose ∈ log → After log (.start .onOpen) (.start .onClose)
  last : ∀ cb, cb = .onRead ∨ cb = .onOpen ∨ cb = .onError → ¬ After log (.start .onClose) (.start cb)

def unclosed (s : St) : Prop := s.closer ≠ .done ∨ s.closePending = true

structure Balanced (s : St) : Prop where
  calls : Calls s.log
  balance : ¬ unclosed s → s.log.count (.start .onOpen) = s.log.count (.start .onClose)

/-- The close comes between events, and sends have memory. -/
def inScope (s : St) : Ev → Bool
  | .close => s.stack.isEmpty
  | .send malloc => malloc
  | _ => true

def callStep (s : St) (e : Ev) : Option St := if inScope s e then step s e else none

/-- close_handle finds the session open and being read. -/
def connected (s : St) : Ev → Bool
  | .close | .asyncClose => s.reading && s.session.st == .opened
  | _ => true

variable {s s' : St} {log : List Mark}

/-! ## One more callback -/

theorem calls_open (hc : Calls log) (ho : .start .onOpen ∉ log) (hn : .start .onClose ∉ log) :
    Calls (log ++ [.start .onOpen]) := by
  refine ⟨?_, ?_, fun h => ?_, fun cb hcb h => ?_⟩
  · rw [count_snoc, List.count_eq_zero_of_not_mem ho]; simp
  · rw [count_snoc]; simpa using hc.closed
  · rcases List.mem_append.mp h with h | h
    · exact absurd h hn
    · simp at h
  · rcases after_snoc.mp h with h | ⟨-, h⟩
    · exact hc.last cb hcb h
    · exact hn h

theorem calls_close (hc : Calls log) (ho : .start .onOpen ∈ log) (hn : .start .onClose ∉ log) :
    Calls (log ++ [.start .onClose]) := by
  refine ⟨?_, ?_, fun _ => after_snoc.mpr (.inr ⟨rfl, ho⟩), fun cb hcb h => ?_⟩
  · rw [count_snoc]; simpa using hc.opened
  · rw [count_snoc, List.count_eq_zero_of_not_mem hn]; simp
  · rcases after_snoc.mp h with h | ⟨-, h⟩
    · exact hc.last cb hcb h
    · exact hn h

/-- A mark that is neither, and no on_read or on_conn_error after on_conn_close. -/
theorem calls_other (hc : Calls log) {m : Mark} (ho : m ≠ .start .onOpen) (hcl : m ≠ .start .onClose)
    (hn : m = .start .onRead ∨ m = .start .onError → .start .onClose ∉ log) : Calls (log ++ [m]) := by
  refine ⟨?_, ?_, fun h => ?_, fun cb hcb h => ?_⟩
  · rw [count_snoc, if_neg ho]; exact hc.opened
  · rw [count_snoc, if_neg hcl]; exact hc.closed
  · rcases List.mem_append.mp h with h | h
    · exact after_snoc.mpr (.inl (hc.first h))
    · exact absurd (List.mem_singleton.mp h).symm hcl
  · rcases after_snoc.mp h with h | ⟨e, hmem⟩
    · exact hc.last cb hcb h
    · rcases hcb with rfl | rfl | rfl
      · exact hn (.inl e.symm) hmem
      · exact ho e.symm
      · exact hn (.inr e.symm) hmem

/-! ## The invariant -/

/-- Frames that say nothing of the connection. -/
def quiet : Frame → Bool
  | .user _ | .written | .sendFailed => true
  | _ => false

inductive Phase (s : St) : Prop
  /-- Before the connect has succeeded, or after it has failed. -/
  | before : .start .onOpen ∉ s.log → .start .onClose ∉ s.log → s.reading = false → s.session.st = .opened →
      (∀ f ∈ s.stack, quiet f = true) → Phase s
  | opening : s.connecting = false → .start .onOpen ∈ s.log → .start .onClose ∉ s.log → s.session.st = .opened →
      s.stack = [.user .onOpen, .connected] ∨ s.stack = [.connected] → Phase s
  | reading : s.connecting = false → .start .onOpen ∈ s.log → .start .onClose ∉ s.log → s.reading = true →
      s.session.st = .opened → (∀ f ∈ s.stack, quiet f = true) → Phase s
  | closing (f : Frame) : s.connecting = false → .start .onClose ∈ s.log → f = .readError ∨ f = .closing →
      s.stack = [.user .onClose, f] ∨ s.stack = [f] → Phase s
  | closed : s.connecting = false → .start .onClose ∈ s.log → s.session.st ≠ .opened →
      (∀ f ∈ s.stack, quiet f = true) → Phase s

structure Inv (s : St) : Prop where
  calls : Calls s.log
  phase : Phase s
  pending : .start .onClose ∉ s.log → unclosed s
  alive : unclosed s → s.frees = 0 ∧ s.session.frees = 0 ∧ s.sessionCb = false ∧ .closing ∉ s.stack
  request : s.closePending = true → s.closer = .done

theorem init_inv (connecting : Bool) : Inv (init connecting) where
  calls := by
    refine ⟨by simp [init], by simp [init], fun h => ?_, fun cb _ h => ?_⟩
    · exact absurd h List.not_mem_nil
    · exact absurd h.mem.1 List.not_mem_nil
  phase := .before List.not_mem_nil List.not_mem_nil rfl rfl fun _ h => absurd h List.not_mem_nil
  pending := fun _ => .inl (by simp [init])
  alive := fun _ => ⟨rfl, rfl, rfl, List.not_mem_nil⟩
  request := fun h => by simp [init] at h

/-- A step that leaves the close and the memory alone. -/
theorem Inv.next (hi : Inv s) (hc : Calls s'.log) (hp : Phase s')
    (hmem : .start .onClose ∈ s.log → .start .onClose ∈ s'.log) (hcl : s'.closer = s.closer)
    (hpend : s'.closePending = s.closePending) (hf : s'.frees = s.frees) (hs : s'.session.frees = s.session.frees)
    (hcb : s'.sessionCb = s.sessionCb) (hst : .closing ∈ s'.stack → .closing ∈ s.stack) : Inv s' := by
  have hu : unclosed s' ↔ unclosed s := by unfold unclosed; rw [hcl, hpend]
  refine ⟨hc, hp, fun h => hu.mpr (hi.pending fun h' => h (hmem h')), fun h => ?_, ?_⟩
  · obtain ⟨h1, h2, h3, h4⟩ := hi.alive (hu.mp h)
    exact ⟨hf.trans h1, hs.trans h2, hcb.trans h3, fun h => h4 (hst h)⟩
  · rw [hcl, hpend]; exact hi.request

/-- The phases look at the log, the session and the stack only. -/
theorem Phase.keep (h : Phase s) (hlog : s'.log = s.log) (hr : s'.reading = s.reading)
    (hc : s.connecting = false → s'.connecting = false) (hs : s'.session.st = s.session.st) (hst : s'.stack = s.stack) :
    Phase s' := by
  cases h with
  | before h1 h2 h3 h4 h5 => exact .before (hlog ▸ h1) (hlog ▸ h2) (hr ▸ h3) (hs ▸ h4) (hst ▸ h5)
  | opening h1 h2 h3 h4 h5 => exact .opening (hc h1) (hlog ▸ h2) (hlog ▸ h3) (hs ▸ h4) (hst ▸ h5)
  | reading h1 h2 h3 h4 h5 h6 => exact .reading (hc h1) (hlog ▸ h2) (hlog ▸ h3) (hr ▸ h4) (hs ▸ h5) (hst ▸ h6)
  | closing f h1 h2 h3 h4 => exact .closing f (hc h1) (hlog ▸ h2) h3 (hst ▸ h4)
  | closed h1 h2 h3 h4 => exact .closed (hc h1) (hlog ▸ h2) (hs ▸ h3) (hst ▸ h4)

theorem mem_snoc_start {m x : Mark} (h : m ≠ x) : x ∈ log ++ [m] ↔ x ∈ log := by
  rw [mem_snoc]
  exact ⟨fun h' => h'.resolve_right fun e => h e.symm, .inl⟩

/-- A callback other than on_conn_open and on_conn_close starts or ends, over frames that say nothing. -/
theorem Phase.note (h : Phase s) {m : Mark} {st : List Frame} (ho : m ≠ .start .onOpen) (hc : m ≠ .start .onClose)
    (hq : ∀ f ∈ s.stack, quiet f = true) (hst : ∀ f ∈ st, quiet f = true) :
    Phase { s with stack := st, log := s.log ++ [m] } := by
  have ho' := @mem_snoc_start s.log m _ ho
  have hc' := @mem_snoc_start s.log m _ hc
  cases h with
  | before h1 h2 h3 h4 h5 => exact .before (mt ho'.mp h1) (mt hc'.mp h2) h3 h4 hst
  | opening h1 h2 h3 h4 h5 =>
    rcases h5 with h5 | h5
    · exact absurd (hq .connected (by simp [h5])) (by decide)
    · exact absurd (hq .connected (by simp [h5])) (by decide)
  | reading h1 h2 h3 h4 h5 h6 => exact .reading h1 (ho'.mpr h2) (mt hc'.mp h3) h4 h5 hst
  | closing f h1 h2 h3 h4 =>
    have hf : f ∈ s.stack := by rcases h4 with h4 | h4 <;> simp [h4]
    rcases h3 with rfl | rfl
    · exact absurd (hq _ hf) (by decide)
    · exact absurd (hq _ hf) (by decide)
  | closed h1 h2 h3 h4 => exact .closed h1 (hc'.mpr h2) h3 hst

theorem Inv.uaf (hi : Inv s) : Inv { s with uaf := true } :=
  hi.next hi.calls (hi.phase.keep rfl rfl id rfl rfl) id rfl rfl rfl rfl rfl id

theorem Inv.reads {t : St} (hi : Inv s) (ht : Inv t) : Inv (reads s t) := by
  unfold ClientLife.reads
  split
  · exact hi.uaf
  · exact ht

/-- Before close_handle has run, it finds the client and its session. -/
theorem Inv.closeHandle_eq (hi : Inv s) (hu : unclosed s) (t : St) (hf : t.frees = s.frees) (hs : t.session = s.session) :
    closeHandle t = callUser t .onClose (.closing :: t.stack) := by
  obtain ⟨h1, h2, -⟩ := hi.alive hu
  unfold closeHandle ClientLife.reads
  rw [hf, hs, if_neg]
  intro h
  rcases h with h | h
  · exact h h1
  · exact h h2

/-! ## Steps -/

theorem quiet_nil (hst : s.stack = []) : ∀ f ∈ s.stack, quiet f = true := fun f hf => by rw [hst] at hf; cases hf

/-- Only the reading phase reads. -/
theorem Phase.of_reading (h : Phase s) (hst : s.stack = []) (hr : s.reading = true) (hs : s.session.st = .opened) :
    s.connecting = false ∧ .start .onOpen ∈ s.log ∧ .start .onClose ∉ s.log := by
  cases h with
  | before _ _ h => rw [hr] at h; cases h
  | opening _ _ _ _ h | closing _ _ _ _ h => simp [hst] at h
  | reading h1 h2 h3 => exact ⟨h1, h2, h3⟩
  | closed _ _ h => exact absurd hs h

/-- A frame that goes on after on_conn_open, or after on_conn_close, is alone. -/
theorem Phase.of_frame (h : Phase s) {f : Frame} {r : List Frame} (hst : s.stack = f :: r) (hf : quiet f = false) :
    (f = .connected ∧ s.connecting = false ∧ .start .onOpen ∈ s.log ∧ .start .onClose ∉ s.log ∧ s.session.st = .opened ∧ r = []) ∨
    (f ≠ .connected ∧ s.connecting = false ∧ .start .onClose ∈ s.log ∧ r = []) := by
  have hq : ¬ ∀ g ∈ s.stack, quiet g = true := fun h => by rw [h f (by simp [hst])] at hf; cases hf
  cases h with
  | before _ _ _ _ h | reading _ _ _ _ _ h | closed _ _ _ h => exact absurd h hq
  | opening h1 h2 h3 h4 h5 =>
    rw [hst] at h5
    rcases h5 with h5 | h5
    · cases h5; cases hf
    · cases h5; exact .inl ⟨rfl, h1, h2, h3, h4, rfl⟩
  | closing g h1 h2 h3 h4 =>
    rw [hst] at h4
    rcases h4 with h4 | h4
    · cases h4; cases hf
    · cases h4
      refine .inr ⟨fun e => ?_, h1, h2, rfl⟩
      subst e
      rcases h3 with h3 | h3
      · cases h3
      · cases h3

theorem onConnect_inv (hi : Inv s) (hst : s.stack = []) (hc : s.connecting = true) (status : Int) :
    Inv (onConnect s status) := by
  obtain ⟨ho, hn, hr, hs⟩ : .start .onOpen ∉ s.log ∧ .start .onClose ∉ s.log ∧ s.reading = false ∧
      s.session.st = .opened := by
    cases hi.phase with
    | before h1 h2 h3 h4 h5 => exact ⟨h1, h2, h3, h4⟩
    | opening h | reading h | closing _ h | closed h => rw [hc] at h; cases h
  unfold onConnect
  apply hi.reads
  split
  · refine hi.next (calls_open hi.calls ho hn) ?_ (List.mem_append_left _) rfl rfl rfl rfl rfl (by simp [callUser])
    exact .opening rfl (by simp [callUser]) (by simpa [callUser] using hn) hs (.inl rfl)
  · refine hi.next (calls_other hi.calls (by simp) (by simp) fun _ => hn) ?_ (List.mem_append_left _) rfl rfl rfl rfl rfl
      (by simp [callUser])
    exact (hi.phase.note (by simp) (by simp) (quiet_nil hst) (by simp [callUser, quiet])).keep rfl rfl (fun _ => rfl) rfl rfl

theorem onRead_inv (hi : Inv s) (hst : s.stack = []) (hr : s.reading = true) (hs : s.session.st = .opened) (nread : Int) :
    Inv (onRead s nread) := by
  obtain ⟨hc, ho, hn⟩ := hi.phase.of_reading hst hr hs
  unfold onRead
  apply hi.reads
  split
  · refine hi.next (calls_other hi.calls (by simp) (by simp) fun _ => hn) ?_ (List.mem_append_left _) rfl rfl rfl rfl rfl
      (by simp [callUser])
    exact hi.phase.note (by simp) (by simp) (quiet_nil hst) (by simp [quiet])
  · split
    · exact hi
    · refine hi.next (calls_close hi.calls ho hn) ?_ (List.mem_append_left _) rfl rfl rfl rfl rfl (by simp [callUser])
      exact .closing .readError hc (by simp [callUser]) (.inl rfl) (.inl rfl)

theorem written_inv (hi : Inv s) (hst : s.stack = []) (w : Nat) :
    Inv (callUser { s with writes := w } .onWrite [.written]) := by
  refine hi.next (calls_other hi.calls (by simp) (by simp) fun h => by simp at h) ?_ (List.mem_append_left _) rfl rfl rfl rfl
    rfl (by simp [callUser])
  exact (hi.phase.note (by simp) (by simp) (quiet_nil hst) (by simp [callUser, quiet])).keep rfl rfl id rfl rfl

/-- The session leaves its close phase: on_conn_close has been called before. -/
theorem onClosed_inv (hi : Inv s) (hst : s.stack = []) (hs : s.session.st = .closing) : Inv (onClosed s) := by
  obtain ⟨hc, hm⟩ : s.connecting = false ∧ .start .onClose ∈ s.log := by
    cases hi.phase with
    | before _ _ _ h | reading _ _ _ _ h => rw [hs] at h; cases h
    | opening _ _ _ _ h | closing _ _ _ _ h => simp [hst] at h
    | closed h1 h2 => exact ⟨h1, h2⟩
  have hp : ∀ {t : St}, t.log = s.log → t.connecting = s.connecting → t.session.st = .closed → t.stack = s.stack →
      Phase t := by
    intro t h1 h2 h3 h4
    exact .closed (h2 ▸ hc) (h1 ▸ hm) (by simp [h3]) (h4 ▸ quiet_nil hst)
  unfold onClosed
  split
  · rename_i hcb
    refine hi.reads ⟨hi.calls, hp rfl rfl rfl rfl, fun h => absurd hm h, fun h => ?_, hi.request⟩
    -- the close callback is close_handle's
    have := (hi.alive h).2.2.1
    rw [hcb] at this
    cases this
  · exact hi.next hi.calls (hp rfl rfl rfl rfl) id rfl rfl rfl rfl rfl id

/-- close_handle is called while the session is open and being read. -/
theorem closeHandle_inv (hi : Inv s) (hst : s.stack = []) (hr : s.reading = true) (hs : s.session.st = .opened) {t : St}
    (ht : t = { s with closePending := false, closer := .done }) : Inv (closeHandle t) := by
  obtain ⟨hc, ho, hn⟩ := hi.phase.of_reading hst hr hs
  rw [hi.closeHandle_eq (hi.pending hn) t (by rw [ht]) (by rw [ht])]
  subst ht
  refine ⟨calls_close hi.calls ho hn, .closing .closing hc (by simp [callUser]) (.inr rfl) (.inl (by simp [callUser, hst])),
    fun h => absurd (by simp [callUser]) h, fun h => ?_, fun h => by cases h⟩
  rcases h with h | h
  · exact absurd rfl h
  · cases h

/-- ... and goes on after on_conn_close. -/
theorem closing_inv (hi : Inv s) {r : List Frame} (hst : s.stack = .closing :: r) : Inv (closing s r) := by
  rcases hi.phase.of_frame hst rfl with ⟨h, -⟩ | ⟨-, hc, hm, rfl⟩
  · cases h
  have hu : ¬ unclosed s := fun h => (hi.alive h).2.2.2 (by simp [hst])
  unfold closing
  split
  · rename_i hcl
    refine ⟨hi.calls, .closed hc hm (fun h => ?_) (by simp [freeResource]), fun h => absurd hm h, fun h => absurd h hu,
      hi.request⟩
    rw [show s.session.isClosing = false from Handle.not_closing_of_opened h] at hcl
    cases hcl
  · exact ⟨hi.calls, .closed hc hm Handle.close_opened (by simp), fun h => absurd hm h, fun h => absurd h hu, hi.request⟩

/-- A frame that says nothing goes. -/
theorem pop_inv (hi : Inv s) {f : Frame} {r : List Frame} (hst : s.stack = f :: r) (hf : f = .written ∨ f = .sendFailed) :
    Inv { s with stack := r } := by
  have hmem : ∀ g ∈ r, g ∈ s.stack := fun g hg => by rw [hst]; exact List.mem_cons_of_mem _ hg
  refine hi.next hi.calls ?_ id rfl rfl rfl rfl rfl (hmem _)
  cases hi.phase with
  | before h1 h2 h3 h4 h5 => exact .before h1 h2 h3 h4 fun g hg => h5 g (hmem g hg)
  | opening _ _ _ _ h => rcases hf with rfl | rfl <;> simp [hst] at h
  | reading h1 h2 h3 h4 h5 h6 => exact .reading h1 h2 h3 h4 h5 fun g hg => h6 g (hmem g hg)
  | closing f _ _ hf' h => rcases hf with rfl | rfl <;> rcases hf' with rfl | rfl <;> simp [hst] at h
  | closed h1 h2 h3 h4 => exact .closed h1 h2 h3 fun g hg => h4 g (hmem g hg)

theorem goOn_inv (hi : Inv s) (h : goOn s = some s') : Inv s' := by
  unfold goOn at h
  split at h
  · rename_i r hst
    cases h
    apply hi.reads
    rcases hi.phase.of_frame hst rfl with ⟨-, h1, h2, h3, h4, rfl⟩ | ⟨h, -⟩
    · exact hi.next hi.calls (.reading h1 h2 h3 (by simp [h4]) h4 (by simp)) id rfl rfl rfl rfl rfl (by simp)
    · exact absurd rfl h
  · rename_i r hst
    cases h
    apply hi.reads
    rcases hi.phase.of_frame hst rfl with ⟨h, -⟩ | ⟨-, h1, h2, rfl⟩
    · cases h
    · refine hi.next hi.calls (.closed h1 h2 Handle.closeOnce_opened (by simp)) id rfl rfl rfl ?_ rfl (by simp)
      show s.session.closeOnce.frees = s.session.frees
      unfold Handle.closeOnce
      split <;> rfl
  · rename_i r hst
    cases h
    exact hi.reads (pop_inv hi hst (.inl rfl))
  · rename_i r hst
    cases h
    exact hi.reads (closing_inv hi hst)
  · rename_i r hst
    cases h
    exact hi.reads (pop_inv hi hst (.inr rfl))
  · cases h

/-- User code returns. -/
theorem ret_inv (hi : Inv s) {cb : Cb} {r : List Frame} (hst : s.stack = .user cb :: r) :
    Inv { s with stack := r, log := s.log ++ [.ret cb] } := by
  have hmem : ∀ g ∈ r, g ∈ s.stack := fun g hg => by rw [hst]; exact List.mem_cons_of_mem _ hg
  refine hi.next (calls_other hi.calls (by simp) (by simp) fun h => by simp at h) ?_ (List.mem_append_left _) rfl rfl rfl rfl
    rfl (hmem _)
  by_cases hq : ∀ f ∈ s.stack, quiet f = true
  · exact hi.phase.note (by simp) (by simp) hq fun f hf => hq f (hmem f hf)
  · cases hi.phase with
    | before _ _ _ _ h | reading _ _ _ _ _ h | closed _ _ _ h => exact absurd h hq
    | opening h1 h2 h3 h4 h5 =>
      refine .opening h1 (List.mem_append_left _ h2) (mt (mem_snoc_start (by simp)).mp h3) h4 (.inr ?_)
      rw [hst] at h5
      rcases h5 with h5 | h5
      · cases h5; rfl
      · cases h5
    | closing f h1 h2 h3 h4 =>
      refine .closing f h1 (List.mem_append_left _ h2) h3 (.inr ?_)
      rw [hst] at h4
      rcases h4 with h4 | h4
      · cases h4; rfl
      · cases h4
        rcases h3 with h3 | h3
        · cases h3
        · cases h3

theorem callStep_iff {e : Ev} : callStep s e = some s' ↔ inScope s e = true ∧ step s e = some s' := by
  unfold callStep
  split
  · rename_i h; simp [h]
  · rename_i h; simp [h]

theorem step_inv (hi : Inv s) {e : Ev} (hk : connected s e = true) (h : callStep s e = some s') : Inv s' := by
  obtain ⟨hin, h⟩ := callStep_iff.mp h
  unfold step at h
  split at h
  · cases h
  · cases e with
    | connect status =>
      simp only at h
      split at h <;> cases h
      rename_i hg
      exact onConnect_inv hi hg.1 hg.2.1 status
    | read nread =>
      simp only at h
      split at h <;> cases h
      rename_i hg
      exact onRead_inv hi hg.1 hg.2.1 hg.2.2 nread
    | written =>
      simp only at h
      split at h <;> cases h
      rename_i hg
      exact hi.reads (written_inv hi hg.1 (s.writes - 1))
    | closed =>
      simp only at h
      split at h <;> cases h
      rename_i hg
      exact onClosed_inv hi hg.1 hg.2.1
    | asyncSendClosed | asyncCloseClosed =>
      simp only at h
      split at h <;> cases h
      exact hi.next hi.calls (hi.phase.keep rfl rfl id rfl rfl) id rfl rfl rfl rfl rfl id
    | asyncClose =>
      simp only at h
      split at h <;> cases h
      rename_i hg
      simp only [connected, Bool.and_eq_true, beq_iff_eq] at hk
      exact closeHandle_inv hi hg.1 hk.1 hk.2 (by rw [← hi.request hg.2.1])
    | goOn => exact goOn_inv hi h
    | ret =>
      simp only at h
      split at h <;> cases h
      rename_i hst
      exact ret_inv hi hst
    | send malloc =>
      simp only [inScope] at hin
      subst hin
      simp only at h
      split at h <;> cases h
      exact hi.reads (hi.next hi.calls (hi.phase.keep rfl rfl id rfl rfl) id rfl rfl rfl rfl rfl id)
    | close =>
      simp only at h
      split at h <;> cases h
      rename_i hg
      simp only [connected, Bool.and_eq_true, beq_iff_eq] at hk
      refine closeHandle_inv hi (List.isEmpty_iff.mp hin) hk.1 hk.2 ?_
      have hp : s.closePending = false := by
        cases hp : s.closePending with
        | false => rfl
        | true => rw [hi.request hp] at hg; cases hg.2
      rw [← hp]
    | closer =>
      simp only [closerStep] at h
      split at h <;> cases h
      · rename_i hc
        refine hi.reads ⟨hi.calls, hi.phase.keep rfl rfl id rfl rfl, fun _ => .inl (by simp), fun _ => ?_, fun hp => ?_⟩
        · exact hi.alive (.inl (by simp [hc]))
        · rw [hi.request hp] at hc; cases hc
      · rename_i hc
        refine hi.reads ⟨hi.calls, hi.phase.keep rfl rfl id rfl rfl, fun _ => .inr rfl, fun _ => ?_, fun _ => rfl⟩
        exact hi.alive (.inl (by simp [hc]))

theorem Inv.balanced (hi : Inv s) : Balanced s := by
  refine ⟨hi.calls, fun hu => ?_⟩
  have hm : .start .onClose ∈ s.log := by
    by_contra h
    exact hu (hi.pending h)
  have h1 := List.count_pos_iff.mpr hm
  have h2 := List.count_pos_iff.mpr (hi.calls.first hm).mem.1
  have h3 := hi.calls.opened
  have h4 := hi.calls.closed
  omega

/-- close_handle calls on_conn_close whatever it finds. -/
theorem closeHandle_breaks (hi : Inv s) (hst : s.stack = []) (hu : unclosed s)
    (hk : (s.reading && s.session.st == .opened) = false) {t : St}
    (ht : t = { s with closePending := t.closePending, closer := t.closer }) : ¬ Balanced (closeHandle t) := by
  intro hb
  have hl : (closeHandle t).log = s.log ++ [.start .onClose] := by
    rw [hi.closeHandle_eq hu t (by rw [ht]) (by rw [ht]), ht]
    rfl
  have hc := hb.calls
  rw [hl] at hc
  cases hi.phase with
  | before ho _ _ _ _ =>
    have := (hc.first (by simp)).mem.1
    rw [mem_snoc_start (by simp)] at this
    exact ho this
  | opening _ _ _ _ h | closing _ _ _ _ h => simp [hst] at h
  | reading _ _ _ hr hs _ => simp [hr, hs] at hk
  | closed _ hm _ _ =>
    have h1 := List.count_pos_iff.mpr hm
    have h2 := hc.closed
    rw [count_snoc] at h2
    simp only [if_true] at h2
    omega

theorem step_breaks (hi : Inv s) {e : Ev} (hk : connected s e ≠ true) (h : callStep s e = some s') : ¬ Balanced s' := by
  obtain ⟨hin, h⟩ := callStep_iff.mp h
  unfold step at h
  split at h
  · cases h
  · cases e with
    | close =>
      simp only at h
      split at h <;> cases h
      rename_i hg
      refine closeHandle_breaks hi (List.isEmpty_iff.mp hin) (.inl (by simp [hg.2])) ?_ rfl
      simpa [connected] using hk
    | asyncClose =>
      simp only at h
      split at h <;> cases h
      rename_i hg
      refine closeHandle_breaks hi hg.1 (.inr hg.2.1) ?_ rfl
      simpa [connected] using hk
    | _ => exact absurd rfl hk

/-! ## Runs -/

/-- In a run the callbacks balance in every state if and only if close_handle always finds the session
    open and being read. -/
theorem callbacks_iff (connecting : Bool) (es : List Ev) :
    Always callStep Balanced (init connecting) es ↔
      Steps callStep (fun s e => connected s e = true) (init connecting) es := by
  have hi : ∀ s, Reach callStep (fun s e => connected s e = true) (init connecting) s → Inv s := fun s hr =>
    hr.invariant (init_inv connecting) fun _ _ _ hi hk h => step_inv hi hk h
  apply always_iff
  · exact fun s hr => (hi s hr).balanced
  · exact fun s e s' hr h hk => step_breaks (hi s hr) hk h

/-- A close after a disconnect; a close before the connect completes, which libuv then cancels. -/
theorem unbalanced :
    (∃ s, Reach callStep Free (init true) s ∧ s.log.count (.start .onClose) = 2 ∧ ¬ Balanced s) ∧
    ∃ s, Reach callStep Free (init true) s ∧ .start .onOpen ∉ s.log ∧ s.log.count (.start .onClose) = 1 ∧
      After s.log (.start .onClose) (.start .onError) ∧ ¬ Balanced s := by
  constructor
  · obtain ⟨s, hr, h⟩ := reach_of_run callStep (init true) (fun s => s.log.count (.start .onClose) = 2)
      [.connect 0, .ret, .goOn, .read 3, .ret, .read (-104), .ret, .goOn, .closed, .close] ⟨_, rfl, by decide⟩
    exact ⟨s, hr, h, fun hb => absurd hb.calls.closed (by omega)⟩
  · obtain ⟨s, hr, h⟩ := reach_of_run callStep (init true)
      (fun s => s.log = [.start .onClose, .ret .onClose, .start .onError]) [.close, .ret, .goOn, .connect (-125)]
      ⟨_, rfl, by decide⟩
    have ha : After s.log (.start .onClose) (.start .onError) := ⟨[], [.ret .onClose, .start .onError], h, by simp⟩
    exact ⟨s, hr, by simp [h], by simp [h], ha, fun hb => hb.calls.last .onError (.inr (.inr rfl)) ha⟩

end UvWrapper.Net.ClientCallbacks
