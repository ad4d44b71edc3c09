/-
  UvWrapper.Component.ShutdownHang — what component_uninit waits for (see
  `UvWrapper.Component.Shutdown`).

  event_thread_destroy waits for uv_run to return, which takes a close of the socket; component_uninit
  asks for one only if it finds udp_handle stored. msg_queue_destroy waits for msg_thread, which may
  be in a send that the loop thread has to serve. Proved, for every outcome of component_init: as long
  as component_uninit reads udp_handle only after event_thread_func has stored it, and uv_udp_send
  takes every send given to it, neither join is for good; against it one of them is (`joins`). A
  component_uninit that is faster than the loop thread waits for a socket nobody closes
  (`outruns_the_store`).
-/

import UvWrapper.Component.ShutdownSafety

namespace UvWrapper.Component.Shutdown

open UvWrapper.Lib UvWrapper.Lib.Trace

variable {o : Outcome} {s s' : St}

/-! ## Hanging -/

/-- The loop has, or is about to open, a socket for which no close was requested. -/
def Unclosed (s : St) : Prop := s.loop = .start ∨ (s.socket = .opened ∧ s.closePending = false)

instance : Decidable (Unclosed s) := inferInstanceAs (Decidable (_ ∨ _))

/-- The message thread has not ended, and does not end whatever happens. -/
def NeverEnds (s : St) : Prop := ∀ es t, run step s es = some t → t.msg ≠ .ended

def Hung (s : St) : Prop := (s.main = .joinLoop ∧ Unclosed s) ∨ (s.main = .joinMsg ∧ NeverEnds s)

/-- component_uninit reads udp_handle after its store; uv_udp_send takes what it is given. -/
def served (s : St) : Ev → Bool
  | .main => s.main != .udpHandle || (s.loop != .start && s.loop != .store true)
  | .sendData malloc accepted => !malloc || accepted
  | _ => true

/-! ## The socket -/

def LoopPc.inRun : LoopPc → Bool
  | .start | .store _ | .ended => false
  | _ => true

def MainPc.beforeClose : MainPc → Bool
  | .joinLoop | .done => false
  | _ => true

structure Opened (s : St) : Prop where
  start : s.loop = .start → s.socket = .none ∧ s.udpHandle = false
  store : ∀ opened, s.loop = .store opened → s.udpHandle = false ∧ s.socket = if opened then .opened else .none
  stored : s.loop.inRun = true → s.socket = .opened → s.udpHandle = true
  ended : s.loop = .ended → s.socket ≠ .opened
  handle : s.udpHandle = true → s.socket ≠ .none
  before : s.main.beforeClose = true → s.closePending = false ∧ s.socket ≠ .closed
  asyncClose : s.main = .asyncClose → s.udpHandle = true
  after : s.main.beforeClose = false → ¬ Unclosed s

theorem init_opened (o : Outcome) : Opened (init o) := by
  obtain ⟨q, m, l⟩ := o
  cases l <;> constructor <;> simp [init, LoopPc.inRun, MainPc.beforeClose]

/-- The loop thread goes on in uv_run, or not at all, and leaves the socket alone. -/
theorem Opened.frame (hi : Opened s) (hm : s'.main = s.main) (hs : s'.socket = s.socket) (hu : s'.udpHandle = s.udpHandle)
    (hc : s'.closePending = s.closePending) (hl : s'.loop = s.loop ∨ (s.loop.inRun = true ∧ s'.loop.inRun = true)) :
    Opened s' := by
  have hstart : s'.loop = .start → s.loop = .start := fun h => by
    rcases hl with hl | ⟨-, hl⟩
    · rw [← hl, h]
    · rw [h] at hl; cases hl
  constructor
  · rw [hs, hu]; exact fun h => hi.start (hstart h)
  · rw [hs, hu]
    intro b h
    rcases hl with hl | ⟨-, hl⟩
    · exact hi.store b (hl ▸ h)
    · rw [h] at hl; cases hl
  · rw [hs, hu]
    intro h
    rcases hl with hl | ⟨hl, -⟩
    · exact hi.stored (hl ▸ h)
    · exact hi.stored hl
  · rw [hs]
    intro h
    rcases hl with hl | ⟨-, hl⟩
    · exact hi.ended (hl ▸ h)
    · rw [h] at hl; cases hl
  · rw [hs, hu]; exact hi.handle
  · rw [hm, hc, hs]; exact hi.before
  · rw [hm, hu]; exact hi.asyncClose
  · rw [hm]
    unfold Unclosed
    rw [hs, hc]
    exact fun h hu => hi.after h (hu.imp_left hstart)

theorem deref_cases (s t : St) :
    deref s t = t ∨ deref s t = { t with fault := true } ∨ deref s t = { s with fault := true } := by
  unfold deref
  split
  · exact .inl rfl
  · exact .inr (.inl rfl)
  · exact .inr (.inr rfl)

theorem Opened.deref {t : St} (hi : Opened s) (ht : Opened t) : Opened (deref s t) := by
  rcases deref_cases s t with e | e | e <;> rw [e]
  · exact ht
  · exact ht.frame rfl rfl rfl rfl (.inl rfl)
  · exact hi.frame rfl rfl rfl rfl (.inl rfl)

/-- component_uninit before it comes to udp_handle. -/
theorem Opened.uninit (hi : Opened s) (hb : s.main.beforeClose = true) {p : MainPc} (hp : p.beforeClose = true)
    (ha : p ≠ .asyncClose) (hm : s'.main = p) (hl : s'.loop = s.loop) (hs : s'.socket = s.socket)
    (hu : s'.udpHandle = s.udpHandle) (hc : s'.closePending = s.closePending) : Opened s' := by
  constructor
  · rw [hl, hs, hu]; exact hi.start
  · rw [hl, hs, hu]; exact hi.store
  · rw [hl, hs, hu]; exact hi.stored
  · rw [hl, hs]; exact hi.ended
  · rw [hs, hu]; exact hi.handle
  · rw [hs, hc]; exact fun _ => hi.before hb
  · rw [hm]; exact fun h => absurd h ha
  · rw [hm, hp]; exact fun h => by cases h

theorem componentUninit_opened (hi : Opened s) (hg : served s .main = true) (h : componentUninit s = some s') :
    Opened s' := by
  unfold componentUninit at h
  unfold served at hg
  split at h
  · rename_i hm
    have hb : s.main.beforeClose = true := by rw [hm]; rfl
    cases h
    exact hi.deref (hi.uninit hb (p := .remove) rfl (by simp) rfl rfl rfl rfl rfl)
  · rename_i hm
    have hb : s.main.beforeClose = true := by rw [hm]; rfl
    cases h
    exact hi.deref (hi.uninit hb (p := .threadId) rfl (by simp) rfl rfl rfl rfl rfl)
  · rename_i hm
    have hb : s.main.beforeClose = true := by rw [hm]; rfl
    cases h
    exact hi.deref (hi.uninit hb (p := .joinMsg) rfl (by simp) rfl rfl rfl rfl rfl)
  · rename_i hm
    split at h <;> cases h
    exact hi.uninit (by rw [hm]; rfl) (p := .free) rfl (by simp) rfl rfl rfl rfl rfl
  · rename_i hm
    cases h
    exact hi.uninit (by rw [hm]; rfl) (p := .udpHandle) rfl (by simp) rfl rfl rfl rfl rfl
  · rename_i hm
    have hb := hi.before (by rw [hm]; rfl)
    have hl : s.loop ≠ .start ∧ s.loop ≠ .store true := by simpa [hm] using hg
    cases hu : s.udpHandle with
    | true =>
      cases h
      refine ⟨hi.start, hi.store, hi.stored, hi.ended, hi.handle, fun _ => hb, fun _ => hu, fun h => ?_⟩
      simp [hu, MainPc.beforeClose] at h
    | false =>
      cases h
      refine ⟨hi.start, hi.store, hi.stored, hi.ended, hi.handle, fun h => ?_, fun h => ?_, fun _ hun => ?_⟩
      · simp [hu, MainPc.beforeClose] at h
      · simp [hu] at h
      · -- the store is past: there is no socket
        rcases hun with h | ⟨h, -⟩
        · exact hl.1 h
        · cases hp : s.loop with
          | start => exact hl.1 hp
          | store b =>
            cases b with
            | true => exact hl.2 hp
            | false => rw [(hi.store false hp).2] at h; cases h
          | ended => exact hi.ended hp h
          | _ =>
            have := hi.stored (by rw [hp]; rfl) h
            rw [hu] at this; cases this
  · rename_i hm
    cases h
    refine ⟨hi.start, hi.store, hi.stored, hi.ended, hi.handle, fun h => ?_, fun h => ?_, fun _ hun => ?_⟩
    · cases h
    · cases h
    · rcases hun with h | ⟨-, h⟩
      · have := (hi.start h).2
        rw [hi.asyncClose hm] at this; cases this
      · cases h
  · rename_i hm
    split at h <;> cases h
    exact ⟨hi.start, hi.store, hi.stored, hi.ended, hi.handle, fun h => (by cases h), fun h => (by cases h),
      fun _ => hi.after (by rw [hm]; rfl)⟩
  · cases h

theorem loopStep_opened (hi : Opened s) (h : loopStep s = some s') : Opened s' := by
  unfold loopStep at h
  split at h
  · rename_i b hl
    cases h
    obtain ⟨-, hs⟩ := hi.store b hl
    refine ⟨fun h => (by cases h), fun _ h => (by cases h), fun _ h => ?_, fun h => (by cases h), fun h => ?_, hi.before,
      fun h => ?_, fun h hun => ?_⟩
    · have h : s.socket = .opened := h
      rw [hs] at h
      cases b with
      | true => rfl
      | false => cases h
    · have h : b = true := h
      show s.socket ≠ .none
      rw [hs, h]; simp
    · have := hi.asyncClose h
      rw [(hi.store b hl).1] at this; cases this
    · rcases hun with h' | h'
      · cases h'
      · exact hi.after h (.inr h')
  · rename_i hl
    cases h
    exact hi.frame rfl rfl rfl rfl (.inr ⟨by rw [hl]; rfl, by cases hp : s.initPeer <;> simp [LoopPc.inRun]⟩)
  · rename_i hl
    cases h
    exact hi.frame rfl rfl rfl rfl (.inr ⟨by rw [hl]; rfl, rfl⟩)
  · rename_i hl
    cases h
    exact hi.frame rfl rfl rfl rfl (.inr ⟨by rw [hl]; rfl, by dsimp only; split <;> rfl⟩)
  · rename_i hl
    cases h
    exact hi.deref (hi.frame rfl rfl rfl rfl (.inr ⟨by rw [hl]; rfl, rfl⟩))
  · cases h

theorem msgrcv_opened (hi : Opened s) {received eidrm : Bool} (h : msgrcv s received eidrm = some s') : Opened s' := by
  unfold msgrcv at h
  repeat' split at h
  all_goals first
    | (cases h; exact hi.deref (hi.frame rfl rfl rfl rfl (.inl rfl)))
    | (cases h; exact hi.frame rfl rfl rfl rfl (.inl rfl))
    | cases h

theorem msgStep_opened (hi : Opened s) (h : msgStep s = some s') : Opened s' := by
  unfold msgStep at h
  split at h
  · cases h
    exact hi.deref (hi.frame rfl rfl rfl rfl (.inl rfl))
  · split at h <;> cases h
    all_goals exact hi.frame rfl rfl rfl rfl (.inl rfl)
  · obtain ⟨h', f, m, rfl⟩ := udpSendData_eq h
    exact hi.frame rfl rfl rfl rfl (.inl rfl)
  · cases h
    exact hi.frame rfl rfl rfl rfl (.inl rfl)
  all_goals cases h

theorem step_opened (hi : Opened s) {e : Ev} (hg : served s e = true) (h : step s e = some s') : Opened s' := by
  cases e with
  | main => exact componentUninit_opened hi hg h
  | loop => exact loopStep_opened hi h
  | msgrcv received eidrm => exact msgrcv_opened hi h
  | msg => exact msgStep_opened hi h
  | udpHandleRun opened =>
    simp only [step, udpHandleRun] at h
    split at h <;> cases h
    rename_i hl
    obtain ⟨hs, hu⟩ := hi.start hl
    have hb : s.main.beforeClose = true := by
      cases hb : s.main.beforeClose with
      | true => rfl
      | false => exact absurd (.inl hl) (hi.after hb)
    refine ⟨fun h => (by cases h), fun b h => ?_, fun h => (by cases h), fun h => (by cases h), fun h => ?_, fun _ => ?_,
      hi.asyncClose, fun h => ?_⟩
    · cases h
      exact ⟨hu, rfl⟩
    · rw [show s.udpHandle = true from h] at hu; cases hu
    · exact ⟨(hi.before hb).1, by cases opened <;> simp⟩
    · rw [show s.main.beforeClose = false from h] at hb; cases hb
  | asyncClose =>
    simp only [step] at h
    split at h <;> cases h
    rename_i hc
    obtain ⟨hl, -, hp⟩ := hc
    have hb : s.main.beforeClose = false := by
      cases hb : s.main.beforeClose with
      | false => rfl
      | true => rw [(hi.before hb).1] at hp; cases hp
    refine ⟨fun h => ?_, fun b h => ?_, fun _ h => (by cases h), fun _ => (by simp), fun _ => (by simp), fun h => ?_,
      hi.asyncClose, fun _ hun => ?_⟩
    · rw [show s.loop = .start from h] at hl; cases hl
    · rw [show s.loop = .store b from h] at hl; cases hl
    · rw [show s.main.beforeClose = true from h] at hb; cases hb
    · rcases hun with h | ⟨h, -⟩
      · rw [show s.loop = .start from h] at hl; cases hl
      · cases h
  | uvRunEnds =>
    simp only [step] at h
    split at h <;> cases h
    rename_i hc
    refine ⟨fun h => (by cases h), fun b h => (by cases h), fun h => (by cases h), fun _ => hc.2.1, hi.handle, hi.before,
      hi.asyncClose, fun h hun => ?_⟩
    rcases hun with h' | h'
    · cases h'
    · exact hi.after h (.inr h')
  | datagram | asyncSend =>
    simp only [step] at h
    split at h <;> cases h
    rename_i hc
    exact hi.frame rfl rfl rfl rfl (.inr ⟨by rw [hc.1]; rfl, rfl⟩)
  | msgSend malloc =>
    simp only [step, msgSend] at h
    split at h <;> cases h
    rename_i hl
    exact hi.frame rfl rfl rfl rfl (.inr ⟨by rw [hl]; rfl, by cases malloc <;> rfl⟩)
  | msgsnd accepted =>
    simp only [step, msgsnd] at h
    split at h
    · rename_i hl
      split at h
      · obtain ⟨n, -, rfl⟩ := Option.map_eq_some_iff.mp h
        exact hi.frame rfl rfl rfl rfl (.inr ⟨by rw [hl]; rfl, rfl⟩)
      · cases h
        exact hi.frame rfl rfl rfl rfl (.inr ⟨by rw [hl]; rfl, rfl⟩)
    · cases h
  | sendData malloc accepted =>
    simp only [step, sendData] at h
    split at h
    · rename_i hl
      split at h <;> cases h
      · exact hi.frame rfl rfl rfl rfl (.inr ⟨by rw [hl]; rfl, rfl⟩)
      · obtain ⟨h', he⟩ := checkFlag_eq s
        rw [he]
        exact hi.frame rfl rfl rfl rfl (.inr ⟨by rw [hl]; rfl, rfl⟩)
    · cases h
  | onSend =>
    simp only [step] at h
    split at h <;> cases h
    obtain ⟨h', he⟩ := checkFlag_eq { s with inflight := s.inflight - 1 }
    rw [he]
    exact hi.frame rfl rfl rfl rfl (.inl rfl)

/-! ## The send -/

def LoopPc.owes : LoopPc → Nat
  | .sendData => 1
  | _ => 0

def calling : Pc Stage → Bool
  | .idle | .ret => false
  | _ => true

structure Sending (s : St) : Prop where
  hand : Handoff.Inv s.h (s.loop.owes + s.inflight) 0
  calls : calling (s.h.pc ()) = true ↔ s.msg = .sending
  flag : s.h.pc () = .crit .notify ∨ s.h.pc () = .wait → s.asyncSendFlag = true
  handle : s.msg = .sending → s.udpHandle = true

theorem init_sending (o : Outcome) : Sending (init o) := by
  obtain ⟨q, m, l⟩ := o
  refine ⟨?_, ?_, ?_, ?_⟩
  · cases l <;> exact Handoff.init_inv
  all_goals cases q <;> cases m <;> simp [init, calling, Handoff.init]

theorem Sending.frame (hi : Sending s) (hh : s'.h = s.h) (ho : s'.loop.owes + s'.inflight = s.loop.owes + s.inflight)
    (hm : s'.msg = .sending ↔ s.msg = .sending) (hf : s'.asyncSendFlag = s.asyncSendFlag)
    (hu : s.msg = .sending → s'.udpHandle = s.udpHandle) : Sending s' := by
  constructor
  · rw [hh, ho]; exact hi.hand
  · rw [hh, hm]; exact hi.calls
  · rw [hh, hf]; exact hi.flag
  · intro h
    have h := hm.mp h
    rw [hu h]; exact hi.handle h

theorem Sending.deref {t : St} (hi : Sending s) (ht : Sending t) : Sending (deref s t) := by
  rcases deref_cases s t with e | e | e <;> rw [e]
  · exact ht
  · exact ht.frame rfl rfl Iff.rfl rfl fun _ => rfl
  · exact hi.frame rfl rfl Iff.rfl rfl fun _ => rfl

/-- What is on its way is for on_msg, which waits for it with the flag set. -/
theorem Sending.waits (hi : Sending s) (hp : 0 < s.loop.owes + s.inflight) : s.asyncSendFlag = true := by
  obtain ⟨⟨_, hw⟩, -⟩ := hi.hand.wait_of_pos (by omega)
  exact hi.flag (.inr hw)

theorem checkFlag_set (h : s.asyncSendFlag = true) : checkFlag s = { s with h := s.h.post } := if_pos h

theorem udpSendData_sending (hi : Sending s) (hm : s.msg = .sending) (h : udpSendData s = some s') : Sending s' := by
  have hu := hi.handle hm
  unfold udpSendData at h
  cases hpc : s.h.pc () with
  | idle => rw [hpc] at h; cases h
  | ret => rw [hpc] at h; cases h
  | want =>
    rw [hpc] at h
    simp only at h
    split at h <;> cases h
    rename_i hfree
    exact ⟨Handoff.lock_inv hi.hand hfree, by simp [Handoff.lock, calling, hm], by simp [Handoff.lock], fun _ => hu⟩
  | crit a =>
    rw [hpc] at h
    cases a with
    | flag =>
      cases h
      exact ⟨Handoff.goto_inv hi.hand hpc, by simp [Handoff.goto, calling, hm], fun _ => rfl, fun _ => hu⟩
    | notify =>
      cases h
      exact ⟨Handoff.notify_inv hi.hand hpc, by simp [Handoff.notify, calling, hm], fun _ => hi.flag (.inl hpc), fun _ => hu⟩
  | wait =>
    rw [hpc] at h
    simp only at h
    split at h <;> cases h
    rename_i hs
    exact ⟨Handoff.wake_inv hi.hand hpc hs, by simp [Handoff.wake, calling, hm], by simp [Handoff.wake], fun _ => hu⟩
  | woken =>
    rw [hpc] at h
    cases h
    exact ⟨Handoff.unlock_inv hi.hand hpc, by simp [Handoff.unlock, calling], by simp [Handoff.unlock], fun h => by cases h⟩

theorem msgStep_sending (hi : Sending s) (h : msgStep s = some s') : Sending s' := by
  unfold msgStep at h
  split at h
  · rename_i hm
    cases h
    refine hi.deref (hi.frame rfl rfl ?_ rfl fun _ => rfl)
    rw [hm]
    cases hr : s.isRunning <;> simp
  · rename_i hm
    split at h <;> cases h
    · rename_i hp
      have hc : calling (s.h.pc ()) = false := by
        cases hc : calling (s.h.pc ()) with
        | false => rfl
        | true => have := hi.calls.mp hc; rw [hm] at this; cases this
      have hin : (s.h.pc ()).inside = false := by cases hp : s.h.pc () <;> simp_all [calling]
      exact ⟨Handoff.setPc_outside hi.hand hin rfl, by simp [Handoff.call, calling], by simp [Handoff.call],
        fun _ => by simpa using And.right (by simpa using hp)⟩
    · exact hi.frame rfl rfl (by rw [hm]; simp) rfl fun _ => rfl
  · rename_i hm
    exact udpSendData_sending hi hm h
  · rename_i hm
    cases h
    exact hi.frame rfl rfl (by rw [hm]; simp) rfl fun _ => rfl
  all_goals cases h

theorem msgrcv_sending (hi : Sending s) {received eidrm : Bool} (h : msgrcv s received eidrm = some s') : Sending s' := by
  unfold msgrcv at h
  split at h
  · rename_i hm
    repeat' split at h
    all_goals first
      | (cases h; exact hi.deref (hi.frame rfl rfl (by rw [hm]; simp) rfl fun _ => rfl))
      | (cases h; exact hi.frame rfl rfl (by rw [hm]; simp) rfl fun _ => rfl)
      | cases h
  · cases h

theorem componentUninit_sending (hi : Sending s) (h : componentUninit s = some s') : Sending s' := by
  unfold componentUninit at h
  split at h
  case h_9 => cases h
  case h_1 | h_2 | h_3 =>
    cases h
    exact hi.deref (hi.frame rfl rfl Iff.rfl rfl fun _ => rfl)
  all_goals
    repeat' split at h
    all_goals first | (cases h; exact hi.frame rfl rfl Iff.rfl rfl fun _ => rfl) | cases h

theorem loopStep_sending (ho : Opened s) (hi : Sending s) (h : loopStep s = some s') : Sending s' := by
  unfold loopStep at h
  split at h
  · rename_i b hl
    cases h
    refine hi.frame rfl (by rw [hl]; rfl) Iff.rfl rfl fun hm => ?_
    have := hi.handle hm
    rw [(ho.store b hl).1] at this; cases this
  · rename_i hl
    cases h
    exact hi.frame rfl (by rw [hl]; cases hp : s.initPeer <;> simp [LoopPc.owes]) Iff.rfl rfl fun _ => rfl
  · rename_i hl
    cases h
    exact hi.frame rfl (by rw [hl]; rfl) Iff.rfl rfl fun _ => rfl
  · rename_i hl
    cases h
    exact hi.frame rfl (by rw [hl]; dsimp only; split <;> rfl) Iff.rfl rfl fun _ => rfl
  · rename_i hl
    cases h
    exact hi.deref (hi.frame rfl (by rw [hl]; rfl) Iff.rfl rfl fun _ => rfl)
  · cases h

theorem step_sending (ho : Opened s) (hi : Sending s) {e : Ev} (hg : served s e = true) (h : step s e = some s') :
    Sending s' := by
  cases e with
  | main => exact componentUninit_sending hi h
  | loop => exact loopStep_sending ho hi h
  | msgrcv received eidrm => exact msgrcv_sending hi h
  | msg => exact msgStep_sending hi h
  | asyncSend =>
    simp only [step] at h
    split at h <;> cases h
    rename_i hc
    obtain ⟨hl, -, hp⟩ := hc
    have hh := hi.hand
    rw [hl] at hh
    refine ⟨?_, hi.calls, hi.flag, hi.handle⟩
    show Handoff.Inv s.h.take (1 + s.inflight) 0
    rw [Nat.add_comm]
    exact Handoff.take_inv (by simpa [LoopPc.owes] using hh) hp
  | sendData malloc accepted =>
    simp only [step, sendData] at h
    split at h
    · rename_i hl
      have hf := hi.waits (by rw [hl]; simp only [LoopPc.owes]; omega)
      have hh := hi.hand
      rw [hl] at hh
      split at h
      · rename_i hm
        have ha : accepted = true := by simpa [served, hm] using hg
        rw [if_pos ha] at h
        cases h
        exact hi.frame rfl (by rw [hl]; simp only [LoopPc.owes]; omega) Iff.rfl rfl fun _ => rfl
      · rw [checkFlag_set hf] at h
        cases h
        refine ⟨Handoff.post_inv ?_, hi.calls, hi.flag, hi.handle⟩
        simpa [LoopPc.owes, Nat.add_comm] using hh
    · cases h
  | onSend =>
    simp only [step] at h
    split at h <;> cases h
    rename_i hc
    have hf := hi.waits (by omega)
    rw [checkFlag_set (s := { s with inflight := s.inflight - 1 }) hf]
    refine ⟨Handoff.post_inv ?_, hi.calls, hi.flag, hi.handle⟩
    have : s.loop.owes + (s.inflight - 1) + 1 = s.loop.owes + s.inflight := by omega
    show Handoff.Inv s.h (s.loop.owes + (s.inflight - 1) + 1) 0
    rw [this]
    exact hi.hand
  | msgsnd accepted =>
    simp only [step, msgsnd] at h
    split at h
    · rename_i hl
      split at h
      · obtain ⟨n, -, rfl⟩ := Option.map_eq_some_iff.mp h
        exact hi.frame rfl (by rw [hl]; rfl) Iff.rfl rfl fun _ => rfl
      · cases h
        exact hi.frame rfl (by rw [hl]; rfl) Iff.rfl rfl fun _ => rfl
    · cases h
  | msgSend malloc =>
    simp only [step, msgSend] at h
    split at h <;> cases h
    rename_i hl
    exact hi.frame rfl (by rw [hl]; cases malloc <;> rfl) Iff.rfl rfl fun _ => rfl
  | udpHandleRun opened =>
    simp only [step, udpHandleRun] at h
    split at h <;> cases h
    rename_i hl
    exact hi.frame rfl (by rw [hl]; rfl) Iff.rfl rfl fun _ => rfl
  | datagram =>
    simp only [step] at h
    split at h <;> cases h
    rename_i hc
    exact hi.frame rfl (by rw [hc.1]; rfl) Iff.rfl rfl fun _ => rfl
  | uvRunEnds =>
    simp only [step] at h
    split at h <;> cases h
    rename_i hc
    exact hi.frame rfl (by rw [hc.1]; rfl) Iff.rfl rfl fun _ => rfl
  | asyncClose =>
    simp only [step] at h
    split at h <;> cases h
    exact hi.frame rfl rfl Iff.rfl rfl fun _ => rfl

/-! ## msg_queue_destroy -/

def MainPc.destroying : MainPc → Bool
  | .stop | .remove | .threadId | .joinMsg => true
  | _ => false

structure Stopping (s : St) : Prop where
  live : s.main.destroying = true → s.msg ≠ .ended → s.msgQueue = .live
  stopped : s.main = .remove ∨ s.main = .threadId ∨ s.main = .joinMsg → s.isRunning = false
  removed : s.main = .threadId ∨ s.main = .joinMsg → s.ipc = none
  joined : s.main.destroying = false → s.msg = .ended

theorem init_stopping (o : Outcome) : Stopping (init o) := by
  obtain ⟨q, m, l⟩ := o
  cases q <;> cases m <;> constructor <;> simp [init, MainPc.destroying]

/-- What the loop thread and the message thread leave to component_uninit. -/
structure Untouched (s s' : St) : Prop where
  main : s'.main = s.main
  isRunning : s'.isRunning = s.isRunning
  msgQueue : s'.msgQueue = s.msgQueue
  ipc : s.ipc = none → s'.ipc = none
  ended : s.msg = .ended → s'.msg = .ended

theorem Untouched.deref {t : St} (h : Untouched s t) : Untouched s (deref s t) := by
  rcases deref_cases s t with e | e | e <;> rw [e]
  · exact h
  · exact ⟨h.main, h.isRunning, h.msgQueue, h.ipc, h.ended⟩
  · exact ⟨rfl, rfl, rfl, id, id⟩

theorem msgStep_untouched (h : msgStep s = some s') : Untouched s s' := by
  unfold msgStep at h
  split at h
  · rename_i hm
    cases h
    exact Untouched.deref ⟨rfl, rfl, rfl, id, fun h => by rw [hm] at h; cases h⟩
  · rename_i hm
    split at h <;> cases h
    all_goals exact ⟨rfl, rfl, rfl, id, fun h => by rw [hm] at h; cases h⟩
  · rename_i hm
    obtain ⟨h', f, m, rfl⟩ := udpSendData_eq h
    exact ⟨rfl, rfl, rfl, id, fun h => by rw [hm] at h; cases h⟩
  · rename_i hm
    cases h
    exact ⟨rfl, rfl, rfl, id, fun h => by rw [hm] at h; cases h⟩
  all_goals cases h

theorem msgrcv_untouched {received eidrm : Bool} (h : msgrcv s received eidrm = some s') : Untouched s s' := by
  unfold msgrcv at h
  split at h
  · rename_i hm
    have hne : s.msg ≠ .ended := by rw [hm]; simp
    split at h
    · split at h
      · rename_i n hn
        cases h
        exact Untouched.deref ⟨rfl, rfl, rfl, fun h => (by rw [hn] at h; cases h), fun h => absurd h hne⟩
      · cases h
    · repeat' split at h
      all_goals first | (cases h; exact ⟨rfl, rfl, rfl, id, fun h => absurd h hne⟩) | cases h
  · cases h

theorem step_untouched {e : Ev} (he : e ≠ .main) (h : step s e = some s') : Untouched s s' := by
  cases e with
  | main => exact absurd rfl he
  | msg => exact msgStep_untouched h
  | msgrcv received eidrm => exact msgrcv_untouched h
  | loop =>
    simp only [step, loopStep] at h
    split at h
    case h_5 =>
      cases h
      exact Untouched.deref ⟨rfl, rfl, rfl, id, id⟩
    all_goals first | (cases h; exact ⟨rfl, rfl, rfl, id, id⟩) | cases h
  | msgsnd accepted =>
    simp only [step, msgsnd] at h
    split at h
    · split at h
      · obtain ⟨n, hn, rfl⟩ := Option.map_eq_some_iff.mp h
        exact ⟨rfl, rfl, rfl, fun h => (by rw [hn] at h; cases h), id⟩
      · cases h
        exact ⟨rfl, rfl, rfl, id, id⟩
    · cases h
  | sendData malloc accepted =>
    simp only [step, sendData] at h
    split at h
    · split at h <;> cases h
      · exact ⟨rfl, rfl, rfl, id, id⟩
      · obtain ⟨h', he⟩ := checkFlag_eq s
        rw [he]
        exact ⟨rfl, rfl, rfl, id, id⟩
    · cases h
  | onSend =>
    simp only [step] at h
    split at h <;> cases h
    obtain ⟨h', he⟩ := checkFlag_eq { s with inflight := s.inflight - 1 }
    rw [he]
    exact ⟨rfl, rfl, rfl, id, id⟩
  | _ =>
    simp only [step, msgSend, udpHandleRun] at h
    split at h <;> cases h
    exact ⟨rfl, rfl, rfl, id, id⟩

theorem Stopping.past (hm : s.main.destroying = false) (he : s.msg = .ended) : Stopping s := by
  refine ⟨fun h => ?_, fun h => ?_, fun h => ?_, fun _ => he⟩
  · rw [hm] at h; cases h
  · rcases h with h | h | h <;> rw [h] at hm <;> cases hm
  · rcases h with h | h <;> rw [h] at hm <;> cases hm

theorem componentUninit_stopping (hi : Stopping s) (h : componentUninit s = some s') : Stopping s' := by
  unfold componentUninit at h
  split at h
  · rename_i hm
    have hlive := hi.live (by rw [hm]; rfl)
    cases h
    unfold deref
    split
    · exact ⟨fun _ => hlive, fun _ => rfl, fun h => (by simp at h), fun h => by cases h⟩
    · exact ⟨fun _ => hlive, fun _ => rfl, fun h => (by simp at h), fun h => by cases h⟩
    · exact ⟨hi.live, hi.stopped, hi.removed, hi.joined⟩
  · rename_i hm
    have hlive := hi.live (by rw [hm]; rfl)
    have hstop := hi.stopped (.inl hm)
    cases h
    unfold deref
    split
    · exact ⟨fun _ => hlive, fun _ => hstop, fun _ => rfl, fun h => by cases h⟩
    · exact ⟨fun _ => hlive, fun _ => hstop, fun _ => rfl, fun h => by cases h⟩
    · exact ⟨hi.live, hi.stopped, hi.removed, hi.joined⟩
  · rename_i hm
    have hlive := hi.live (by rw [hm]; rfl)
    have hstop := hi.stopped (.inr (.inl hm))
    have hipc := hi.removed (.inl hm)
    cases h
    unfold deref
    split
    · exact ⟨fun _ => hlive, fun _ => hstop, fun _ => hipc, fun h => by cases h⟩
    · exact ⟨fun _ => hlive, fun _ => hstop, fun _ => hipc, fun h => by cases h⟩
    · exact ⟨hi.live, hi.stopped, hi.removed, hi.joined⟩
  · split at h <;> cases h
    rename_i he
    exact .past rfl he
  · rename_i hm
    cases h
    exact .past rfl (hi.joined (by rw [hm]; rfl))
  · rename_i hm
    cases h
    exact .past (by cases hu : s.udpHandle <;> rfl) (hi.joined (by rw [hm]; rfl))
  · rename_i hm
    cases h
    exact .past rfl (hi.joined (by rw [hm]; rfl))
  · rename_i hm
    split at h <;> cases h
    exact .past rfl (hi.joined (by rw [hm]; rfl))
  · cases h

theorem step_stopping (hi : Stopping s) {e : Ev} (h : step s e = some s') : Stopping s' := by
  by_cases he : e = .main
  · subst he
    exact componentUninit_stopping hi h
  · have hu := step_untouched he h
    constructor
    · rw [hu.main, hu.msgQueue]
      exact fun hm hne => hi.live hm fun h => hne (hu.ended h)
    · rw [hu.main, hu.isRunning]; exact hi.stopped
    · rw [hu.main]; exact fun hm => hu.ipc (hi.removed hm)
    · rw [hu.main]; exact fun hm => hu.ended (hi.joined hm)

/-! ## The message thread ends -/

structure Inv (s : St) : Prop where
  opened : Opened s
  sending : Sending s
  stopping : Stopping s

theorem step_inv (hi : Inv s) {e : Ev} (hg : served s e = true) (h : step s e = some s') : Inv s' :=
  ⟨step_opened hi.opened hg h, step_sending hi.opened hi.sending hg h, step_stopping hi.stopping h⟩

def msgRank (s : St) : Nat :=
  match s.msg with
  | .ended => 0
  | .running | .msgrcv => 1
  | .free => 2
  | .sending =>
    match s.h.pc () with
    | .woken => 3
    | .wait => 4
    | .crit .notify => 5
    | .crit .flag => 6
    | _ => 7
  | .onMsg => 8

def LoopPc.rank : LoopPc → Nat
  | .start => 9
  | .store _ => 8
  | .initPeer => 7
  | .setInit => 6
  | .msgId => 5
  | .readMsgId => 4
  | .msgSend => 3
  | .msgsnd => 2
  | .sendData => 20
  | .poll | .ended => 1

def rank (s : St) : Nat := 100 * msgRank s + 30 * s.h.pending.toNat + 10 * s.inflight + s.loop.rank

/-- In a send the loop runs and the socket is open. -/
theorem Inv.loop_serves (hi : Inv s) (hm : s.main.destroying = true) (hs : s.msg = .sending) :
    s.socket = .opened ∧ s.loop.inRun = true := by
  have ho := hi.opened
  have hu := hi.sending.handle hs
  have hopen : s.socket = .opened := by
    have h1 := ho.handle hu
    have h2 := (ho.before (by revert hm; cases s.main <;> decide)).2
    cases h : s.socket with
    | none => exact absurd h h1
    | opened => rfl
    | closed => exact absurd h h2
  refine ⟨hopen, ?_⟩
  cases hl : s.loop with
  | start => rw [(ho.start hl).2] at hu; cases hu
  | store b => rw [(ho.store b hl).1] at hu; cases hu
  | ended => exact absurd hopen (ho.ended hl)
  | _ => rfl

/-- A step of the loop thread in a callback. -/
theorem rank_lt_loop (hm : msgRank s' = msgRank s) (hh : s'.h = s.h) (hin : s'.inflight = s.inflight)
    (hl : s'.loop.rank < s.loop.rank) : rank s' < rank s := by
  unfold rank
  rw [hm, hh, hin]
  omega

/-- The loop thread comes back to uv_run by itself, if no malloc and no msgsnd succeeds. -/
theorem loop_progress (hl : s.loop.inRun = true) (hne : s.loop ≠ .poll) (hq : s.msgQueue = .live) :
    ∃ e s', step s e = some s' ∧ served s e = true ∧ e ≠ .main ∧ rank s' < rank s := by
  cases h : s.loop with
  | poll => exact absurd h hne
  | start | store b | ended => rw [h] at hl; cases hl
  | initPeer =>
    refine ⟨.loop, { s with loop := if s.initPeer then .msgId else .setInit }, by simp only [step, loopStep, h], rfl,
      by simp, rank_lt_loop rfl rfl rfl ?_⟩
    cases hp : s.initPeer <;> simp [h, LoopPc.rank]
  | setInit =>
    exact ⟨.loop, { s with initPeer := true, loop := .msgId }, by simp only [step, loopStep, h], rfl, by simp,
      rank_lt_loop rfl rfl rfl (by simp [h, LoopPc.rank])⟩
  | msgId =>
    exact ⟨.loop, { s with loop := .readMsgId }, by simp [step, loopStep, h, hq], rfl, by simp,
      rank_lt_loop rfl rfl rfl (by simp [h, LoopPc.rank])⟩
  | readMsgId =>
    exact ⟨.loop, { s with loop := .msgSend }, by simp only [step, loopStep, h, deref_live hq], rfl, by simp,
      rank_lt_loop rfl rfl rfl (by simp [h, LoopPc.rank])⟩
  | msgSend =>
    exact ⟨.msgSend false, { s with loop := .poll }, by simp [step, msgSend, h], rfl, by simp,
      rank_lt_loop rfl rfl rfl (by simp [h, LoopPc.rank])⟩
  | msgsnd =>
    exact ⟨.msgsnd false, { s with loop := .poll }, by simp [step, msgsnd, h], rfl, by simp,
      rank_lt_loop rfl rfl rfl (by simp [h, LoopPc.rank])⟩
  | sendData =>
    refine ⟨.sendData true true, { s with inflight := s.inflight + 1, loop := .poll }, by simp [step, sendData, h], rfl,
      by simp, ?_⟩
    simp only [rank, msgRank, h, LoopPc.rank]
    omega

/-- A step of the message thread that brings it nearer to its end. -/
theorem rank_lt (hm : msgRank s' < msgRank s) (hp : s'.h.pending = s.h.pending ∨ s'.h.pending = true)
    (hin : s'.inflight = s.inflight) (hl : s'.loop = s.loop) : rank s' < rank s := by
  unfold rank
  rw [hin, hl]
  have hb : s'.h.pending.toNat ≤ s.h.pending.toNat + 1 := by
    rcases hp with hp | hp <;> rw [hp]
    · omega
    · simp
  omega

theorem send_progress (hi : Inv s) (hm : s.main.destroying = true) (hs : s.msg = .sending) :
    ∃ e s', step s e = some s' ∧ served s e = true ∧ e ≠ .main ∧ rank s' < rank s := by
  have hh := hi.sending.hand
  have hc := hi.sending.calls.mpr hs
  have hq := hi.stopping.live hm (by rw [hs]; simp)
  obtain ⟨hopen, hrun⟩ := hi.loop_serves hm hs
  cases hpc : s.h.pc () with
  | idle => rw [hpc] at hc; cases hc
  | ret => rw [hpc] at hc; cases hc
  | want =>
    have hfree : s.h.mutex = none := by
      cases hx : s.h.mutex with
      | none => rfl
      | some u =>
        have := (hh.holder ()).mpr hx
        rw [hpc] at this; cases this
    refine ⟨.msg, { s with h := s.h.lock () .flag }, by simp [step, msgStep, udpSendData, hs, hpc, hfree], rfl, by simp,
      rank_lt ?_ (.inl rfl) rfl rfl⟩
    simp [msgRank, hs, hpc, Handoff.lock]
  | crit a =>
    cases a with
    | flag =>
      refine ⟨.msg, { s with asyncSendFlag := true, h := s.h.goto () .notify },
        by simp [step, msgStep, udpSendData, hs, hpc], rfl, by simp, rank_lt ?_ (.inl rfl) rfl rfl⟩
      simp [msgRank, hs, hpc, Handoff.goto]
    | notify =>
      refine ⟨.msg, { s with h := s.h.notify () }, by simp [step, msgStep, udpSendData, hs, hpc], rfl, by simp,
        rank_lt ?_ (.inr rfl) rfl rfl⟩
      simp [msgRank, hs, hpc, Handoff.notify]
  | woken =>
    refine ⟨.msg, { s with h := s.h.unlock (), msg := .free }, by simp [step, msgStep, udpSendData, hs, hpc], rfl, by simp,
      rank_lt ?_ (.inl rfl) rfl rfl⟩
    simp [msgRank, hs, hpc]
  | wait =>
    by_cases hsem : 0 < s.h.sem
    · refine ⟨.msg, { s with h := s.h.wake () }, by simp [step, msgStep, udpSendData, hs, hpc, hsem], rfl, by simp,
        rank_lt ?_ (.inl rfl) rfl rfl⟩
      simp [msgRank, hs, hpc, Handoff.wake]
    · by_cases hl : s.loop = .poll
      · have hcount := hh.wait_cases hpc
        cases hp : s.h.pending with
        | true =>
          refine ⟨.asyncSend, { s with h := s.h.take, loop := .sendData }, by simp [step, hl, hopen, hp], rfl, by simp, ?_⟩
          simp only [rank, msgRank, hs, hl, hp, LoopPc.rank, Handoff.take, Bool.toNat_true, Bool.toNat_false]
          omega
        | false =>
          -- the send that is waited for is the loop's
          have hin : 0 < s.inflight := by
            simp only [hp, hl, LoopPc.owes, Bool.toNat_false] at hcount
            omega
          refine ⟨.onSend, _, if_pos ⟨hl, hin⟩, rfl, by simp, ?_⟩
          obtain ⟨h', he⟩ := checkFlag_eq { s with inflight := s.inflight - 1 }
          rw [checkFlag_set (s := { s with inflight := s.inflight - 1 }) (hi.sending.flag (.inr hpc))]
          simp only [rank, msgRank, Handoff.post]
          omega
      · exact loop_progress hrun hl hq

/-- While msg_queue_destroy waits, some step brings the message thread nearer to its end. -/
theorem progress (hi : Inv s) (hm : s.main = .joinMsg) (hne : s.msg ≠ .ended) :
    ∃ e s', step s e = some s' ∧ served s e = true ∧ e ≠ .main ∧ rank s' < rank s := by
  have hd : s.main.destroying = true := by rw [hm]; rfl
  have hq := hi.stopping.live hd hne
  have hstop := hi.stopping.stopped (.inr (.inr hm))
  have hipc := hi.stopping.removed (.inr hm)
  cases hs : s.msg with
  | ended => exact absurd hs hne
  | running =>
    refine ⟨.msg, { s with msg := .ended }, by simp [step, msgStep, hs, deref_live hq, hstop], rfl, by simp,
      rank_lt ?_ (.inl rfl) rfl rfl⟩
    simp [msgRank, hs]
  | msgrcv =>
    refine ⟨.msgrcv false true, { s with msg := .ended }, by simp [step, msgrcv, hs, hipc], rfl, by simp,
      rank_lt ?_ (.inl rfl) rfl rfl⟩
    simp [msgRank, hs]
  | free =>
    refine ⟨.msg, { s with msg := .running }, by simp [step, msgStep, hs], rfl, by simp, rank_lt ?_ (.inl rfl) rfl rfl⟩
    simp [msgRank, hs]
  | onMsg =>
    by_cases hp : (s.initPeer && s.udpHandle) = true
    · refine ⟨.msg, { s with h := s.h.call (), msg := .sending }, by simp only [step, msgStep, hs, hp, if_true], rfl,
        by simp, rank_lt ?_ (.inl rfl) rfl rfl⟩
      simp [msgRank, hs, Handoff.call]
    · refine ⟨.msg, { s with msg := .free }, by simp only [step, msgStep, hs, hp]; rfl, rfl, by simp,
        rank_lt ?_ (.inl rfl) rfl rfl⟩
      simp [msgRank, hs]
  | sending => exact send_progress hi hd hs

theorem can_end (hi : Inv s) (hm : s.main = .joinMsg) : ∃ es t, run step s es = some t ∧ t.msg = .ended := by
  refine run_until (I := fun s => Inv s ∧ s.main = .joinMsg) rank (fun t ⟨hi, hm⟩ hne => ?_) ⟨hi, hm⟩
  obtain ⟨e, t', he, hg, hme, hlt⟩ := progress hi hm hne
  exact ⟨e, t', he, ⟨step_inv hi hg he, (step_untouched hme he).main.trans hm⟩, hlt⟩

/-! ## Against the condition -/

/-- The message thread waits for a post that nobody owes. -/
structure Lost (s : St) : Prop where
  msg : s.msg = .sending
  pc : s.h.pc () = .wait
  sem : s.h.sem = 0
  pending : s.h.pending = false
  loop : s.loop ≠ .sendData
  inflight : s.inflight = 0

theorem Lost.frame (hi : Lost s) (hm : s'.msg = s.msg) (hh : s'.h = s.h) (hl : s'.loop ≠ .sendData)
    (hin : s'.inflight = s.inflight) : Lost s' :=
  ⟨hm.trans hi.msg, by rw [hh]; exact hi.pc, by rw [hh]; exact hi.sem, by rw [hh]; exact hi.pending, hl,
    hin.trans hi.inflight⟩

theorem Lost.deref {t : St} (hi : Lost s) (ht : Lost t) : Lost (deref s t) := by
  rcases deref_cases s t with e | e | e <;> rw [e]
  · exact ht
  · exact ht.frame rfl rfl ht.loop rfl
  · exact hi.frame rfl rfl hi.loop rfl

theorem componentUninit_lost (hi : Lost s) (h : componentUninit s = some s') : Lost s' := by
  unfold componentUninit at h
  split at h
  case h_9 => cases h
  case h_1 | h_2 | h_3 =>
    cases h
    exact hi.deref (hi.frame rfl rfl hi.loop rfl)
  all_goals
    repeat' split at h
    all_goals first | (cases h; exact hi.frame rfl rfl hi.loop rfl) | cases h

theorem loopStep_lost (hi : Lost s) (h : loopStep s = some s') : Lost s' := by
  unfold loopStep at h
  split at h
  · cases h
    exact hi.frame rfl rfl (by simp) rfl
  · cases h
    exact hi.frame rfl rfl (by cases hp : s.initPeer <;> simp) rfl
  · cases h
    exact hi.frame rfl rfl (by simp) rfl
  · cases h
    exact hi.frame rfl rfl (by dsimp only; split <;> simp) rfl
  · cases h
    exact hi.deref (hi.frame rfl rfl (by simp) rfl)
  · cases h

theorem step_lost (hi : Lost s) {e : Ev} (h : step s e = some s') : Lost s' := by
  cases e with
  | main => exact componentUninit_lost hi h
  | loop => exact loopStep_lost hi h
  | msg => simp [step, msgStep, udpSendData, hi.msg, hi.pc, hi.sem] at h
  | msgrcv received eidrm => simp [step, msgrcv, hi.msg] at h
  | asyncSend => simp [step, hi.pending] at h
  | onSend => simp [step, hi.inflight] at h
  | sendData malloc accepted => simp [step, sendData, hi.loop] at h
  | msgSend malloc =>
    simp only [step, msgSend] at h
    split at h <;> cases h
    exact hi.frame rfl rfl (by cases malloc <;> simp) rfl
  | msgsnd accepted =>
    simp only [step, msgsnd] at h
    split at h
    · split at h
      · obtain ⟨n, -, rfl⟩ := Option.map_eq_some_iff.mp h
        exact hi.frame rfl rfl (by simp) rfl
      · cases h
        exact hi.frame rfl rfl (by simp) rfl
    · cases h
  | udpHandleRun opened =>
    simp only [step, udpHandleRun] at h
    split at h <;> cases h
    exact hi.frame rfl rfl (by simp) rfl
  | datagram | uvRunEnds =>
    simp only [step] at h
    split at h <;> cases h
    exact hi.frame rfl rfl (by simp) rfl
  | asyncClose =>
    simp only [step] at h
    split at h <;> cases h
    exact hi.frame rfl rfl hi.loop rfl

theorem Lost.never_ends (hi : Lost s) : NeverEnds s := by
  intro es
  induction es generalizing s with
  | nil =>
    intro t h
    cases h
    rw [hi.msg]
    simp
  | cons e es ih =>
    intro t h
    simp only [run] at h
    cases he : step s e with
    | none => rw [he] at h; cases h
    | some u =>
      rw [he] at h
      exact ih (step_lost hi he) t h

/-- component_uninit finds udp_handle NULL before the store of an open socket. -/
theorem early_hangs (hi : Inv s) (hm : s.main = .udpHandle) (hl : s.loop = .start ∨ s.loop = .store true)
    (h : componentUninit s = some s') : Hung s' := by
  have hu : s.udpHandle = false := by
    rcases hl with hl | hl
    · exact (hi.opened.start hl).2
    · exact (hi.opened.store true hl).1
  simp only [componentUninit, hm, hu] at h
  cases h
  refine .inl ⟨rfl, ?_⟩
  rcases hl with hl | hl
  · exact .inl hl
  · exact .inr ⟨(hi.opened.store true hl).2, (hi.opened.before (by rw [hm]; rfl)).1⟩

/-- uv_udp_send refuses what the message thread waits for. -/
theorem refused_lost (hi : Inv s) (h : sendData s true false = some s') : Lost s' := by
  unfold sendData at h
  split at h
  · rename_i hl
    cases h
    have hh := hi.sending.hand
    obtain ⟨⟨_, hw⟩, hcount⟩ := hh.wait_of_pos (by rw [hl]; simp only [LoopPc.owes]; omega)
    simp only [hl, LoopPc.owes] at hcount
    have hp : s.h.pending = false := by
      cases hp : s.h.pending with
      | false => rfl
      | true => rw [hp, Bool.toNat_true] at hcount; omega
    exact ⟨hi.sending.calls.mp (by rw [hw]; rfl), hw, by show s.h.sem = 0; omega, hp, by simp, by show s.inflight = 0; omega⟩
  · cases h

structure Joins (o : Outcome) : Prop where
  free : ∀ s, Reach step (fun s e => served s e = true) (init o) s → ¬ Hung s
  /-- Against the condition component_uninit hangs, or will as soon as it comes to its first join. -/
  hangs : ∀ s e s', Reach step (fun s e => served s e = true) (init o) s → served s e = false → step s e = some s' →
    Hung s' ∨ (s'.main.destroying = true ∧ ∀ es t, run step s' es = some t → t.main = .joinMsg → Hung t)

theorem unserved_hangs (hi : Inv s) {e : Ev} (hg : served s e = false) (h : step s e = some s') :
    Hung s' ∨ (s'.main.destroying = true ∧ ∀ es t, run step s' es = some t → t.main = .joinMsg → Hung t) := by
  cases e with
  | main =>
    have hg' : s.main = .udpHandle ∧ (s.loop = .start ∨ s.loop = .store true) := by
      simpa [served, Classical.or_iff_not_imp_left] using hg
    exact .inl (early_hangs hi hg'.1 hg'.2 h)
  | sendData malloc accepted =>
    obtain ⟨rfl, rfl⟩ : malloc = true ∧ accepted = false := by simpa [served] using hg
    have hlost := refused_lost hi h
    have hu := step_untouched (by simp) h
    refine .inr ⟨?_, fun es t hr hm => .inr ⟨hm, fun fs u hrun => hlost.never_ends (es ++ fs) u ?_⟩⟩
    · rw [hu.main]
      cases hd : s.main.destroying with
      | true => rfl
      | false =>
        have := hu.ended (hi.stopping.joined hd)
        rw [hlost.msg] at this; cases this
    · rw [run_append, hr]
      exact hrun
  | _ => cases hg

/-! ## Neither join is for good -/

theorem joins (o : Outcome) : Joins o := by
  have hi : ∀ s, Reach step (fun s e => served s e = true) (init o) s → Inv s := fun s hr =>
    hr.invariant ⟨init_opened o, init_sending o, init_stopping o⟩ fun _ _ _ hi hg h => step_inv hi hg h
  refine ⟨fun s hr hh => ?_, fun s e s' hr hg h => unserved_hangs (hi s hr) hg h⟩
  rcases hh with ⟨hm, hun⟩ | ⟨hm, hnever⟩
  · exact (hi s hr).opened.after (by rw [hm]; rfl) hun
  · obtain ⟨es, t, hrun, ht⟩ := can_end (hi s hr) hm
    exact hnever es t hrun ht

/-! ## A component_uninit that is too fast -/

/-- A datagram is in on_data when component_uninit comes to its last join. -/
theorem joins_with_a_datagram :
    ∃ s, Reach step (fun s e => served s e = true) (init ⟨true, true, true⟩) s ∧
      (s.main = .joinLoop ∧ s.socket = .opened ∧ s.closePending = true) ∧ ¬ Hung s := by
  obtain ⟨s, hr, h⟩ := reach_of_runIf step served (init ⟨true, true, true⟩)
    (fun s => s.main = .joinLoop ∧ s.socket = .opened ∧ s.closePending = true)
    (started ++ [.datagram, .loop, .loop] ++ destroyed ++ [.main, .main]) ⟨_, rfl, by decide⟩
  exact ⟨s, hr, h, (joins ⟨true, true, true⟩).free s hr⟩

/-- component_uninit finds udp_handle NULL; then event_thread_func stores it. -/
theorem outruns_the_store : ∃ s, Reach step Free (init ⟨true, true, true⟩) s ∧ Hung s := by
  obtain ⟨s, hr, h⟩ := reach_of_run step (init ⟨true, true, true⟩) (fun s => s.main = .joinLoop ∧ Unclosed s)
    (destroyed ++ [.main] ++ started) ⟨_, rfl, by decide⟩
  exact ⟨s, hr, .inl h⟩

end UvWrapper.Component.Shutdown
