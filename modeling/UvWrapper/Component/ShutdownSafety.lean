/-
  UvWrapper.Component.ShutdownSafety — who may still dereference msg_queue when component_uninit
  frees it (see `UvWrapper.Component.Shutdown`).

  msg_thread cannot: msg_queue_destroy joins it first. The loop thread can: its socket is closed
  only afterwards, and msg_queue is not reset. Proved, for every outcome of component_init: as long
  as component_uninit is called only with a queue, msg_queue_destroy frees it with no
  get_component_msg_id between its test and its load, and none is called after that, nobody
  dereferences msg_queue when it is NULL or freed; a step against this does, or leaves the loop
  thread nothing else to do (`queue_safe`).
-/

import UvWrapper.Component.Shutdown

namespace UvWrapper.Component.Shutdown

open UvWrapper.Lib.Trace

variable {o : Outcome} {s s' : St}

/-- No get_component_msg_id is called after the queue's free, or is past its test at it; and there
    is a queue to destroy. -/
def inTime (s : St) : Ev → Bool
  | .main => (s.main != .stop || s.msgQueue != .null) && (s.main != .free || s.loop != .readMsgId)
  | .loop => s.loop != .msgId || s.msgQueue != .freed
  | _ => true

structure Safe (s : St) : Prop where
  fault : s.fault = false
  reader : s.loop = .readMsgId → s.msgQueue = .live
  thread : s.msg ≠ .ended → s.msgQueue = .live
  stop : s.main = .stop → s.msgQueue ≠ .freed
  uninit : s.main = .remove ∨ s.main = .threadId ∨ s.main = .joinMsg ∨ s.main = .free → s.msgQueue = .live
  joined : s.main = .free → s.msg = .ended

theorem init_safe (o : Outcome) : Safe (init o) := by
  obtain ⟨q, m, l⟩ := o
  cases q <;> cases m <;> cases l <;> constructor <;> simp [init]

/-- The loop thread's steps, but for get_component_msg_id. -/
theorem Safe.frame (hi : Safe s) (hf : s'.fault = s.fault) (hq : s'.msgQueue = s.msgQueue) (hmain : s'.main = s.main)
    (hmsg : s'.msg = s.msg) (hl : s'.loop ≠ .readMsgId) : Safe s' := by
  constructor
  · rw [hf]; exact hi.fault
  · exact fun h => absurd h hl
  · rw [hmsg, hq]; exact hi.thread
  · rw [hmain, hq]; exact hi.stop
  · rw [hmain, hq]; exact hi.uninit
  · rw [hmain, hmsg]; exact hi.joined

theorem deref_live (h : s.msgQueue = .live) (t : St) : deref s t = t := by unfold deref; rw [h]

theorem componentUninit_safe (hi : Safe s) (hg : inTime s .main = true) (h : componentUninit s = some s') : Safe s' := by
  unfold componentUninit at h
  unfold inTime at hg
  split at h
  · rename_i hm
    have hlive : s.msgQueue = .live := by
      cases hq : s.msgQueue with
      | live => rfl
      | null => simp [hm, hq] at hg
      | freed => exact absurd hq (hi.stop hm)
    rw [deref_live hlive] at h
    cases h
    exact ⟨hi.fault, hi.reader, hi.thread, fun h => (by cases h), fun _ => hlive, fun h => (by cases h)⟩
  · rename_i hm
    have hlive := hi.uninit (.inl hm)
    rw [deref_live hlive] at h
    cases h
    exact ⟨hi.fault, hi.reader, hi.thread, fun h => (by cases h), fun _ => hlive, fun h => (by cases h)⟩
  · rename_i hm
    have hlive := hi.uninit (.inr (.inl hm))
    rw [deref_live hlive] at h
    cases h
    exact ⟨hi.fault, hi.reader, hi.thread, fun h => (by cases h), fun _ => hlive, fun h => (by cases h)⟩
  · rename_i hm
    split at h <;> cases h
    rename_i hended
    have hlive := hi.uninit (.inr (.inr (.inl hm)))
    exact ⟨hi.fault, hi.reader, hi.thread, fun h => (by cases h), fun _ => hlive, fun _ => hended⟩
  · rename_i hm
    cases h
    -- msg_thread has ended, and the loop thread is not at the load
    have hloop : s.loop ≠ .readMsgId := by simpa [hm] using hg
    exact ⟨hi.fault, fun h => absurd h hloop, fun h => absurd (hi.joined hm) h, fun h => (by cases h),
      fun h => (by simp at h), fun h => (by cases h)⟩
  · cases h
    refine ⟨hi.fault, hi.reader, hi.thread, fun h => ?_, fun h => ?_, fun h => ?_⟩ <;>
      cases hu : s.udpHandle <;> simp [hu] at h
  · cases h
    exact ⟨hi.fault, hi.reader, hi.thread, fun h => (by cases h), fun h => (by simp at h), fun h => (by cases h)⟩
  · split at h <;> cases h
    exact ⟨hi.fault, hi.reader, hi.thread, fun h => (by cases h), fun h => (by simp at h), fun h => (by cases h)⟩
  · cases h

theorem loopStep_safe (hi : Safe s) (hg : inTime s .loop = true) (h : loopStep s = some s') : Safe s' := by
  unfold loopStep at h
  unfold inTime at hg
  split at h
  · cases h
    exact hi.frame rfl rfl rfl rfl (by simp)
  · cases h
    exact hi.frame rfl rfl rfl rfl (by cases hp : s.initPeer <;> simp)
  · cases h
    exact hi.frame rfl rfl rfl rfl (by simp)
  · rename_i hl
    cases h
    refine ⟨hi.fault, fun h => ?_, hi.thread, hi.stop, hi.uninit, hi.joined⟩
    cases hq : s.msgQueue with
    | live => rfl
    | null => simp [hq] at h
    | freed => simp [hl, hq] at hg
  · rename_i hl
    rw [deref_live (hi.reader hl)] at h
    cases h
    exact hi.frame rfl rfl rfl rfl (by simp)
  · cases h

theorem checkFlag_eq (s : St) : ∃ h', checkFlag s = { s with h := h' } := by
  unfold checkFlag
  split
  · exact ⟨_, rfl⟩
  · exact ⟨s.h, rfl⟩

/-- msg_thread, not ended, goes on. -/
theorem Safe.msg (hi : Safe s) (hm : s.msg ≠ .ended) (hf : s'.fault = s.fault) (hq : s'.msgQueue = s.msgQueue)
    (hmain : s'.main = s.main) (hl : s'.loop = s.loop) : Safe s' := by
  have hlive := hi.thread hm
  have hfree : s.main ≠ .free := fun h => hm (hi.joined h)
  constructor
  · rw [hf]; exact hi.fault
  · rw [hl, hq]; exact hi.reader
  · rw [hq]; exact fun _ => hlive
  · rw [hmain, hq]; exact hi.stop
  · rw [hmain, hq]; exact hi.uninit
  · rw [hmain]; exact fun h => absurd h hfree

theorem msgrcv_safe (hi : Safe s) {received eidrm : Bool} (h : msgrcv s received eidrm = some s') : Safe s' := by
  unfold msgrcv at h
  split at h
  · rename_i hm
    have hne : s.msg ≠ .ended := by rw [hm]; simp
    split at h
    · split at h
      · rw [deref_live (hi.thread hne)] at h
        cases h
        exact hi.msg hne rfl rfl rfl rfl
      · cases h
    · repeat' split at h
      all_goals first | (cases h; exact hi.msg hne rfl rfl rfl rfl) | cases h
  · cases h

theorem udpSendData_eq (h : udpSendData s = some s') :
    ∃ h' f m, s' = { s with h := h', asyncSendFlag := f, msg := m } := by
  unfold udpSendData at h
  repeat' split at h
  all_goals first | (cases h; exact ⟨_, _, _, rfl⟩) | cases h

theorem msgStep_safe (hi : Safe s) (h : msgStep s = some s') : Safe s' := by
  unfold msgStep at h
  split at h
  · rename_i hm
    have hne : s.msg ≠ .ended := by rw [hm]; simp
    rw [deref_live (hi.thread hne)] at h
    cases h
    exact hi.msg hne rfl rfl rfl rfl
  · rename_i hm
    have hne : s.msg ≠ .ended := by rw [hm]; simp
    split at h <;> cases h
    all_goals exact hi.msg hne rfl rfl rfl rfl
  · rename_i hm
    have hne : s.msg ≠ .ended := by rw [hm]; simp
    obtain ⟨h', f, m, rfl⟩ := udpSendData_eq h
    exact hi.msg hne rfl rfl rfl rfl
  · rename_i hm
    have hne : s.msg ≠ .ended := by rw [hm]; simp
    cases h
    exact hi.msg hne rfl rfl rfl rfl
  all_goals cases h

theorem step_safe (hi : Safe s) {e : Ev} (hg : inTime s e = true) (h : step s e = some s') : Safe s' := by
  cases e with
  | main => exact componentUninit_safe hi hg h
  | loop => exact loopStep_safe hi hg h
  | msgrcv received eidrm => exact msgrcv_safe hi h
  | msg => exact msgStep_safe hi h
  | onSend =>
    simp only [step] at h
    split at h <;> cases h
    rename_i hc
    obtain ⟨h', he⟩ := checkFlag_eq { s with inflight := s.inflight - 1 }
    rw [he]
    exact hi.frame rfl rfl rfl rfl (by simp [hc.1])
  | sendData malloc accepted =>
    simp only [step, sendData] at h
    split at h
    · split at h <;> cases h
      · exact hi.frame rfl rfl rfl rfl (by simp)
      · obtain ⟨h', he⟩ := checkFlag_eq s
        rw [he]
        exact hi.frame rfl rfl rfl rfl (by simp)
    · cases h
  | msgSend malloc =>
    simp only [step, msgSend] at h
    split at h <;> cases h
    exact hi.frame rfl rfl rfl rfl (by cases malloc <;> simp)
  | msgsnd accepted =>
    simp only [step, msgsnd] at h
    split at h
    · split at h
      · obtain ⟨n, -, rfl⟩ := Option.map_eq_some_iff.mp h
        exact hi.frame rfl rfl rfl rfl (by simp)
      · cases h
        exact hi.frame rfl rfl rfl rfl (by simp)
    · cases h
  | asyncClose =>
    simp only [step] at h
    split at h <;> cases h
    rename_i hc
    exact hi.frame rfl rfl rfl rfl (by simp [hc.1])
  | _ =>
    simp only [step, udpHandleRun] at h
    split at h <;> cases h
    exact hi.frame rfl rfl rfl rfl (by simp)

/-- Against the condition msg_queue is dereferenced at once, or by what the loop thread does next. -/
theorem late_faults (hi : Safe s) {e : Ev} (hg : inTime s e = false) (h : step s e = some s') :
    s'.fault = true ∨ ∃ t, step s' .loop = some t ∧ t.fault = true := by
  cases e with
  | main =>
    have hg' : (s.main = .stop ∧ s.msgQueue = .null) ∨ (s.main = .free ∧ s.loop = .readMsgId) := by
      simpa [inTime, Classical.or_iff_not_imp_left] using hg
    simp only [step] at h
    unfold componentUninit at h
    rcases hg' with ⟨hm, hq⟩ | ⟨hm, hl⟩
    · rw [hm] at h
      cases h
      simp [deref, hq]
    · have hlive := hi.uninit (.inr (.inr (.inr hm)))
      rw [hm] at h
      cases h
      exact .inr ⟨_, by simp [step, loopStep, hl, deref, hlive]; rfl, rfl⟩
  | loop =>
    have hg' : s.loop = .msgId ∧ s.msgQueue = .freed := by simpa [inTime] using hg
    obtain ⟨hl, hq⟩ := hg'
    simp only [step, loopStep, hl] at h
    cases h
    exact .inr ⟨_, by simp [step, loopStep, hq, deref]; rfl, rfl⟩
  | _ => cases hg

structure QueueSafe (o : Outcome) : Prop where
  safe : ∀ s, Reach step (fun s e => inTime s e = true) (init o) s → s.fault = false
  late : ∀ s e s', Reach step (fun s e => inTime s e = true) (init o) s → inTime s e = false → step s e = some s' →
    s'.fault = true ∨ ∃ t, step s' .loop = some t ∧ t.fault = true

theorem queue_safe (o : Outcome) : QueueSafe o := by
  have hi : ∀ s, Reach step (fun s e => inTime s e = true) (init o) s → Safe s := fun s hr =>
    hr.invariant (init_safe o) fun _ _ _ hi hg h => step_safe hi hg h
  exact ⟨fun s hr => (hi s hr).fault, fun s e s' hr hg h => late_faults (hi s hr) hg h⟩

/-! ## A datagram during component_uninit -/

def started : List Ev := [.udpHandleRun true, .loop]

/-- msg_queue_destroy, with msg_thread in its first msgrcv. -/
def destroyed : List Ev := [.msg, .main, .main, .main, .msgrcv false true, .main, .main]

/-- One datagram is relayed, then nothing comes while component_uninit runs to its end. -/
theorem safe_when_quiet : ∃ s, Reach step (fun s e => inTime s e = true) (init ⟨true, true, true⟩) s ∧
    (s.main = .done ∧ s.msgQueue = .freed ∧ s.loop = .ended) ∧ s.fault = false := by
  obtain ⟨s, hr, h⟩ := reach_of_runIf step inTime (init ⟨true, true, true⟩)
    (fun s => s.main = .done ∧ s.msgQueue = .freed ∧ s.loop = .ended)
    (started ++ [.msg, .datagram, .loop, .loop, .loop, .loop, .msgSend true, .msgsnd true, .msgrcv true false, .msg, .msg,
      .msg, .msg, .asyncSend, .sendData true true, .onSend, .msg, .msg, .msg] ++ destroyed ++
      [.main, .main, .asyncClose, .uvRunEnds, .main]) ⟨_, rfl, by decide⟩
  exact ⟨s, hr, h, (queue_safe ⟨true, true, true⟩).safe s hr⟩

/-- A datagram comes between msg_queue_destroy and udp_handle_close; and component_uninit without a queue. -/
theorem reads_after_free :
    (∃ s, Reach step Free (init ⟨true, true, true⟩) s ∧ s.msgQueue = .freed ∧ s.fault = true) ∧
    ∃ s, Reach step Free (init ⟨false, false, true⟩) s ∧ s.msgQueue = .null ∧ s.fault = true :=
  ⟨reach_of_run step _ _ (started ++ destroyed ++ [.datagram, .loop, .loop, .loop, .loop]) ⟨_, rfl, by decide⟩,
    reach_of_run step _ _ [.main] ⟨_, rfl, by decide⟩⟩

end UvWrapper.Component.Shutdown
