/-
  UvWrapper.Component.RelayDeadlock — the loop thread waits in msgsnd for room that only
  the message thread makes; the message thread waits in uv_sem_wait for a post that only
  the loop thread makes.

  Proved, for runs in which any malloc, msgsnd or uv_udp_send may fail: as long as on_data
  starts a msg_send only while the queue has room, or while the message thread is not in a
  send whose post is still to be made, the two never wait for each other
  (`never_deadlocked`). A queue of one message and three datagrams lock them
  (`locked_after_three`).
-/

import UvWrapper.Component.Relay

namespace UvWrapper.Component.Relay

open UvWrapper.Lib.Trace

variable {capacity : Nat} {s s' : St}

def LoopPc.blocks : LoopPc → Bool
  | .msgsnd _ => true
  | _ => false

/-- The loop thread is in msgsnd on a full queue, the message thread in uv_sem_wait with
    nothing posted. -/
def Deadlocked (capacity : Nat) (s : St) : Prop :=
  s.loop.blocks = true ∧ capacity ≤ s.queue.length ∧ s.h.pc () = .wait ∧ s.h.sem = 0

/-- on_msg has still to wait for a post that is not made. -/
def unposted (s : St) : Bool :=
  match s.msg with
  | .onMsg _ _ => s.initPeer
  | .sending _ _ =>
    match s.h.pc () with
    | .wait => s.h.sem == 0
    | .woken => false
    | _ => true
  | _ => false

/-- on_data starts a msg_send only with room in the queue, or while the message thread can
    come back to msgrcv by itself. -/
def roomy (capacity : Nat) (s : St) : Ev → Bool
  | .msgSend _ => decide (s.queue.length < capacity) || !unposted s
  | _ => true

/-! ## Room for the message, or nothing to wait for -/

structure Room (capacity : Nat) (s : St) : Prop where
  bound : s.queue.length ≤ capacity
  calls : calling s = s.msg.inSend
  room : s.loop.blocks = true → s.queue.length < capacity ∨ unposted s = false

theorem init_room : Room capacity init := ⟨Nat.zero_le _, rfl, nofun⟩

/-- A step of on_msg makes no post needed that was not. -/
theorem onMsg_unposted (h : onMsg s = some s') (hu : unposted s = false) : unposted s' = false := by
  unfold onMsg at h
  split at h
  · cases h
  · rename_i m above hm
    have hp : s.initPeer = false := by simpa [unposted, hm] using hu
    rw [hp] at h
    cases h
    rfl
  · rename_i m above hm
    unfold unposted at hu
    rw [hm] at hu
    unfold udpSendData at h
    cases hpc : s.h.pc () with
    | wait =>
      rw [hpc] at h
      simp only at h
      split at h <;> cases h
      simp [unposted, hm, Lib.Handoff.wake]
    | woken => rw [hpc] at h; cases h; rfl
    | _ => rw [hpc] at hu; cases hu
  · cases h; rfl

theorem onMsg_frame (h : onMsg s = some s') : s'.queue = s.queue ∧ s'.loop = s.loop := by
  unfold onMsg udpSendData at h
  repeat' split at h
  all_goals first | (cases h; exact ⟨rfl, rfl⟩) | cases h

theorem step_room (hi : Room capacity s) {e : Ev} (hg : roomy capacity s e = true)
    (h : step capacity s e = some s') : Room capacity s' := by
  have hc := step_calling hi.calls h
  cases e with
  | onMsg =>
    obtain ⟨hq, hl⟩ := onMsg_frame h
    refine ⟨hq ▸ hi.bound, hc, fun hb => ?_⟩
    rw [hq]
    exact (hi.room (hl ▸ hb)).imp_right (onMsg_unposted h)
  | msgrcv above =>
    have hb := hi.bound
    simp only [step, msgrcv] at h
    split at h
    · rename_i m q _ hq
      cases h
      rw [hq, List.length_cons] at hb
      exact ⟨Nat.le_of_succ_le hb, hc, fun _ => .inl hb⟩
    · cases h
  | msgSend malloc =>
    -- the only step that brings the loop thread to msgsnd
    have hroom : s.queue.length < capacity ∨ unposted s = false := by
      simpa [roomy, Bool.or_eq_true] using hg
    simp only [step, msgSend] at h
    repeat' split at h
    all_goals first | (cases h; exact ⟨hi.bound, hc, fun _ => hroom⟩) | cases h
  | msgsnd succeeds =>
    simp only [step, msgsnd] at h
    split at h
    · split at h
      · split at h <;> cases h
        rename_i hlt
        exact ⟨by simpa [Nat.succ_le_iff] using hlt, hc, fun h' => by cases h'⟩
      · cases h
        exact ⟨hi.bound, hc, fun h' => by cases h'⟩
    · cases h
  | onSend =>
    simp only [step, onSendCb, checkFlag] at h
    split at h
    · rename_i hl
      have hb : s.loop.blocks = false := by rw [hl]; rfl
      repeat' split at h
      all_goals first | (cases h; exact ⟨hi.bound, hc, fun h' => absurd h' (by simp [hb])⟩) | cases h
    · cases h
  | _ =>
    simp only [step, onData, asyncSendCb, sendData, checkFlag] at h
    repeat' split at h
    all_goals first | (cases h; exact ⟨hi.bound, hc, fun h' => by cases h'⟩) | cases h

theorem never_deadlocked (capacity : Nat) {s : St}
    (hr : Reach (step capacity) (fun s e => roomy capacity s e = true) init s) : ¬ Deadlocked capacity s := by
  have hi : Room capacity s := hr.invariant init_room fun _ _ _ hi hg h => step_room hi hg h
  intro hd
  obtain ⟨hb, hfull, hw, hs⟩ := hd
  obtain ⟨m, above, hm⟩ := MsgPc.inSend_iff.mp (hi.calls.symm.trans (by simp [calling, hw]))
  rcases hi.room hb with hlt | hu
  · omega
  · simp [unposted, hm, hw, hs] at hu

/-! ## A queue of one message -/

def hello : Datagram := ⟨[104, 105], 7⟩

def receive (p : Nat) : List Ev := [.datagram hello, .onData, .msgSend (some p)]

def sendOne : List Ev := [.msgrcv fun _ => 0, .onMsg, .onMsg, .onMsg, .onMsg, .onMsg, .onMsg, .onMsg]

/-- A second datagram waits in the queue while the first is sent. -/
theorem relayed_with_one_queued :
    ∃ s, Reach (step 1) (fun s e => roomy 1 s e = true) init s ∧ (s.queue.length = 1 ∧ s.sent.length = 1) ∧
      ¬ Deadlocked 1 s := by
  obtain ⟨s, hr, h⟩ := reach_of_runIf (step 1) (roomy 1) init
    (fun s => s.queue.length = 1 ∧ s.sent.length = 1)
    ([.datagram hello, .onData, .onData, .msgSend (some 16), .msgsnd true] ++ sendOne ++ receive 32 ++
      [.msgsnd true, .asyncSend, .sendData true true]) ⟨_, rfl, by decide⟩
  exact ⟨s, hr, h, never_deadlocked 1 hr⟩

/-- The third datagram comes while the second fills the queue and on_msg is sending the first. -/
theorem locked_after_three : ∃ s, Reach (step 1) Free init s ∧ Deadlocked 1 s := by
  unfold Deadlocked
  exact reach_of_run (step 1) init _ ([.datagram hello, .onData, .onData, .msgSend (some 16), .msgsnd true] ++ sendOne ++
    receive 32 ++ [.msgsnd true] ++ receive 48) ⟨_, rfl, by decide⟩

end UvWrapper.Component.Relay
