/-
  UvWrapper.Component.RelayProofs — the relay's state over runs in which no malloc, msgsnd
  or uv_udp_send fails.

  `Move` is one such step, with what it found and what it left. Each part of the state has
  an invariant of its own that every move keeps: the hand-off from on_msg to the loop
  (`Sending`), the blocks of the messages on their way (`Copies`), and the peer (`Peer`).
-/

import UvWrapper.Component.Relay

namespace UvWrapper.Component.Relay

open UvWrapper.Lib UvWrapper.Lib.Trace

variable {capacity : Nat} {s s' : St}

/-! ## The steps -/

inductive Move (capacity : Nat) (s : St) : Ev → St → Prop
  | datagram (d : Datagram) : s.loop = .poll → d.bytes.length ≤ maxBufLen →
      Move capacity s (.datagram d) { s with loop := .initPeer d, got := s.got ++ [d] }
  | known (d : Datagram) : s.loop = .initPeer d → s.initPeer = true →
      Move capacity s .onData { s with loop := .msgSend d }
  | first (d : Datagram) : s.loop = .initPeer d → s.initPeer = false →
      Move capacity s .onData { s with peerAddr := d.peer, loop := .setInit d }
  | setInit (d : Datagram) : s.loop = .setInit d →
      Move capacity s .onData { s with initPeer := true, loop := .msgSend d }
  | malloc (d : Datagram) (p : Nat) : s.loop = .msgSend d → 0 < p → s.heap p = none →
      Move capacity s (.msgSend (some p))
        { s with heap := Function.update s.heap p (some d.bytes), loop := .msgsnd (message p d.bytes.length 0) }
  | msgsnd (m : Msg) : s.loop = .msgsnd m →
      Move capacity s (.msgsnd true) { s with queue := s.queue ++ [m], loop := .poll }
  | msgrcv (m : Msg) (q : List Msg) (above : Nat → UInt8) : s.msg = .msgrcv → s.queue = m :: q →
      Move capacity s (.msgrcv above) { s with queue := q, msg := if m.msgBuf = 0 then .msgrcv else .onMsg m above }
  | enter (m : Msg) (above : Nat → UInt8) : s.msg = .onMsg m above → s.initPeer = true →
      Move capacity s .onMsg { s with h := s.h.call (), msg := .sending m above }
  | skip (m : Msg) (above : Nat → UInt8) : s.msg = .onMsg m above → s.initPeer = false →
      Move capacity s .onMsg { s with msg := .free m }
  | send (m : Msg) (above : Nat → UInt8) (s' : St) : s.msg = .sending m above →
      udpSendData s .addrOfData m = some s' → Move capacity s .onMsg s'
  | free (m : Msg) : s.msg = .free m →
      Move capacity s .onMsg { s with heap := Function.update s.heap m.msgBuf none, msg := .msgrcv }
  | asyncSend : s.loop = .poll → s.h.pending = true →
      Move capacity s .asyncSend { s with h := s.h.take, loop := .sendData }
  | sendData : s.loop = .sendData → Move capacity s (.sendData true true)
      { s with sent := s.sent ++ [submission s], loop := .poll, inflight := s.inflight + 1 }
  | onSend : s.loop = .poll → 0 < s.inflight →
      Move capacity s .onSend (checkFlag { s with inflight := s.inflight - 1 })

theorem goodStep_move {e : Ev} (h : goodStep capacity s e = some s') : Move capacity s e s' := by
  unfold goodStep at h
  split at h
  · rename_i hok
    cases e with
    | datagram d =>
      simp only [step] at h
      split at h
      · rename_i hl
        split at h <;> cases h
        rename_i hd
        exact .datagram d hl hd.2
      · cases h
    | onData =>
      simp only [step, onData] at h
      split at h
      · rename_i d hl
        split at h <;> cases h
        · rename_i hp; exact .known d hl hp
        · rename_i hp; exact .first d hl (by simpa using hp)
      · rename_i d hl; cases h; exact .setInit d hl
      · cases h
    | msgSend malloc =>
      simp only [step, msgSend] at h
      split at h
      · rename_i d hl
        cases malloc with
        | none => cases hok
        | some p =>
          simp only at h
          split at h <;> cases h
          rename_i hp
          exact .malloc d p hl hp.1 hp.2.2
      · cases h
    | msgsnd succeeds =>
      simp only [step, Relay.msgsnd] at h
      split at h
      · rename_i m hl
        cases succeeds with
        | false => cases hok
        | true =>
          rw [if_pos rfl] at h
          split at h <;> cases h
          exact .msgsnd m hl
      · cases h
    | msgrcv above =>
      simp only [step, Relay.msgrcv] at h
      split at h
      · rename_i m q hm hq; cases h; exact .msgrcv m q above hm hq
      · cases h
    | onMsg =>
      simp only [step, Relay.onMsg] at h
      split at h
      · cases h
      · rename_i m above hm
        split at h <;> cases h
        · rename_i hp; exact .enter m above hm hp
        · rename_i hp; exact .skip m above hm (by simpa using hp)
      · rename_i m above hm; exact .send m above s' hm h
      · rename_i m hm; cases h; exact .free m hm
    | asyncSend =>
      simp only [step, asyncSendCb] at h
      split at h
      · rename_i hl
        split at h <;> cases h
        rename_i hp
        exact .asyncSend hl hp
      · cases h
    | sendData malloc accepted =>
      obtain ⟨rfl, rfl⟩ : malloc = true ∧ accepted = true := by simpa [Ev.succeeds] using hok
      simp only [step, Relay.sendData] at h
      split at h
      · rename_i hl; cases h; exact .sendData hl
      · cases h
    | onSend =>
      simp only [step, onSendCb] at h
      split at h
      · rename_i hl
        split at h <;> cases h
        rename_i hp
        exact .onSend hl hp
      · cases h
  · cases h

/-- udp_send_data touches the socket, and the message thread's place at its return. -/
theorem udpSendData_frame {p : Ptr} {m : Msg} (h : udpSendData s p m = some s') :
    ∃ h' f d1 d2 q, s' = { s with h := h', asyncSendFlag := f, data1 := d1, data2 := d2, msg := q } ∧
      (q = s.msg ∨ q = .free m) := by
  unfold udpSendData at h
  repeat' split at h
  all_goals first
    | (cases h; exact ⟨_, _, _, _, _, rfl, .inl rfl⟩)
    | (cases h; exact ⟨_, _, _, _, _, rfl, .inr rfl⟩)
    | cases h

theorem checkFlag_frame (s : St) : ∃ h', checkFlag s = { s with h := h' } := by
  unfold checkFlag
  split
  · exact ⟨_, rfl⟩
  · exact ⟨s.h, rfl⟩

/-! ## The send -/

def LoopPc.owes : LoopPc → Nat
  | .sendData => 1
  | _ => 0

/-- How many of flag, data1 and data2 the send has stored. -/
def stored : Pc Stage → Nat
  | .crit .data1 => 1
  | .crit .data2 => 2
  | .crit .asyncData | .crit .notify | .wait => 3
  | _ => 0

structure Sending (s : St) : Prop where
  hand : Handoff.Inv s.h (s.loop.owes + s.inflight) 0
  calls : calling s = s.msg.inSend
  flag : 1 ≤ stored (s.h.pc ()) → s.asyncSendFlag = true
  data1 : ∀ m above, s.msg = .sending m above → 2 ≤ stored (s.h.pc ()) →
    s.data1 = some (uvBufInit .addrOfData m.msgSize)
  data2 : 3 ≤ stored (s.h.pc ()) → s.data2 = true

theorem init_sending : Sending init :=
  ⟨Handoff.init_inv, rfl, fun h => absurd h (by decide), fun _ _ h => (by cases h), fun h => absurd h (by decide)⟩

/-- What is on its way is for on_msg, which waits for it. -/
theorem Sending.waits (hi : Sending s) (hp : 0 < s.h.pending.toNat + (s.loop.owes + s.inflight) + s.h.sem) :
    s.h.pc () = .wait ∧ (∃ m above, s.msg = .sending m above) ∧
      s.h.pending.toNat + (s.loop.owes + s.inflight) + s.h.sem = 1 := by
  obtain ⟨⟨_, hw⟩, h1⟩ := hi.hand.wait_of_pos hp
  exact ⟨hw, MsgPc.inSend_iff.mp (hi.calls.symm.trans (by simp [calling, hw])), h1⟩

/-- Outside a send the mutex is free and nothing is on its way. -/
theorem Sending.quiet (hi : Sending s) (hm : s.msg.inSend = false) :
    (s.h.pc ()).inside = false ∧ s.h.sem = 0 ∧ s.inflight = 0 := by
  have hc := hi.calls.trans hm
  have hin : (s.h.pc ()).inside = false := by
    unfold calling at hc
    cases hp : s.h.pc () <;> simp_all
  have hfree : s.h.mutex = none := by
    cases hx : s.h.mutex with
    | none => rfl
    | some u => rw [(hi.hand.holder ()).mpr hx] at hin; cases hin
  obtain ⟨h1, -, h2, -⟩ := hi.hand.sem_idle hfree
  exact ⟨hin, h1, by omega⟩

theorem udpSendData_sending (hi : Sending s) {m : Msg} {above : Nat → UInt8} (hm : s.msg = .sending m above)
    (h : udpSendData s .addrOfData m = some s') (hc : calling s' = s'.msg.inSend) : Sending s' := by
  have hd1 := hi.data1 m above hm
  have hf := hi.flag
  have hd2 := hi.data2
  have hmsg : ∀ m' above', s.msg = .sending m' above' → m' = m := fun m' above' h' => by
    rw [hm] at h'; cases h'; rfl
  unfold udpSendData at h
  cases hpc : s.h.pc () with
  | idle => rw [hpc] at h; cases h
  | ret => rw [hpc] at h; cases h
  | want =>
    rw [hpc] at h
    simp only at h
    split at h <;> cases h
    rename_i hfree
    refine ⟨Handoff.lock_inv hi.hand hfree, hc, ?_, fun _ _ _ => ?_, ?_⟩ <;> simp [Handoff.lock, stored]
  | crit a =>
    rw [hpc] at h hf hd1 hd2
    cases a with
    | flag =>
      cases h
      refine ⟨Handoff.goto_inv hi.hand hpc, hc, fun _ => rfl, fun _ _ _ => ?_, ?_⟩ <;> simp [Handoff.goto, stored]
    | data1 =>
      cases h
      refine ⟨Handoff.goto_inv hi.hand hpc, hc, fun _ => hf (Nat.le_refl _), fun m' above' h' _ => ?_, ?_⟩
      · rw [hmsg m' above' h']
      · simp [Handoff.goto, stored]
    | data2 =>
      cases h
      refine ⟨Handoff.goto_inv hi.hand hpc, hc, fun _ => hf (by decide), fun m' above' h' _ => ?_, fun _ => rfl⟩
      rw [hmsg m' above' h']; exact hd1 (Nat.le_refl _)
    | asyncData =>
      cases h
      refine ⟨Handoff.goto_inv hi.hand hpc, hc, fun _ => hf (by decide), fun m' above' h' _ => ?_,
        fun _ => hd2 (Nat.le_refl _)⟩
      rw [hmsg m' above' h']; exact hd1 (by decide)
    | notify =>
      cases h
      refine ⟨Handoff.notify_inv hi.hand hpc, hc, fun _ => hf (by decide), fun m' above' h' _ => ?_,
        fun _ => hd2 (Nat.le_refl _)⟩
      rw [hmsg m' above' h']; exact hd1 (by decide)
  | wait =>
    rw [hpc] at h
    simp only at h
    split at h <;> cases h
    rename_i hs
    refine ⟨Handoff.wake_inv hi.hand hpc hs, hc, ?_, fun _ _ _ => ?_, ?_⟩ <;> simp [Handoff.wake, stored]
  | woken =>
    rw [hpc] at h
    cases h
    refine ⟨Handoff.unlock_inv hi.hand hpc, hc, ?_, fun _ _ _ => ?_, ?_⟩ <;> simp [Handoff.unlock, stored]

theorem move_sending (hi : Sending s) {e : Ev} (h : Move capacity s e s') (hc : calling s' = s'.msg.inSend) :
    Sending s' := by
  have hh := hi.hand
  cases h with
  | send m above _ hm hs => exact udpSendData_sending hi hm hs hc
  | enter m above hm hp =>
    obtain ⟨hin, -⟩ := hi.quiet (by rw [hm]; rfl)
    refine ⟨Handoff.setPc_outside hh hin rfl, hc, ?_, fun _ _ _ => ?_, ?_⟩ <;> simp [Handoff.call, stored]
  | msgrcv m q above hm hq =>
    refine ⟨hh, hc, hi.flag, fun m' above' h' => ?_, hi.data2⟩
    simp only at h'
    split at h' <;> cases h'
  | skip m above hm hp => exact ⟨hh, hc, hi.flag, fun _ _ h => (by cases h), hi.data2⟩
  | free m hm => exact ⟨hh, hc, hi.flag, fun _ _ h => (by cases h), hi.data2⟩
  | asyncSend hl hp =>
    rw [hl] at hh
    refine ⟨?_, hc, hi.flag, hi.data1, hi.data2⟩
    show Handoff.Inv s.h.take (1 + s.inflight) 0
    rw [Nat.add_comm]
    exact Handoff.take_inv (by simpa [LoopPc.owes] using hh) hp
  | sendData hl =>
    rw [hl] at hh
    exact ⟨by rw [Nat.add_comm] at hh; simpa [LoopPc.owes] using hh, hc, hi.flag, hi.data1, hi.data2⟩
  | onSend hl hp =>
    obtain ⟨hw, -, -⟩ := hi.waits (by omega)
    have hf : s.asyncSendFlag = true := hi.flag (by rw [hw]; decide)
    simp only [checkFlag, hf, if_true] at hc ⊢
    refine ⟨Handoff.post_inv ?_, hc, fun _ => rfl, hi.data1, hi.data2⟩
    have : s.loop.owes + (s.inflight - 1) + 1 = s.loop.owes + s.inflight := by omega
    rwa [this]
  | datagram d hl | known d hl | first d hl | setInit d hl | malloc d p hl | msgsnd m hl =>
    rw [hl] at hh
    exact ⟨hh, hc, hi.flag, hi.data1, hi.data2⟩

/-! ## The copies -/

def MsgPc.held : MsgPc → List Msg
  | .msgrcv => []
  | .onMsg m _ | .sending m _ | .free m => [m]

def LoopPc.held : LoopPc → List Msg
  | .msgsnd m => [m]
  | _ => []

def LoopPc.fresh : LoopPc → List Datagram
  | .initPeer d | .setInit d | .msgSend d => [d]
  | _ => []

/-- Every message there is, oldest first. -/
def held (s : St) : List Msg := s.msg.held ++ (s.queue ++ s.loop.held)

structure Copies (s : St) : Prop where
  apart : ((held s).map Msg.msgBuf).Nodup
  inUse : ∀ m ∈ held s, m.msgBuf ≠ 0 ∧ s.heap m.msgBuf ≠ none

theorem Copies.of_held (hi : Copies s) (hh : held s' = held s) (hp : s'.heap = s.heap) : Copies s' :=
  ⟨hh ▸ hi.apart, by rw [hh, hp]; exact hi.inUse⟩

/-- A new block leaves the others' contents alone. -/
theorem Copies.malloc (hi : Copies s) {p : Nat} (hp : s.heap p = none) (v : List UInt8) {m : Msg} (hm : m ∈ held s) :
    Function.update s.heap p (some v) m.msgBuf = s.heap m.msgBuf :=
  Function.update_of_ne (fun he : m.msgBuf = p => (hi.inUse m hm).2 (he ▸ hp)) _ _

/-- Freeing on_msg's block leaves the others' contents alone. -/
theorem Copies.free (hi : Copies s) {m : Msg} (hm : s.msg = .free m) {n : Msg} (hn : n ∈ s.queue ++ s.loop.held) :
    Function.update s.heap m.msgBuf none n.msgBuf = s.heap n.msgBuf := by
  have ha := hi.apart
  simp only [held, hm, MsgPc.held, List.singleton_append, List.map_cons, List.nodup_cons] at ha
  exact Function.update_of_ne (fun he : n.msgBuf = m.msgBuf => ha.1 (he ▸ List.mem_map_of_mem hn)) _ _

theorem move_copies (hi : Copies s) {e : Ev} (h : Move capacity s e s') : Copies s' := by
  cases h with
  | datagram d hl | known d hl | first d hl | setInit d hl | asyncSend hl | sendData hl =>
    exact hi.of_held (by simp [held, hl, LoopPc.held]) rfl
  | malloc d p hl h0 hp =>
    generalize hn : message p d.bytes.length 0 = n
    have hbuf : n.msgBuf = p := by rw [← hn]; rfl
    have hnew : s.msg.held ++ (s.queue ++ [n]) = held s ++ [n] := by simp [held, hl, LoopPc.held]
    refine ⟨?_, fun m hm => ?_⟩
    · show ((s.msg.held ++ (s.queue ++ [n])).map Msg.msgBuf).Nodup
      rw [hnew, List.map_append, List.map_cons, List.map_nil]
      refine nodup_snoc hi.apart fun ha => ?_
      obtain ⟨m, hm, he⟩ := List.mem_map.mp ha
      exact (hi.inUse m hm).2 (by rw [he, hbuf]; exact hp)
    · have hm : m ∈ held s ++ [n] := hnew ▸ hm
      show m.msgBuf ≠ 0 ∧ Function.update s.heap p (some d.bytes) m.msgBuf ≠ none
      rcases List.mem_append.mp hm with hm | hm
      · rw [hi.malloc hp _ hm]
        exact hi.inUse m hm
      · rw [List.mem_singleton.mp hm, hbuf, Function.update_self]
        exact ⟨Nat.ne_of_gt h0, by simp⟩
  | msgsnd m hl => exact hi.of_held (by simp [held, hl, LoopPc.held]) rfl
  | msgrcv m q above hm hq =>
    have h0 : m.msgBuf ≠ 0 := (hi.inUse m (by simp [held, hq])).1
    exact hi.of_held (by simp [held, hm, hq, h0, MsgPc.held]) rfl
  | enter m above hm | skip m above hm => exact hi.of_held (by simp [held, hm, MsgPc.held]) rfl
  | send m above _ hm hs =>
    obtain ⟨h', f, d1, d2, q, rfl, rfl | rfl⟩ := udpSendData_frame hs
    · exact hi.of_held rfl rfl
    · exact hi.of_held (by simp [held, hm, MsgPc.held]) rfl
  | free m hm =>
    have hold : held s = m :: (s.queue ++ s.loop.held) := by simp [held, hm, MsgPc.held]
    have ha := hi.apart
    rw [hold, List.map_cons, List.nodup_cons] at ha
    refine ⟨ha.2, fun n hn => ?_⟩
    show n.msgBuf ≠ 0 ∧ Function.update s.heap m.msgBuf none n.msgBuf ≠ none
    rw [hi.free hm hn]
    exact hi.inUse n (hold ▸ List.mem_cons_of_mem _ hn)
  | onSend hl =>
    obtain ⟨h', he⟩ := checkFlag_frame { s with inflight := s.inflight - 1 }
    rw [he]
    exact hi.of_held rfl rfl

/-! ## The peer -/

structure Peer (s : St) : Prop where
  set : s.initPeer = true → ∃ d r, s.got = d :: r ∧ s.peerAddr = d.peer
  unset : s.initPeer = false → held s = [] ∧ (s.got = [] ∧ s.loop.fresh = [] ∨
    ∃ d, s.got = [d] ∧ (s.loop = .initPeer d ∨ s.loop = .setInit d ∧ s.peerAddr = d.peer))

/-- Before init_peer is set there is no message. -/
theorem Peer.known (hi : Peer s) (h : held s ≠ []) : s.initPeer = true := by
  cases hp : s.initPeer with
  | true => rfl
  | false => exact absurd (hi.unset hp).1 h

theorem Peer.of_held (hi : Peer s) (hh : held s ≠ []) (hg : s'.got = s.got) (hp : s'.peerAddr = s.peerAddr)
    (hs : s'.initPeer = s.initPeer) : Peer s' := by
  have hk := hi.known hh
  refine ⟨fun _ => ?_, fun hn => ?_⟩
  · rw [hg, hp]; exact hi.set hk
  · rw [hs, hk] at hn; cases hn

theorem move_peer (hi : Peer s) {e : Ev} (h : Move capacity s e s') : Peer s' := by
  cases h with
  | datagram d hl =>
    refine ⟨fun hp => ?_, fun hp => ?_⟩
    · obtain ⟨d0, r, hg, ha⟩ := hi.set hp
      exact ⟨d0, r ++ [d], by simp [hg], ha⟩
    · obtain ⟨hh, ⟨hg, -⟩ | ⟨d0, -, hc | ⟨hc, -⟩⟩⟩ := hi.unset hp
      · exact ⟨by simpa [held, hl, LoopPc.held] using hh, .inr ⟨d, by simp [hg], .inl rfl⟩⟩
      · rw [hl] at hc; cases hc
      · rw [hl] at hc; cases hc
  | known d hl hp => exact ⟨hi.set, fun hn => by rw [hp] at hn; cases hn⟩
  | first d hl hp =>
    refine ⟨fun hn => (by rw [hp] at hn; cases hn), fun _ => ?_⟩
    obtain ⟨hh, ⟨-, hf⟩ | ⟨d0, hg, hc | ⟨hc, -⟩⟩⟩ := hi.unset hp
    · rw [hl] at hf; cases hf
    · rw [hl] at hc; cases hc
      exact ⟨by simpa [held, hl, LoopPc.held] using hh, .inr ⟨d, hg, .inr ⟨rfl, rfl⟩⟩⟩
    · rw [hl] at hc; cases hc
  | setInit d hl =>
    refine ⟨fun _ => ?_, nofun⟩
    cases hp : s.initPeer with
    | true => exact hi.set hp
    | false =>
      obtain ⟨-, ⟨-, hf⟩ | ⟨d0, hg, hc | ⟨-, ha⟩⟩⟩ := hi.unset hp
      · rw [hl] at hf; cases hf
      · rw [hl] at hc; cases hc
      · exact ⟨d0, [], hg, ha⟩
  | malloc d p hl =>
    refine ⟨hi.set, fun hp => ?_⟩
    obtain ⟨-, ⟨-, hf⟩ | ⟨d0, -, hc | ⟨hc, -⟩⟩⟩ := hi.unset hp
    · rw [hl] at hf; cases hf
    · rw [hl] at hc; cases hc
    · rw [hl] at hc; cases hc
  | msgsnd m hl => exact hi.of_held (by simp [held, hl, LoopPc.held]) rfl rfl rfl
  | msgrcv m q above hm hq => exact hi.of_held (by simp [held, hq]) rfl rfl rfl
  | enter m above hm | skip m above hm => exact hi.of_held (by simp [held, hm, MsgPc.held]) rfl rfl rfl
  | send m above _ hm hs =>
    obtain ⟨h', f, d1, d2, q, rfl, -⟩ := udpSendData_frame hs
    exact hi.of_held (by simp [held, hm, MsgPc.held]) rfl rfl rfl
  | free m hm => exact hi.of_held (by simp [held, hm, MsgPc.held]) rfl rfl rfl
  | asyncSend hl | sendData hl =>
    refine ⟨hi.set, fun hp => ?_⟩
    obtain ⟨hh, ⟨hg, -⟩ | ⟨d0, -, hc | ⟨hc, -⟩⟩⟩ := hi.unset hp
    · exact ⟨by simpa [held, hl, LoopPc.held] using hh, .inl ⟨hg, rfl⟩⟩
    · rw [hl] at hc; cases hc
    · rw [hl] at hc; cases hc
  | onSend hl =>
    obtain ⟨h', he⟩ := checkFlag_frame { s with inflight := s.inflight - 1 }
    rw [he]
    exact ⟨hi.set, hi.unset⟩

end UvWrapper.Component.Relay
