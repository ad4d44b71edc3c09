/-
  UvWrapper.Component.RelayRest — the relay when calls fail: who frees what, and whether it comes
  back to rest.

  Any malloc, msgsnd or uv_udp_send may fail. A copy whose msgsnd fails is freed at once. A send whose
  malloc fails posts and is over; uv_udp_send's result is not looked at, so one that is refused has no
  on_send_cb, and nobody posts.

  At rest: both threads are at their top, nothing is queued, on its way or allocated. Coming to rest is
  left to the steps that bring no datagram and do not interrupt a msgsnd that waits for room (`restStep`).

  Proved, of every run: each block belongs to one message that some thread or the queue has, and no other
  block is allocated (`Owned`); and the relay can come to rest if and only if no uv_udp_send was refused
  and the two threads are not waiting for each other, or bound to (`rests_iff`). After one refusal
  on_msg waits for good, whatever comes (`Stranded`).
-/

import UvWrapper.Component.RelayDeadlock
import UvWrapper.Component.RelayProofs

namespace UvWrapper.Component.RelayRest

open UvWrapper.Lib UvWrapper.Lib.Trace
open UvWrapper.Component.Relay

variable {capacity : Nat} {s s' : St} {e : Ev} {m : Msg}

/-! ## What is promised -/

def refused : Ev → Bool
  | .sendData true false => true
  | _ => false

/-- No datagram comes in, and msgsnd is not interrupted. -/
def goesOn : Ev → Bool
  | .datagram _ | .msgsnd false => false
  | _ => true

def restStep (capacity : Nat) (s : St) (e : Ev) : Option St := if goesOn e then step capacity s e else none

structure AtRest (s : St) : Prop where
  loop : s.loop = .poll
  msg : s.msg = .msgrcv
  queue : s.queue = []
  heap : ∀ p, s.heap p = none
  pending : s.h.pending = false
  inflight : s.inflight = 0

def bufs (s : St) : List Nat := (held s).map Msg.msgBuf

structure Owned (s : St) : Prop where
  apart : (bufs s).Nodup
  null : 0 ∉ bufs s
  inUse : ∀ p, s.heap p ≠ none ↔ p ∈ bufs s

/-- The loop thread waits for room, and on_msg for a post that is not made, or will. -/
def Locked (capacity : Nat) (s : St) : Prop :=
  s.loop.blocks = true ∧ capacity ≤ s.queue.length ∧ unposted s = true

/-- on_msg waits, and nothing is on its way to it. -/
structure Stranded (s : St) : Prop where
  msg : s.msg.inSend = true
  wait : s.h.pc () = .wait
  sem : s.h.sem = 0
  pending : s.h.pending = false
  loop : s.loop.owes = 0
  inflight : s.inflight = 0

/-! ## Steps that fail -/

inductive Fail (s : St) : Ev → St → Prop
  | malloc (d : Datagram) : s.loop = .msgSend d → Fail s (.msgSend none) { s with loop := .poll }
  | msgsnd (m : Msg) : s.loop = .msgsnd m →
      Fail s (.msgsnd false) { s with heap := Function.update s.heap m.msgBuf none, loop := .poll }
  | sendMalloc (accepted : Bool) : s.loop = .sendData →
      Fail s (.sendData false accepted) { checkFlag s with loop := .poll }
  | refused : s.loop = .sendData →
      Fail s (.sendData true false) { s with sent := s.sent ++ [submission s], loop := .poll }

theorem step_cases (h : step capacity s e = some s') : Move capacity s e s' ∨ Fail s e s' := by
  by_cases hok : e.succeeds = true
  · exact .inl (goodStep_move (show goodStep capacity s e = some s' by rw [goodStep, if_pos hok, h]))
  · right
    cases e with
    | msgSend malloc =>
      cases malloc with
      | some p => exact absurd rfl hok
      | none =>
        simp only [step, Relay.msgSend] at h
        split at h
        · rename_i d hl; cases h; exact .malloc d hl
        · cases h
    | msgsnd succeeds =>
      cases succeeds with
      | true => exact absurd rfl hok
      | false =>
        simp only [step, Relay.msgsnd] at h
        split at h
        · rename_i m hl; cases h; exact .msgsnd m hl
        · cases h
    | sendData malloc accepted =>
      simp only [step, Relay.sendData] at h
      split at h
      · rename_i hl
        cases malloc with
        | false => cases h; exact .sendMalloc accepted hl
        | true =>
          cases accepted with
          | true => exact absurd rfl hok
          | false => cases h; exact .refused hl
      · cases h
    | _ => exact absurd rfl hok

/-! ## Who owns what -/

theorem Owned.same (ho : Owned s) (hh : held s' = held s) (hp : s'.heap = s.heap) : Owned s' := by
  have hb : bufs s' = bufs s := congrArg (List.map Msg.msgBuf) hh
  exact ⟨hb ▸ ho.apart, hb ▸ ho.null, fun p => by rw [hp, hb]; exact ho.inUse p⟩

/-- A message with a new block is the last one. -/
theorem Owned.add (ho : Owned s) (hh : held s' = held s ++ [m]) {v : List UInt8}
    (hp : s'.heap = Function.update s.heap m.msgBuf (some v)) (h0 : m.msgBuf ≠ 0) (hfree : s.heap m.msgBuf = none) :
    Owned s' := by
  have hb : bufs s' = bufs s ++ [m.msgBuf] := by rw [bufs, hh, List.map_append]; rfl
  have hnew : m.msgBuf ∉ bufs s := fun h => (ho.inUse _).mpr h hfree
  refine ⟨hb ▸ nodup_snoc ho.apart hnew, ?_, fun p => ?_⟩
  · rw [hb, List.mem_append, List.mem_singleton]
    exact fun h => h.elim ho.null fun h => h0 h.symm
  · rw [hp, hb, List.mem_append, List.mem_singleton]
    by_cases hpm : p = m.msgBuf
    · rw [hpm, Function.update_self]
      simp
    · rw [Function.update_of_ne hpm, ho.inUse p]
      simp [hpm]

/-- A message and its block go. -/
theorem Owned.drop (ho : Owned s) {l r : List Msg} (hh : held s = l ++ m :: r) (hh' : held s' = l ++ r)
    (hp : s'.heap = Function.update s.heap m.msgBuf none) : Owned s' := by
  have hb : bufs s = l.map Msg.msgBuf ++ m.msgBuf :: r.map Msg.msgBuf := by rw [bufs, hh, List.map_append, List.map_cons]
  have hb' : bufs s' = l.map Msg.msgBuf ++ r.map Msg.msgBuf := by rw [bufs, hh', List.map_append]
  have ha := ho.apart
  rw [hb, List.nodup_middle, List.nodup_cons, ← hb'] at ha
  have hmem : ∀ p, p ∈ bufs s ↔ p = m.msgBuf ∨ p ∈ bufs s' := by
    intro p
    rw [hb, hb', List.mem_append, List.mem_cons, List.mem_append, or_left_comm]
  refine ⟨ha.2, fun h0 => ho.null ((hmem 0).mpr (.inr h0)), fun p => ?_⟩
  rw [hp]
  by_cases hpm : p = m.msgBuf
  · rw [hpm, Function.update_self]
    simp [ha.1]
  · rw [Function.update_of_ne hpm, ho.inUse p, hmem p]
    simp [hpm]

theorem move_owned (ho : Owned s) (h : Move capacity s e s') : Owned s' := by
  cases h with
  | datagram d hl | known d hl | first d hl | setInit d hl | asyncSend hl | sendData hl =>
    exact ho.same (by simp [held, hl, LoopPc.held]) rfl
  | malloc d p hl h0 hp =>
    exact ho.add (m := message p d.bytes.length 0) (by simp [held, hl, LoopPc.held]) rfl (Nat.ne_of_gt h0) hp
  | msgsnd m hl => exact ho.same (by simp [held, hl, LoopPc.held]) rfl
  | msgrcv m q above hm hq =>
    have h0 : m.msgBuf ≠ 0 := by
      intro h0
      exact ho.null (h0 ▸ List.mem_map_of_mem (by simp [held, hq]))
    exact ho.same (by simp [held, hm, hq, h0, MsgPc.held]) rfl
  | enter m above hm | skip m above hm => exact ho.same (by simp [held, hm, MsgPc.held]) rfl
  | send m above _ hm hs =>
    obtain ⟨h', f, d1, d2, q, rfl, rfl | rfl⟩ := udpSendData_frame hs
    · exact ho.same rfl rfl
    · exact ho.same (by simp [held, hm, MsgPc.held]) rfl
  | free m hm =>
    exact ho.drop (l := []) (r := s.queue ++ s.loop.held) (by simp [held, hm, MsgPc.held])
      (by simp [held, MsgPc.held]) rfl
  | onSend hl =>
    obtain ⟨h', he⟩ := checkFlag_frame { s with inflight := s.inflight - 1 }
    rw [he]
    exact ho.same rfl rfl

theorem fail_owned (ho : Owned s) (h : Fail s e s') : Owned s' := by
  cases h with
  | malloc d hl => exact ho.same (by simp [held, hl, LoopPc.held]) rfl
  | msgsnd m hl =>
    exact ho.drop (l := s.msg.held ++ s.queue) (r := []) (by simp [held, hl, LoopPc.held])
      (by simp [held, LoopPc.held]) rfl
  | sendMalloc accepted hl =>
    obtain ⟨h', he⟩ := checkFlag_frame s
    rw [he]
    exact ho.same (by simp [held, hl, LoopPc.held]) rfl
  | refused hl => exact ho.same (by simp [held, hl, LoopPc.held]) rfl

/-! ## What is owed to on_msg -/

theorem fail_sending (hi : Sending s) (h : Fail s e s') (hr : refused e = false) (hc : calling s' = s'.msg.inSend) :
    Sending s' := by
  have hh := hi.hand
  cases h with
  | malloc d hl | msgsnd m hl =>
    rw [hl] at hh
    exact ⟨hh, hc, hi.flag, hi.data1, hi.data2⟩
  | sendMalloc accepted hl =>
    -- the post that on_send_cb would have made
    rw [hl] at hh
    obtain ⟨hw, -, -⟩ := hi.waits (by rw [hl]; show 0 < _ + (1 + _) + _; omega)
    have hf : s.asyncSendFlag = true := hi.flag (by rw [hw]; decide)
    simp only [checkFlag, hf, if_true] at hc ⊢
    refine ⟨Handoff.post_inv ?_, hc, fun _ => rfl, hi.data1, hi.data2⟩
    rw [show LoopPc.poll.owes + s.inflight + 1 = LoopPc.sendData.owes + s.inflight by simp [LoopPc.owes]; omega]
    exact hh
  | refused hl => cases hr

/-- A refused send is the one that on_msg waits for. -/
theorem refused_stranded (hi : Sending s) (h : Fail s e s') (hr : refused e = true) : Stranded s' := by
  cases h with
  | refused hl =>
    obtain ⟨hw, ⟨m, above, hm⟩, h1⟩ := hi.waits (by rw [hl]; show 0 < _ + (1 + _) + _; omega)
    have h2 : s.h.pending.toNat + (1 + s.inflight) + s.h.sem = 1 := by rw [hl] at h1; exact h1
    have hp : s.h.pending = false := by
      cases hp : s.h.pending with
      | false => rfl
      | true => rw [hp, Bool.toNat_true] at h2; omega
    exact ⟨by simp [hm, MsgPc.inSend], hw, by show s.h.sem = 0; omega, hp, rfl, by show s.inflight = 0; omega⟩
  | _ => cases hr

theorem step_stranded (hi : Stranded s) (h : step capacity s e = some s') : Stranded s' := by
  obtain ⟨hm, hw, hs, hp, hl, hf⟩ := hi
  rcases step_cases h with h | h
  · cases h with
    | datagram d hl' | known d hl' | first d hl' | setInit d hl' | malloc d p hl' | msgsnd m hl' =>
      exact ⟨hm, hw, hs, hp, rfl, hf⟩
    | msgrcv m q above hm' | enter m above hm' | skip m above hm' | free m hm' =>
      rw [hm'] at hm
      cases hm
    | send m above _ hm' hsend =>
      unfold udpSendData at hsend
      rw [hw] at hsend
      simp only at hsend
      rw [if_neg (by omega)] at hsend
      cases hsend
    | asyncSend hl' hp' =>
      rw [hp] at hp'
      cases hp'
    | sendData hl' =>
      rw [hl'] at hl
      cases hl
    | onSend hl' hf' => omega
  · cases h with
    | malloc d hl' | msgsnd m hl' => exact ⟨hm, hw, hs, hp, rfl, hf⟩
    | sendMalloc accepted hl' | refused hl' =>
      rw [hl'] at hl
      cases hl

/-! ## Every run -/

theorem step_bound (hb : s.queue.length ≤ capacity) (h : step capacity s e = some s') : s'.queue.length ≤ capacity := by
  cases e with
  | onMsg =>
    obtain ⟨hq, -⟩ := onMsg_frame h
    rw [hq]
    exact hb
  | msgrcv above =>
    simp only [step, Relay.msgrcv] at h
    split at h
    · rename_i m q _ hq
      cases h
      rw [hq, List.length_cons] at hb
      exact Nat.le_of_succ_le hb
    · cases h
  | msgsnd succeeds =>
    simp only [step, Relay.msgsnd] at h
    split at h
    · split at h
      · split at h <;> cases h
        rename_i hlt
        show (s.queue ++ [_]).length ≤ capacity
        rw [List.length_append, List.length_singleton]
        exact hlt
      · cases h
        exact hb
    · cases h
  | _ =>
    simp only [step, onData, Relay.msgSend, asyncSendCb, Relay.sendData, onSendCb, checkFlag] at h
    repeat' split at h
    all_goals first | (cases h; exact hb) | cases h

/-- As long as no uv_udp_send is refused. -/
structure Going (capacity : Nat) (s : St) : Prop where
  send : Sending s
  owned : Owned s
  bound : s.queue.length ≤ capacity

theorem init_owned : Owned init :=
  ⟨List.nodup_nil, List.not_mem_nil, fun _ => ⟨fun h => absurd rfl h, fun h => absurd h List.not_mem_nil⟩⟩

theorem step_owned (ho : Owned s) (h : step capacity s e = some s') : Owned s' := by
  rcases step_cases h with h | h
  · exact move_owned ho h
  · exact fail_owned ho h

theorem step_going (hg : Going capacity s) (hr : refused e = false) (h : step capacity s e = some s') :
    Going capacity s' := by
  have hc := step_calling hg.send.calls h
  refine ⟨?_, step_owned hg.owned h, step_bound hg.bound h⟩
  rcases step_cases h with h | h
  · exact move_sending hg.send h hc
  · exact fail_sending hg.send h hr hc

/-- A run has refused no send, or on_msg is stranded. -/
structure Ran (capacity : Nat) (es : List Ev) (s : St) : Prop where
  owned : Owned s
  going : (∀ e ∈ es, refused e = false) → Going capacity s
  stranded : ¬ (∀ e ∈ es, refused e = false) → Stranded s

theorem run_ran {es : List Ev} (h : run (step capacity) init es = some s) : Ran capacity es s := by
  refine run_induction (P := Ran capacity) ⟨init_owned, fun _ => ⟨init_sending, init_owned, Nat.zero_le _⟩, ?_⟩ ?_ h
  · exact fun hn => absurd (fun e he => absurd he List.not_mem_nil) hn
  · intro es s e s' _ hran hs
    refine ⟨step_owned hran.owned hs, fun hall => ?_, fun hn => ?_⟩
    · have hes : ∀ f ∈ es, refused f = false := fun f hf => hall f (List.mem_append_left _ hf)
      exact step_going (hran.going hes) (hall e (by simp)) hs
    · by_cases hes : ∀ f ∈ es, refused f = false
      · have hr : refused e = true := by
          cases hr : refused e with
          | true => rfl
          | false => exact absurd (by simpa [or_imp, forall_and, hr] using hes) hn
        rcases step_cases hs with hs | hs
        · cases hs <;> cases hr
        · exact refused_stranded (hran.going hes).send hs hr
      · exact step_stranded (hran.stranded hes) hs

/-! ## Waiting for each other -/

theorem blocks_iff {l : LoopPc} : l.blocks = true ↔ ∃ m, l = .msgsnd m := by
  cases l <;> simp [LoopPc.blocks]

/-- on_msg's own steps bring it to its wait, and no further. -/
theorem onMsg_unposted_still (hi : Sending s) (h : onMsg s = some s') (hu : unposted s = true) : unposted s' = true := by
  unfold onMsg at h
  split at h
  · cases h
  · rename_i m above hm
    have hp : s.initPeer = true := by simpa [unposted, hm] using hu
    rw [if_pos hp] at h
    cases h
    simp [unposted, Handoff.call]
  · rename_i m above hm
    unfold udpSendData at h
    cases hpc : s.h.pc () with
    | idle => rw [hpc] at h; cases h
    | ret => rw [hpc] at h; cases h
    | want =>
      rw [hpc] at h
      simp only at h
      split at h <;> cases h
      simp [unposted, hm, Handoff.lock]
    | crit a =>
      have hsem := (hi.hand.crit_quiet (t := ()) (by simp [hpc]) (by simp [hpc])).2.2.1
      rw [hpc] at h
      cases a <;> cases h <;> simp [unposted, hm, Handoff.goto, Handoff.notify, hsem]
    | wait =>
      have hsem : s.h.sem = 0 := by simpa [unposted, hm, hpc] using hu
      rw [hpc] at h
      simp [hsem] at h
    | woken => simp [unposted, hm, hpc] at hu
  · rename_i m hm
    simp [unposted, hm] at hu

theorem step_locked (hg : Going capacity s) (hl : Locked capacity s) (h : restStep capacity s e = some s') :
    Going capacity s' ∧ Locked capacity s' := by
  obtain ⟨hb, hfull, hu⟩ := hl
  obtain ⟨m, hm⟩ := blocks_iff.mp hb
  unfold restStep at h
  split at h
  · rename_i hgo
    cases e with
    | onMsg =>
      obtain ⟨hq, hloop⟩ := onMsg_frame h
      exact ⟨step_going hg rfl h, hloop ▸ hb, hq ▸ hfull, onMsg_unposted_still hg.send h hu⟩
    | msgrcv above =>
      simp only [step, Relay.msgrcv] at h
      split at h
      · rename_i hmsg _
        simp [unposted, hmsg] at hu
      · cases h
    | msgsnd succeeds =>
      cases succeeds with
      | false => cases hgo
      | true =>
        simp only [step, Relay.msgsnd, hm] at h
        rw [if_pos trivial, if_neg (Nat.not_lt.mpr hfull)] at h
        cases h
    | datagram d => cases hgo
    | _ =>
      simp only [step, onData, Relay.msgSend, asyncSendCb, Relay.sendData, onSendCb, hm] at h
      cases h
  · cases h

/-! ## Coming to rest -/

/-- What is left of a send, without the loop's part. -/
def pcRank : Pc Stage → Nat
  | .want => 12
  | .crit .flag => 11
  | .crit .data1 => 10
  | .crit .data2 => 9
  | .crit .asyncData => 8
  | .crit .notify => 7
  | .wait => 3
  | .woken => 2
  | .idle | .ret => 0

def msgRank (s : St) : Nat :=
  match s.msg with
  | .msgrcv => 0
  | .onMsg _ _ => 13
  | .sending _ _ => pcRank (s.h.pc ())
  | .free _ => 1

def loopRank : LoopPc → Nat
  | .initPeer _ => 3
  | .setInit _ => 2
  | .msgSend _ | .msgsnd _ => 1
  | .poll | .sendData => 0

def work (s : St) : Nat :=
  15 * (s.queue.length + s.loop.held.length) + msgRank s + loopRank s.loop + 3 * s.h.pending.toNat +
    2 * s.loop.owes + s.inflight

/-- The loop thread goes on, with room for what it has to put in the queue. -/
theorem loop_goes (hl : s.loop ≠ .poll) (hroom : s.loop.blocks = true → s.queue.length < capacity) :
    ∃ e s', restStep capacity s e = some s' ∧ refused e = false ∧ s'.loop.blocks = false ∧ work s' < work s := by
  cases hloop : s.loop with
  | poll => exact absurd hloop hl
  | initPeer d =>
    cases hp : s.initPeer with
    | true =>
      refine ⟨.onData, { s with loop := .msgSend d }, by simp [restStep, goesOn, step, onData, hloop, hp], rfl, rfl, ?_⟩
      simp [work, msgRank, hloop, loopRank, LoopPc.held, LoopPc.owes]
    | false =>
      refine ⟨.onData, { s with peerAddr := d.peer, loop := .setInit d },
        by simp [restStep, goesOn, step, onData, hloop, hp], rfl, rfl, ?_⟩
      simp [work, msgRank, hloop, loopRank, LoopPc.held, LoopPc.owes]
  | setInit d =>
    refine ⟨.onData, { s with initPeer := true, loop := .msgSend d }, by simp [restStep, goesOn, step, onData, hloop],
      rfl, rfl, ?_⟩
    simp [work, msgRank, hloop, loopRank, LoopPc.held, LoopPc.owes]
  | msgSend d =>
    refine ⟨.msgSend none, { s with loop := .poll }, by simp [restStep, goesOn, step, Relay.msgSend, hloop],
      rfl, rfl, ?_⟩
    simp [work, msgRank, hloop, loopRank, LoopPc.held, LoopPc.owes]
  | msgsnd m =>
    have hr := hroom (by rw [hloop]; rfl)
    refine ⟨.msgsnd true, { s with queue := s.queue ++ [m], loop := .poll },
      by simp [restStep, goesOn, step, Relay.msgsnd, hloop, hr], rfl, rfl, ?_⟩
    simp [work, msgRank, hloop, loopRank, LoopPc.held, LoopPc.owes]
  | sendData =>
    refine ⟨.sendData true true, { s with sent := s.sent ++ [submission s], loop := .poll, inflight := s.inflight + 1 },
      by simp [restStep, goesOn, step, Relay.sendData, hloop], rfl, rfl, ?_⟩
    simp [work, msgRank, hloop, loopRank, LoopPc.held, LoopPc.owes]
    omega

def Waits (s : St) : Prop := s.msg.inSend = true ∧ s.h.pc () = .wait ∧ s.h.sem = 0

theorem onMsg_goes (hi : Sending s) (hm : s.msg ≠ .msgrcv) (hw : ¬ Waits s) :
    ∃ s', onMsg s = some s' ∧ work s' < work s := by
  cases hmsg : s.msg with
  | msgrcv => exact absurd hmsg hm
  | onMsg m above =>
    cases hp : s.initPeer with
    | true =>
      refine ⟨{ s with h := s.h.call (), msg := .sending m above }, by simp [onMsg, hmsg, hp], ?_⟩
      simp [work, msgRank, hmsg, Handoff.call, pcRank]
    | false =>
      refine ⟨{ s with msg := .free m }, by simp [onMsg, hmsg, hp], ?_⟩
      simp [work, msgRank, hmsg]
  | sending m above =>
    have hc : calling s = true := hi.calls.trans (by rw [hmsg]; rfl)
    cases hpc : s.h.pc () with
    | idle => simp [calling, hpc] at hc
    | ret => simp [calling, hpc] at hc
    | want =>
      have hfree : s.h.mutex = none := by
        cases hx : s.h.mutex with
        | none => rfl
        | some u =>
          have := (hi.hand.holder ()).mpr hx
          rw [hpc] at this
          cases this
      refine ⟨{ s with h := s.h.lock () .flag }, by simp [onMsg, hmsg, udpSendData, hpc, hfree], ?_⟩
      simp [work, msgRank, hmsg, Handoff.lock, hpc, pcRank]
    | crit a =>
      have hpend := (hi.hand.crit_quiet (t := ()) (by simp [hpc]) (by simp [hpc])).1
      cases a with
      | flag =>
        refine ⟨{ s with asyncSendFlag := true, h := s.h.goto () .data1 },
          by simp [onMsg, hmsg, udpSendData, hpc], ?_⟩
        simp [work, msgRank, hmsg, Handoff.goto, hpc, pcRank]
      | data1 =>
        refine ⟨{ s with data1 := some (uvBufInit .addrOfData m.msgSize), h := s.h.goto () .data2 },
          by simp [onMsg, hmsg, udpSendData, hpc], ?_⟩
        simp [work, msgRank, hmsg, Handoff.goto, hpc, pcRank]
      | data2 =>
        refine ⟨{ s with data2 := true, h := s.h.goto () .asyncData }, by simp [onMsg, hmsg, udpSendData, hpc], ?_⟩
        simp [work, msgRank, hmsg, Handoff.goto, hpc, pcRank]
      | asyncData =>
        refine ⟨{ s with h := s.h.goto () .notify }, by simp [onMsg, hmsg, udpSendData, hpc], ?_⟩
        simp [work, msgRank, hmsg, Handoff.goto, hpc, pcRank]
      | notify =>
        refine ⟨{ s with h := s.h.notify () }, by simp [onMsg, hmsg, udpSendData, hpc], ?_⟩
        simp [work, msgRank, hmsg, Handoff.notify, hpc, pcRank, hpend]
        omega
    | wait =>
      have hsem : 0 < s.h.sem := by
        refine Nat.pos_of_ne_zero fun h0 => hw ⟨?_, hpc, h0⟩
        rw [hmsg]
        rfl
      refine ⟨{ s with h := s.h.wake () }, by simp [onMsg, hmsg, udpSendData, hpc, hsem], ?_⟩
      simp [work, msgRank, hmsg, Handoff.wake, hpc, pcRank]
    | woken =>
      refine ⟨{ s with h := s.h.unlock (), msg := .free m }, by simp [onMsg, hmsg, udpSendData, hpc], ?_⟩
      simp [work, msgRank, hmsg, Handoff.unlock, hpc, pcRank]
  | free m =>
    refine ⟨{ s with heap := Function.update s.heap m.msgBuf none, msg := .msgrcv }, by simp [onMsg, hmsg], ?_⟩
    simp [work, msgRank, hmsg]

/-- The message thread takes the next message. -/
theorem msgrcv_goes (capacity : Nat) {q : List Msg} (ho : Owned s) (hm : s.msg = .msgrcv) (hq : s.queue = m :: q) :
    ∃ s', restStep capacity s (.msgrcv fun _ => 0) = some s' ∧ s'.loop = s.loop ∧ s'.queue = q ∧ work s' < work s := by
  have h0 : m.msgBuf ≠ 0 := fun h0 => ho.null (h0 ▸ List.mem_map_of_mem (by simp [held, hq]))
  refine ⟨{ s with queue := q, msg := .onMsg m fun _ => 0 }, by simp [restStep, goesOn, step, Relay.msgrcv, hm, hq, h0],
    rfl, rfl, ?_⟩
  simp [work, msgRank, hm, hq]
  omega

theorem rest_of_idle (hg : Going capacity s) (hl : s.loop = .poll) (hm : s.msg = .msgrcv) (hq : s.queue = []) :
    AtRest s := by
  have hsend : s.msg.inSend = false := by rw [hm]; rfl
  have hzero : ¬ 0 < s.h.pending.toNat + (s.loop.owes + s.inflight) + s.h.sem := by
    intro hp
    obtain ⟨-, ⟨m, above, hm'⟩, -⟩ := hg.send.waits hp
    rw [hm] at hm'
    cases hm'
  refine ⟨hl, hm, hq, fun p => ?_, ?_, by omega⟩
  · refine Classical.byContradiction fun hp => ?_
    have hmem := (hg.owned.inUse p).mp hp
    simp [bufs, held, hm, hq, hl, MsgPc.held, LoopPc.held] at hmem
  · cases hp : s.h.pending with
    | false => rfl
    | true => exact absurd (by rw [hp, Bool.toNat_true]; omega) hzero

/-- on_msg's post is pending or owed, and the loop's thread has time for it. -/
theorem post_goes (hi : Sending s) (hl : s.loop = .poll) (hw : Waits s) :
    ∃ e s', restStep capacity s e = some s' ∧ refused e = false ∧ s'.loop.blocks = false ∧ work s' < work s := by
  obtain ⟨hm, hpc, hsem⟩ := hw
  have hsum := hi.hand.wait_cases hpc
  rw [hl] at hsum
  have hsum : s.h.pending.toNat + (0 + s.inflight) + s.h.sem + 0 = 1 := hsum
  cases hp : s.h.pending with
  | true =>
    refine ⟨.asyncSend, { s with h := s.h.take, loop := .sendData },
      by simp [restStep, goesOn, step, asyncSendCb, hl, hp], rfl, rfl, ?_⟩
    simp [work, msgRank, hl, loopRank, LoopPc.held, LoopPc.owes, Handoff.take, hp]
  | false =>
    have hin : 0 < s.inflight := by rw [hp, Bool.toNat_false] at hsum; omega
    have hf : s.asyncSendFlag = true := hi.flag (by rw [hpc]; decide)
    refine ⟨.onSend, { s with inflight := s.inflight - 1, h := s.h.post },
      by simp [restStep, goesOn, step, onSendCb, hl, hin, checkFlag, hf], rfl, by rw [hl]; rfl, ?_⟩
    simp [work, msgRank, hl, Handoff.post]
    omega

theorem waits_unposted (hw : Waits s) : unposted s = true := by
  obtain ⟨hm, hpc, hsem⟩ := hw
  obtain ⟨m, above, hm⟩ := MsgPc.inSend_iff.mp hm
  simp [unposted, hm, hpc, hsem]

theorem rest_going (hg : Going capacity s) (hr : refused e = false) (h : restStep capacity s e = some s') :
    Going capacity s' := by
  unfold restStep at h
  split at h
  · exact step_going hg hr h
  · cases h

/-- A step that leads closer, and neither strands nor locks. -/
theorem progress (hk : 0 < capacity) (hg : Going capacity s) (hl : ¬ Locked capacity s) (hn : ¬ AtRest s) :
    ∃ e s', restStep capacity s e = some s' ∧ (Going capacity s' ∧ ¬ Locked capacity s') ∧ work s' < work s := by
  -- no step but the loop's own brings it to msgsnd
  have hclear : ∀ {e : Ev} {s' : St}, restStep capacity s e = some s' → refused e = false → s'.loop.blocks = false →
      Going capacity s' ∧ ¬ Locked capacity s' := by
    intro e s' h hr hb
    refine ⟨rest_going hg hr h, fun hl' => ?_⟩
    rw [hl'.1] at hb
    cases hb
  by_cases hroom : s.loop.blocks = true → s.queue.length < capacity
  · by_cases hpoll : s.loop = .poll
    · have hb : s.loop.blocks = false := by rw [hpoll]; rfl
      by_cases hw : Waits s
      · obtain ⟨e, s', h, hr, hb', hlt⟩ := post_goes hg.send hpoll hw
        exact ⟨e, s', h, hclear h hr hb', hlt⟩
      · by_cases hm : s.msg = .msgrcv
        · cases hq : s.queue with
          | nil => exact absurd (rest_of_idle hg hpoll hm hq) hn
          | cons m q =>
            obtain ⟨s', h, hloop, -, hlt⟩ := msgrcv_goes capacity hg.owned hm hq
            exact ⟨_, s', h, hclear h rfl (hloop ▸ hb), hlt⟩
        · obtain ⟨s', h, hlt⟩ := onMsg_goes hg.send hm hw
          exact ⟨.onMsg, s', h, hclear (e := .onMsg) h rfl ((onMsg_frame h).2 ▸ hb), hlt⟩
    · obtain ⟨e, s', h, hr, hb, hlt⟩ := loop_goes hpoll hroom
      exact ⟨e, s', h, hclear h hr hb, hlt⟩
  · -- the queue is full, and the message thread can make room by itself
    obtain ⟨hb, hfull⟩ := Classical.not_imp.mp hroom
    have hfull : capacity ≤ s.queue.length := Nat.not_lt.mp hfull
    have hu : unposted s = false := Bool.eq_false_iff.mpr fun hu => hl ⟨hb, hfull, hu⟩
    by_cases hm : s.msg = .msgrcv
    · cases hq : s.queue with
      | nil =>
        rw [hq] at hfull
        exact absurd hfull (Nat.not_le.mpr hk)
      | cons m q =>
        obtain ⟨s', h, -, hq', hlt⟩ := msgrcv_goes capacity hg.owned hm hq
        refine ⟨_, s', h, ⟨rest_going hg rfl h, fun hl' => ?_⟩, hlt⟩
        have hbound := hg.bound
        have hfull' := hl'.2.1
        rw [hq, List.length_cons] at hbound
        rw [hq'] at hfull'
        omega
    · have hw : ¬ Waits s := fun hw => by rw [waits_unposted hw] at hu; cases hu
      obtain ⟨s', h, hlt⟩ := onMsg_goes hg.send hm hw
      refine ⟨.onMsg, s', h, ⟨rest_going (e := .onMsg) hg rfl h, fun hl' => ?_⟩, hlt⟩
      have hu' := onMsg_unposted h hu
      rw [hl'.2.2] at hu'
      cases hu'

theorem comes_to_rest (hk : 0 < capacity) (hg : Going capacity s) (hl : ¬ Locked capacity s) :
    ∃ fs t, run (restStep capacity) s fs = some t ∧ AtRest t :=
  run_until (I := fun s => Going capacity s ∧ ¬ Locked capacity s) work
    (fun _ hi hn => progress hk hi.1 hi.2 hn) ⟨hg, hl⟩

theorem never_rests {P : St → Prop} (hp : ∀ s e s', P s → restStep capacity s e = some s' → P s')
    (hn : ∀ s, P s → ¬ AtRest s) (hs : P s) : ¬ ∃ fs t, run (restStep capacity) s fs = some t ∧ AtRest t := by
  rintro ⟨fs, t, hr, ht⟩
  have hreach : Reach (restStep capacity) Free s t := reach_run .init hr
  exact hn t (hreach.invariant hs fun u e v hu _ h => hp u e v hu h) ht

theorem stranded_never (hs : Stranded s) : ¬ ∃ fs t, run (restStep capacity) s fs = some t ∧ AtRest t := by
  refine never_rests (P := Stranded) (fun s e s' hs h => ?_) (fun s hs ht => ?_) hs
  · unfold restStep at h
    split at h
    · exact step_stranded hs h
    · cases h
  · have := hs.msg
    rw [ht.msg] at this
    cases this

theorem locked_never (hg : Going capacity s) (hl : Locked capacity s) :
    ¬ ∃ fs t, run (restStep capacity) s fs = some t ∧ AtRest t := by
  refine never_rests (P := fun s => Going capacity s ∧ Locked capacity s) (fun s e s' hi h => ?_)
    (fun s hi ht => ?_) ⟨hg, hl⟩
  · exact step_locked hi.1 hi.2 h
  · have := hi.2.1
    rw [ht.loop] at this
    cases this

theorem rests_iff (hk : 0 < capacity) {es : List Ev} (h : run (step capacity) init es = some s) :
    Owned s ∧ ((∃ fs t, run (restStep capacity) s fs = some t ∧ AtRest t) ↔
      (∀ e ∈ es, refused e = false) ∧ ¬ Locked capacity s) := by
  have hran := run_ran h
  refine ⟨hran.owned, fun hrest => ?_, fun ⟨hes, hl⟩ => comes_to_rest hk (hran.going hes) hl⟩
  by_cases hes : ∀ e ∈ es, refused e = false
  · exact ⟨hes, fun hl => locked_never (hran.going hes) hl hrest⟩
  · exact absurd hrest (stranded_never (hran.stranded hes))

def oneLost : List Ev :=
  [.datagram hello, .onData, .onData, .msgSend (some 16), .msgsnd true] ++ sendOne ++ receive 32 ++ [.msgsnd false]

theorem one_lost_rests : ∃ s, run (step 1) init oneLost = some s ∧ bufs s = [16] ∧ s.heap 32 = none ∧
    ∃ fs t, run (restStep 1) s fs = some t ∧ AtRest t := by
  obtain ⟨s, hr, hb, hh, hl⟩ : ∃ s, run (step 1) init oneLost = some s ∧ bufs s = [16] ∧ s.heap 32 = none ∧
    s.loop.blocks = false := ⟨_, rfl, rfl, rfl, rfl⟩
  refine ⟨s, hr, hb, hh, (rests_iff (by decide) hr).2.mpr ⟨by decide, fun hl' => ?_⟩⟩
  rw [hl'.1] at hl
  cases hl

end UvWrapper.Component.RelayRest
