/-
  UvWrapper.Component.RelayBytes — what the component sends against what it was sent,
  over runs in which no malloc, msgsnd or uv_udp_send fails.

  The relay is faithful when what it submits is a prefix of the datagrams on_data got, each
  with its own bytes, to the sender of the first, and all of them once nothing is under
  way. `Chain` follows every datagram from on_data to uv_udp_send: the messages not sent yet
  point, in order, to copies of exactly the datagrams not sent yet.

  Proved: a run is faithful in every state if and only if, whenever async_send_cb
  submits, the bytes stored from on_msg's `&data` on are those of the copy that `data`
  points to (`faithful_iff`). on_msg passes `(char*)&data`, so it is not (`sends_the_pointer`).
-/

import UvWrapper.Component.RelayProofs

namespace UvWrapper.Component.Relay

open UvWrapper.Lib UvWrapper.Lib.Trace

variable {capacity : Nat} {s s' : St}

/-! ## The relay's purpose -/

/-- The datagrams as they should go out: all to the sender of the first. -/
def relayed : List Datagram → List Submit
  | [] => []
  | d :: r => (d :: r).map fun e => (some e.bytes, some d.peer)

def LoopPc.inOnData : LoopPc → Bool
  | .poll | .sendData => false
  | _ => true

def Idle (s : St) : Prop := s.queue = [] ∧ s.msg = .msgrcv ∧ s.loop.inOnData = false

structure Faithful (s : St) : Prop where
  sub : s.sent <+: relayed s.got
  whole : Idle s → s.sent = relayed s.got

/-- Where async_send_cb submits, reading from `&data` on gives what reading at `data` would. -/
def intact (s : St) : Ev → Bool
  | .sendData _ _ =>
    match s.loop, s.msg with
    | .sendData, .sending m _ => bytesAt s .addrOfData m.msgSize == bytesAt s (.heap m.msgBuf) m.msgSize
    | _, _ => true
  | _ => true

/-! ## Every datagram, in order -/

/-- uv_udp_send has got on_msg's message. -/
def submitted (s : St) : Prop := 0 < s.inflight ∨ 0 < s.h.sem ∨ s.h.pc () = .woken

instance : Decidable (submitted s) := inferInstanceAs (Decidable (_ ∨ _ ∨ _))

def current (s : St) : List Msg :=
  match s.msg with
  | .onMsg m _ => [m]
  | .sending m _ => if submitted s then [] else [m]
  | _ => []

def unsent (s : St) : List Msg := current s ++ (s.queue ++ s.loop.held)

def copied (heap : Nat → Option (List UInt8)) (m : Msg) : Option (List UInt8) × Nat := (heap m.msgBuf, m.msgSize)

def payload (d : Datagram) : Option (List UInt8) × Nat := (some d.bytes, d.bytes.length)

structure Chain (s : St) : Prop where
  sub : s.sent <+: relayed s.got
  order : (unsent s).map (copied s.heap) ++ s.loop.fresh.map payload = (s.got.map payload).drop s.sent.length
  small : ∀ d ∈ s.got, d.bytes.length ≤ maxBufLen

theorem relayed_eq {d : Datagram} {r : List Datagram} :
    relayed (d :: r) = ((d :: r).map payload).map fun x => (x.1, some d.peer) := by
  simp [relayed, payload]

theorem relayed_length (l : List Datagram) : (relayed l).length = l.length := by cases l <;> simp [relayed]

theorem relayed_snoc (l : List Datagram) (d : Datagram) : relayed l <+: relayed (l ++ [d]) := by
  cases l with
  | nil => exact List.nil_prefix
  | cons e r => exact ⟨[(some d.bytes, some e.peer)], by simp [relayed]⟩

/-- A prefix goes on with the next element and with no other. -/
theorem snoc_prefix_iff {α : Type} {l m r : List α} {x y : α} (h : l <+: m) (hd : m.drop l.length = x :: r) :
    l ++ [y] <+: m ↔ y = x := by
  obtain ⟨u, rfl⟩ := h
  rw [List.drop_left] at hd
  rw [hd, List.prefix_append_right_inj, List.cons_prefix_cons]
  simp

theorem Chain.sent_le (hi : Chain s) : s.sent.length ≤ s.got.length := by
  have := hi.sub.length_le
  rwa [relayed_length] at this

theorem mem_held {m : Msg} (h : m ∈ unsent s) : m ∈ held s := by
  unfold unsent current at h
  unfold held
  rcases List.mem_append.mp h with h | h
  · apply List.mem_append_left
    cases hm : s.msg <;> simp_all [MsgPc.held]
  · exact List.mem_append_right _ h

theorem unsent_eq (hc : current s' = current s) (hq : s'.queue ++ s'.loop.held = s.queue ++ s.loop.held) :
    unsent s' = unsent s := by rw [unsent, unsent, hc, hq]

theorem Chain.of_unsent (hi : Chain s) (hu : unsent s' = unsent s) (hf : s'.loop.fresh = s.loop.fresh)
    (hh : ∀ m ∈ unsent s, s'.heap m.msgBuf = s.heap m.msgBuf) (hg : s'.got = s.got) (hs : s'.sent = s.sent) :
    Chain s' := by
  have hmap : (unsent s').map (copied s'.heap) = (unsent s).map (copied s.heap) := by
    rw [hu]
    exact List.map_congr_left fun m hm => by simp [copied, hh m hm]
  exact ⟨by rw [hs, hg]; exact hi.sub, by rw [hmap, hf, hg, hs]; exact hi.order, by rw [hg]; exact hi.small⟩

/-- Only the submission itself takes on_msg's message off the list. -/
theorem udpSendData_current {m : Msg} {above : Nat → UInt8} (hm : s.msg = .sending m above)
    (h : udpSendData s .addrOfData m = some s') : current s' = current s := by
  unfold udpSendData at h
  cases hpc : s.h.pc () with
  | idle => rw [hpc] at h; cases h
  | ret => rw [hpc] at h; cases h
  | want =>
    rw [hpc] at h
    simp only at h
    split at h <;> cases h
    simp [current, submitted, hm, hpc, Handoff.lock]
  | crit a =>
    rw [hpc] at h
    cases a <;> cases h <;> simp [current, submitted, hm, hpc, Handoff.goto, Handoff.notify]
  | wait =>
    rw [hpc] at h
    simp only at h
    split at h <;> cases h
    rename_i hs
    simp [current, submitted, hm, hs, Handoff.wake]
  | woken =>
    rw [hpc] at h
    cases h
    simp [current, submitted, hm, hpc]

structure Inv (s : St) : Prop where
  send : Sending s
  copies : Copies s
  peer : Peer s
  chain : Chain s

theorem init_inv : Inv init :=
  ⟨init_sending, ⟨List.nodup_nil, nofun⟩, ⟨nofun, fun _ => ⟨rfl, .inl ⟨rfl, rfl⟩⟩⟩, List.nil_prefix, rfl, nofun⟩

/-- What async_send_cb finds: on_msg is waiting, and reading at `data` would give the next
    datagram to be sent. -/
theorem Inv.at_send (hi : Inv s) (hl : s.loop = .sendData) :
    ∃ m above r, s.msg = .sending m above ∧ unsent s = m :: s.queue ∧ s.inflight = 0 ∧
      submission s = (bytesAt s .addrOfData m.msgSize, some s.peerAddr) ∧
      (relayed s.got).drop s.sent.length = (bytesAt s (.heap m.msgBuf) m.msgSize, some s.peerAddr) :: r := by
  obtain ⟨hw, ⟨m, above, hm⟩, h1⟩ := hi.send.waits (by rw [hl]; show 0 < _ + (1 + _) + _; omega)
  have h2 : s.h.pending.toNat + (1 + s.inflight) + s.h.sem = 1 := by rw [hl] at h1; exact h1
  have hin : s.inflight = 0 := by omega
  have hsem : s.h.sem = 0 := by omega
  have hu : unsent s = m :: s.queue := by simp [unsent, current, submitted, hm, hw, hin, hsem, hl, LoopPc.held]
  have hord := hi.chain.order
  rw [hu, hl, List.map_cons, show LoopPc.sendData.fresh = [] from rfl, List.map_nil, List.append_nil] at hord
  -- the message's copy is the first datagram not sent yet
  have hmem : copied s.heap m ∈ s.got.map payload := by
    refine List.mem_of_mem_drop (i := s.sent.length) ?_
    rw [← hord]
    exact List.mem_cons_self
  obtain ⟨d, hd, hcopy⟩ := List.mem_map.mp hmem
  have hheap : s.heap m.msgBuf = some d.bytes := (congrArg Prod.fst hcopy).symm
  have hsize : m.msgSize = d.bytes.length := (congrArg Prod.snd hcopy).symm
  have hbytes : bytesAt s (.heap m.msgBuf) m.msgSize = s.heap m.msgBuf := by
    simp [bytesAt, hheap, hsize]
  have hsmall := hi.chain.small d hd
  have hbuf : s.data1 = some ⟨.addrOfData, m.msgSize⟩ := by
    rw [hi.send.data1 m above hm (by rw [hw]; decide), uvBufInit, Nat.mod_eq_of_lt (by unfold maxBufLen at hsmall; omega)]
  have hdest : s.data2 = true := hi.send.data2 (by rw [hw]; decide)
  obtain ⟨d0, r0, hg, hp⟩ := hi.peer.set (hi.peer.known (by simp [held, hm, MsgPc.held]))
  refine ⟨m, above, (s.queue.map (copied s.heap)).map fun x => (x.1, some d0.peer), hm, hu, hin,
    by simp [submission, hbuf, hdest], ?_⟩
  rw [hg, relayed_eq, ← hg, ← List.map_drop, ← hord, hp, hbytes]
  rfl

/-- A datagram comes in and is the last one to be sent. -/
theorem Chain.datagram (hc : Chain s) {d : Datagram} (hl : s.loop = .poll) (hd : d.bytes.length ≤ maxBufLen) :
    Chain { s with loop := .initPeer d, got := s.got ++ [d] } := by
  have hord := hc.order
  rw [unsent, hl] at hord
  refine ⟨hc.sub.trans (relayed_snoc _ d), ?_, fun d' hd' => ?_⟩
  · have hle : s.sent.length ≤ (s.got.map payload).length := by simpa using hc.sent_le
    have hgot : (s.got ++ [d]).map payload = s.got.map payload ++ [payload d] := by simp
    show (current s ++ (s.queue ++ [])).map (copied s.heap) ++ [payload d] =
      ((s.got ++ [d]).map payload).drop s.sent.length
    rw [hgot, List.drop_append_of_le_length hle, ← hord]
    simp [LoopPc.held, LoopPc.fresh]
  · rcases List.mem_append.mp hd' with h | h
    · exact hc.small d' h
    · rw [List.mem_singleton.mp h]; exact hd

/-- The copy of a datagram says what the datagram says. -/
theorem Chain.malloc (hc : Chain s) (hcp : Copies s) {d : Datagram} {p : Nat} (hl : s.loop = .msgSend d)
    (hp : s.heap p = none) :
    Chain { s with heap := Function.update s.heap p (some d.bytes), loop := .msgsnd (message p d.bytes.length 0) } := by
  have hord := hc.order
  rw [hl] at hord
  refine ⟨hc.sub, ?_, hc.small⟩
  rw [← hord]
  have hold : unsent s = current s ++ s.queue := by simp [unsent, hl, LoopPc.held]
  have hmap : ∀ m ∈ unsent s, copied (Function.update s.heap p (some d.bytes)) m = copied s.heap m :=
    fun m hm => by simp [copied, hcp.malloc hp d.bytes (mem_held hm)]
  show (current s ++ (s.queue ++ [message p d.bytes.length 0])).map _ ++ [] = _ ++ [payload d]
  rw [List.append_nil, ← List.append_assoc, ← hold, List.map_append, List.map_congr_left hmap]
  simp [copied, payload, message]

/-- The submission of what `data` points to sends the next datagram. -/
theorem Inv.send_chain (hi : Inv s) (hl : s.loop = .sendData) (hok : intact s (.sendData true true) = true) :
    Chain { s with sent := s.sent ++ [submission s], loop := .poll, inflight := s.inflight + 1 } := by
  have hord := hi.chain.order
  obtain ⟨m, above, r, hm, hu, -, hsub, hnext⟩ := hi.at_send hl
  have hbytes : bytesAt s .addrOfData m.msgSize = bytesAt s (.heap m.msgBuf) m.msgSize := by
    simpa [intact, hl, hm] using hok
  refine ⟨(snoc_prefix_iff hi.chain.sub hnext).mpr (by rw [hsub, hbytes]), ?_, hi.chain.small⟩
  rw [hu, hl] at hord
  show (unsent { s with sent := s.sent ++ [submission s], loop := .poll, inflight := s.inflight + 1 }).map _ ++ [] =
    (s.got.map payload).drop (s.sent ++ [submission s]).length
  rw [List.length_append, List.length_singleton, ← List.tail_drop, ← hord]
  simp [unsent, current, submitted, hm, LoopPc.held, LoopPc.fresh]

theorem move_chain (hi : Inv s) {e : Ev} (hok : intact s e = true) (h : Move capacity s e s') : Chain s' := by
  have hc := hi.chain
  cases h with
  | datagram d hl hd => exact hc.datagram hl hd
  | malloc d p hl h0 hp => exact hc.malloc hi.copies hl hp
  | sendData hl => exact hi.send_chain hl hok
  | known d hl | first d hl | setInit d hl | msgsnd d hl | asyncSend hl =>
    exact hc.of_unsent (unsent_eq rfl (by simp [hl, LoopPc.held])) (by simp [hl, LoopPc.fresh])
      (fun _ _ => rfl) rfl rfl
  | msgrcv m q above hm hq =>
    have h0 : m.msgBuf ≠ 0 := (hi.copies.inUse m (by simp [held, hq])).1
    exact hc.of_unsent (by simp [unsent, current, hm, hq, h0]) rfl (fun _ _ => rfl) rfl rfl
  | enter m above hm hp =>
    obtain ⟨-, hsem, hin⟩ := hi.send.quiet (by rw [hm]; rfl)
    exact hc.of_unsent (unsent_eq (by simp [current, submitted, hm, hin, hsem, Handoff.call]) rfl) rfl (fun _ _ => rfl)
      rfl rfl
  | skip m above hm hp =>
    have := hi.peer.known (by simp [held, hm, MsgPc.held])
    rw [hp] at this
    cases this
  | send m above _ hm hs =>
    have hcur := udpSendData_current hm hs
    obtain ⟨h', f, d1, d2, q, rfl, -⟩ := udpSendData_frame hs
    exact hc.of_unsent (unsent_eq hcur rfl) rfl (fun _ _ => rfl) rfl rfl
  | free m hm =>
    have hu : unsent s = s.queue ++ s.loop.held := by simp [unsent, current, hm]
    exact hc.of_unsent (by simp [unsent, current, hm]) rfl (fun n hn => hi.copies.free hm (hu ▸ hn)) rfl rfl
  | onSend hl hp =>
    -- the request's completion turns into the post: on_msg's message stays submitted
    obtain ⟨hw, ⟨m, above, hm⟩, -⟩ := hi.send.waits (by omega)
    have hf : s.asyncSendFlag = true := hi.send.flag (by rw [hw]; decide)
    simp only [checkFlag, hf, if_true]
    exact hc.of_unsent (unsent_eq (by simp [current, submitted, hm, hp]) rfl) rfl (fun _ _ => rfl) rfl rfl

theorem step_inv (hi : Inv s) {e : Ev} (hok : intact s e = true) (h : goodStep capacity s e = some s') : Inv s' := by
  have hm := goodStep_move h
  have hc : calling s' = s'.msg.inSend := by
    unfold goodStep at h
    split at h
    · exact step_calling hi.send.calls h
    · cases h
  exact ⟨move_sending hi.send hm hc, move_copies hi.copies hm, move_peer hi.peer hm, move_chain hi hok hm⟩

theorem reach_inv (hr : Reach (goodStep capacity) (fun s e => intact s e = true) init s) : Inv s :=
  hr.invariant init_inv fun _ _ _ hi hok h => step_inv hi hok h

theorem Inv.faithful (hi : Inv s) : Faithful s := by
  refine ⟨hi.chain.sub, fun ⟨hq, hm, hl⟩ => hi.chain.sub.eq_of_length_le ?_⟩
  -- nothing is left to send
  have hord := hi.chain.order
  have hloop : s.loop.held = [] ∧ s.loop.fresh = [] := by
    cases h : s.loop <;> rw [h] at hl <;> first | exact ⟨rfl, rfl⟩ | cases hl
  rw [unsent, current, hm, hq, hloop.1, hloop.2] at hord
  have := List.drop_eq_nil_iff.mp hord.symm
  rwa [List.length_map, ← relayed_length] at this

/-- Other bytes than the copy's are seen at once. -/
theorem not_intact_breaks (hi : Inv s) {e : Ev} (hok : intact s e = false) (h : goodStep capacity s e = some s') :
    ¬ Faithful s' := by
  intro hf
  cases goodStep_move h with
  | sendData hl =>
    obtain ⟨m, above, r, hm, -, -, hsub, hnext⟩ := hi.at_send hl
    have := (snoc_prefix_iff hi.chain.sub hnext).mp hf.sub
    rw [hsub, Prod.mk.injEq] at this
    simp [intact, hl, hm, this.1] at hok
  | _ => cases hok

/-! ## What on_msg passes -/

theorem faithful_iff (capacity : Nat) (es : List Ev) :
    Always (goodStep capacity) Faithful init es ↔ Steps (goodStep capacity) (fun s e => intact s e = true) init es :=
  always_iff (fun _ hr => (reach_inv hr).faithful)
    (fun _ _ _ hr h hok => not_intact_breaks (reach_inv hr) (by simpa using hok) h) es

/-- One datagram through the relay; malloc returns 16 for its copy. -/
def relayOne (d : Datagram) : List Ev :=
  [.datagram d, .onData, .onData, .msgSend (some 16), .msgsnd true, .msgrcv fun _ => 0, .onMsg, .onMsg, .onMsg, .onMsg,
    .onMsg, .onMsg, .onMsg, .asyncSend, .sendData true true, .onSend, .onMsg, .onMsg, .onMsg]

/-- A datagram that happens to say what the stack holds is relayed. -/
theorem relays_the_pointer : Always (goodStep 1) Faithful init (relayOne ⟨[16, 0], 7⟩) :=
  (faithful_iff 1 _).mpr (steps_of_runIf intact (t := _) rfl)

/-- "hi" comes in; the low bytes of the copy's address go out. -/
theorem sends_the_pointer : ∃ s, Reach (goodStep 1) Free init s ∧ ¬ Faithful s := by
  obtain ⟨s, hr, hg, hs⟩ := reach_of_run (goodStep 1) init
    (fun s => s.got = [⟨[104, 105], 7⟩] ∧ s.sent = [(some [16, 0], some 7)])
    (relayOne ⟨[104, 105], 7⟩) ⟨_, rfl, by decide⟩
  refine ⟨s, hr, fun hf => ?_⟩
  have := hf.sub
  rw [hg, hs] at this
  exact absurd this (by decide)

end UvWrapper.Component.Relay
