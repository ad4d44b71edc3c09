/-
  UvWrapper.Utils.MsgQueueDelivery — what msg_thread delivers (see `UvWrapper.Utils.MsgQueue`).

  Proved: as long as no other program's message is too large, on_msg is given the accepted calls'
  bytes in order, none is skipped, foreign messages cost nobody anything, each copy is freed once,
  and a msg_send whose msgsnd fails leaves nothing behind. One that is too large stays in the queue
  for good, with everything behind it (`delivery_iff`), and a message that msg_send has put there
  with msg_type 4096 is then thrown away, and its copy not freed (`call_dropped`).
-/

import UvWrapper.Utils.MsgQueueProofs

namespace UvWrapper.Utils.MsgQueue

open UvWrapper.Lib.Trace

variable {calls : Nat → Call} {onMsg : Bool} {s s' : St}

/-! ## Messages that are too large -/

/-- A message that is too large never leaves the queue. -/
theorem stays_run {m : Foreign} (hm : payload < m.size) {es : List Ev} (h : run (step calls onMsg) s es = some s')
    (hq : .foreign m ∈ s.queue) : .foreign m ∈ s'.queue :=
  run_induction (P := fun _ t => .foreign m ∈ t.queue) hq (fun _ _ _ _ _ hq h => (moved h).stays m hm hq) h

/-- Without one, msg_thread does not come to its second msgrcv. -/
structure Fitting (s : St) : Prop where
  first : s.thread ≠ .msgrcvNoError
  sizes : ∀ m, .foreign m ∈ s.queue → m.size ≤ payload
  dropped : s.dropped = []

theorem fitting_step (hf : Fitting s) {e : Ev} (he : fits e = true) (h : step calls onMsg s e = some s') :
    Fitting s' := by
  have hm := moved h
  refine ⟨fun ht => ?_, fun m hq => ?_, ?_⟩
  · rcases hm.second ht with ht | ⟨m, hq, hlt⟩
    · exact hf.first ht
    · have := hf.sizes m hq
      omega
  · rcases hm.foreign m hq with hq | rfl
    · exact hf.sizes m hq
    · simpa [fits] using he
  · rcases hm.dropped with h | h
    · exact h.trans hf.dropped
    · exact absurd h.1 hf.first

theorem fitting_reach (hr : Reach (step calls onMsg) (fun _ e => fits e = true) init s) : Fitting s :=
  hr.invariant ⟨by simp [init], fun m h => (by cases h), rfl⟩ fun _ _ _ hf he h => fitting_step hf he h

/-! ## The end of the queue -/

def rest (s : St) : Nat :=
  4 * s.queue.length + match s.thread with
    | .received _ => 3
    | .onMsg _ => 2
    | .free _ => 1
    | _ => 0

theorem receive_rest (ht : s.thread = .msgrcv) (hf : Fitting s) (hq : s.queue ≠ []) :
    ∃ s', receive s = some s' ∧ rest s' < rest s := by
  have hr : receive s = msgrcv s := by unfold receive; rw [ht]
  rw [hr]
  unfold msgrcv rest
  cases h : s.queue with
  | nil => exact absurd h hq
  | cons e q =>
    cases e with
    | own m => exact ⟨_, rfl, by simp [ht]; omega⟩
    | foreign m =>
      have hm := hf.sizes m (by rw [h]; exact List.mem_cons_self)
      simp only [if_neg (Nat.not_lt.mpr hm)]
      exact ⟨_, rfl, by simp [ht]⟩

theorem threadStep_rest (onMsg : Bool) (h1 : s.thread ≠ .msgrcv) (h2 : s.thread ≠ .msgrcvNoError) :
    ∃ s', threadStep onMsg s = some s' ∧ rest s' < rest s := by
  unfold threadStep
  cases ht : s.thread with
  | msgrcv => exact absurd ht h1
  | msgrcvNoError => exact absurd ht h2
  | received m =>
    simp only
    split
    · exact ⟨_, rfl, by simp [rest, ht]⟩
    · split <;> exact ⟨_, rfl, by simp [rest, ht]⟩
  | onMsg m => exact ⟨_, rfl, by simp [rest, ht]⟩
  | free m =>
    refine ⟨_, rfl, ?_⟩
    unfold free
    split <;> simp [rest, ht]

/-! ## Delivery -/

/-- With nothing dropped, every accepted call is handled or on its way, in order. -/
theorem noneSkipped (hh : History calls onMsg s) (hd : s.dropped = []) :
    s.accepted = s.handled ++ (unhandled s).map Sent.call := by
  refine (hh.inOrder.eq_of_length ?_).symm
  have hlen := hh.all.length_eq
  rw [hd, List.nil_append] at hlen
  exact hlen.symm

/-- msg_thread's own steps: it is given the rest of the queue, and the senders stand still. -/
def byThread (e : Ev) : Prop := e = .receive ∨ e = .thread

/-- As long as there is something to do, msg_thread does some of it. -/
theorem thread_works (calls : Nat → Call) (onMsg : Bool) (hf : Fitting s) (hne : ¬ (s.queue = [] ∧ s.thread = .msgrcv)) :
    ∃ e s', byThread e ∧ step calls onMsg s e = some s' ∧ rest s' < rest s := by
  by_cases ht : s.thread = .msgrcv
  · obtain ⟨s', h, hlt⟩ := receive_rest ht hf fun hq => hne ⟨hq, ht⟩
    exact ⟨.receive, s', .inl rfl, h, hlt⟩
  · obtain ⟨s', h, hlt⟩ := threadStep_rest onMsg ht hf.first
    exact ⟨.thread, s', .inr rfl, h, hlt⟩

theorem byThread_moved {e : Ev} (he : byThread e) (h : step calls onMsg s e = some s') :
    s'.accepted = s.accepted ∧ fits e = true := by
  rcases he with rfl | rfl
  · exact ⟨(moved h).acceptedBy rfl, rfl⟩
  · exact ⟨(moved h).acceptedBy rfl, rfl⟩

theorem drains (hi : Inv calls onMsg s) (hf : Fitting s) :
    ∃ es t, (∀ e ∈ es, byThread e) ∧ run (step calls onMsg) s es = some t ∧ t.queue = [] ∧ t.thread = .msgrcv ∧
      t.handled = s.accepted := by
  have hwork : ∀ t, (Inv calls onMsg t ∧ Fitting t ∧ t.accepted = s.accepted) → ¬ (t.queue = [] ∧ t.thread = .msgrcv) →
      ∃ e t', byThread e ∧ step calls onMsg t e = some t' ∧
        (Inv calls onMsg t' ∧ Fitting t' ∧ t'.accepted = s.accepted) ∧ rest t' < rest t := by
    intro t ⟨hit, hft, hat⟩ hne
    obtain ⟨e, t', he, h, hlt⟩ := thread_works calls onMsg hft hne
    obtain ⟨ha, hfit⟩ := byThread_moved he h
    exact ⟨e, t', he, h, ⟨step_inv hit h, fitting_step hft hfit h, ha.trans hat⟩, hlt⟩
  obtain ⟨es, t, hes, hr, ⟨hit, hft, hat⟩, hq, ht⟩ := run_until_by rest hwork ⟨hi, hf, rfl⟩
  refine ⟨es, t, hes, hr, hq, ht, ?_⟩
  have h := noneSkipped hit.history hft.dropped
  have hu : unhandled t = [] := by simp [unhandled, hq, ht]
  rw [hu, List.map_nil, List.append_nil] at h
  exact h.symm.trans hat

/-- A foreign message costs one receive, and nothing else. -/
theorem foreign_discarded (hf : Fitting s) (ht : s.thread = .msgrcv) {m : Foreign} {q : List Entry}
    (hq : s.queue = .foreign m :: q) : step calls onMsg s .receive = some { s with queue := q } := by
  have hm := hf.sizes m (by rw [hq]; exact List.mem_cons_self)
  simp [step, receive, msgrcv, ht, hq, Nat.not_lt.mpr hm]

theorem refused_queue {k : Nat} {b : Bool} (hk : b = false ∨ ∃ p, s.send k = .unsent p)
    (h : sendStep calls s k b = some s') : s'.queue = s.queue := by
  unfold sendStep at h
  split at h
  · cases h; rfl
  · rename_i p hp
    rcases hk with rfl | ⟨q, hq⟩
    · cases h; rfl
    · rw [hp] at hq; cases hq
  · cases h
    unfold free
    split <;> rfl
  · cases h

structure Delivery (calls : Nat → Call) (onMsg : Bool) (s : St) : Prop where
  inOrder : s.delivered <+: s.accepted.map (own calls)
  given : s.delivered = if onMsg then s.handled.map (own calls) else []
  /-- Every call that the kernel accepted is handled or on its way, in the order of the queue. -/
  noneSkipped : s.accepted = s.handled ++ (unhandled s).map Sent.call
  foreign : ∀ m q, s.thread = .msgrcv → s.queue = .foreign m :: q →
    step calls onMsg s .receive = some { s with queue := q }
  /-- Left to itself, msg_thread comes to the end of the queue, and has then handled every accepted call. -/
  drains : ∃ es t, (∀ e ∈ es, byThread e) ∧ run (step calls onMsg) s es = some t ∧ t.queue = [] ∧ t.thread = .msgrcv ∧
    t.handled = s.accepted
  types : ∀ m ∈ travelling s, 0 < m.msg.type
  freedOnce : s.freed.Nodup ∧ s.badFree = false
  freedAfter : ∀ k ∈ s.freed, k ∈ s.refused ∨ (k ∈ s.handled ∧ ∀ m, s.thread = .onMsg m → m.call ≠ k)
  /-- A copy is freed as soon as neither its msg_send nor a message has it. -/
  freed : ∀ k ∈ s.copied, k ∈ s.freed ↔ (s.send k).buf? = none ∧ k ∉ (travelling s).map Sent.call
  refused : ∀ k ∈ s.refused, k ∉ s.accepted ∧ ((∃ p, s.send k = .unsent p) ∨ (s.send k = .ret (-1) ∧ k ∈ s.freed))
  unchanged : ∀ k b s', b = false ∨ k ∈ s.refused → sendStep calls s k b = some s' → s'.queue = s.queue
  live : ∀ p, (s.heap p).isSome = true ↔ p ∈ (travelling s).map Sent.buf ∨ ∃ k, (s.send k).buf? = some p
  oneOwner : ((travelling s).map Sent.buf).Nodup ∧
    (∀ k p, (s.send k).buf? = some p → p ∉ (travelling s).map Sent.buf) ∧
    ∀ j k p, (s.send j).buf? = some p → (s.send k).buf? = some p → j = k

theorem delivered_inOrder (hh : History calls onMsg s) (hd : s.dropped = []) :
    s.delivered <+: s.accepted.map (own calls) := by
  rw [hh.delivered, noneSkipped hh hd, List.map_append]
  split
  · exact List.prefix_append ..
  · exact List.nil_prefix

/-- A refused call has its copy to free, or has freed it and returned. -/
theorem refused_fate (hi : Inv calls onMsg s) {k : Nat} (hk : k ∈ s.refused) :
    k ∉ s.accepted ∧ ((∃ p, s.send k = .unsent p) ∨ (s.send k = .ret (-1) ∧ k ∈ s.freed)) := by
  obtain ⟨-, hf, hh⟩ := hi
  rcases hh.refused k hk with ⟨p, hp⟩ | hp
  · refine ⟨fun h => ?_, .inl ⟨p, hp⟩⟩
    have := hh.accepted k h
    rw [hp] at this; cases this
  · refine ⟨fun h => ?_, .inr ⟨hp, (hf.fate k (hf.refusedCopied k hk)).mpr ⟨by rw [hp]; rfl, fun h => ?_⟩⟩⟩
    · have := hh.accepted k h
      rw [hp] at this; cases this
    · obtain ⟨m, hm, rfl⟩ := List.mem_map.mp h
      have := (hf.sentCopied m hm).2
      rw [hp] at this; cases this

theorem fitting_delivery (hi : Inv calls onMsg s) (hf : Fitting s) : Delivery calls onMsg s := by
  have hheld : held s = travelling s := by simp [held, hf.dropped]
  obtain ⟨hm, hfate, hh⟩ := hi
  refine ⟨delivered_inOrder hh hf.dropped, hh.delivered, noneSkipped hh hf.dropped,
    fun m q ht hq => foreign_discarded hf ht hq, drains ⟨hm, hfate, hh⟩ hf,
    fun m h => (hm.sent m (hheld ▸ h)).type, ⟨hfate.freedOnce, hfate.badFree⟩, hh.freedAfter, hheld ▸ hfate.fate,
    fun k hk => refused_fate ⟨hm, hfate, hh⟩ hk, fun k b s' hk h => ?_, hheld ▸ hm.live,
    ⟨hheld ▸ hm.nodup, hheld ▸ hm.senders, hm.apart⟩⟩
  refine refused_queue (hk.imp_right fun hk => ?_) h
  rcases hh.refused k hk with hu | hu
  · exact hu
  · unfold sendStep at h
    rw [hu] at h; cases h

/-- A message that is too large is never discarded, nor is what comes after it. -/
theorem not_delivery {m : Foreign} (hm : payload < m.size) (hq : .foreign m ∈ s.queue) : ¬ Delivery calls onMsg s := by
  intro hd
  obtain ⟨es, t, -, hr, ht, -⟩ := hd.drains
  have h := stays_run hm hr hq
  rw [ht] at h
  cases h

theorem delivery_iff (calls : Nat → Call) (onMsg : Bool) (es : List Ev) :
    Always (step calls onMsg) (Delivery calls onMsg) init es ↔
      Steps (step calls onMsg) (fun _ e => fits e = true) init es := by
  refine always_iff (fun s hr => ?_) (fun s e s' _ h he => ?_) es
  · exact fitting_delivery (hr.invariant (init_inv calls onMsg) fun _ _ _ hi _ h => step_inv hi h) (fitting_reach hr)
  · cases e with
    | foreign m =>
      cases h
      refine not_delivery (m := m) ?_ (List.mem_append_right _ List.mem_cons_self)
      simpa [fits] using he
    | _ => exact absurd rfl he

/-- Three calls: the first with a negative type, the second with no data. -/
def threeCalls : Nat → Call
  | 0 => ⟨7, some [1, 2, 3], -5⟩
  | 1 => ⟨7, some [], 0⟩
  | _ => ⟨7, some [9], 4096⟩

def small : Foreign := ⟨1, 8, by decide, by decide⟩

def large : Foreign := ⟨1, 17, by decide, by decide⟩

def mixed : List Ev :=
  [.call 0, .call 1, .malloc 0 (some 16), .malloc 1 (some 32), .send 1 true, .send 0 true, .send 0 true,
    .foreign small, .send 1 false, .call 2, .malloc 2 (some 48), .receive, .send 1 false, .send 2 true, .thread,
    .send 2 true, .thread, .thread, .receive, .interrupt, .receive, .thread, .thread, .thread]

/-- A small message comes between the calls 0 and 2; the msgsnd of call 1 fails. -/
theorem mixed_delivery : Always (step threeCalls true) (Delivery threeCalls true) init mixed ∧
    ∃ s, run (step threeCalls true) init mixed = some s ∧ s.delivered = [(some [1, 2, 3], 3), (some [9], 1)] ∧
      s.queue = [] ∧ s.freed = [1, 0, 2] ∧ s.send 1 = .ret (-1) :=
  ⟨(delivery_iff threeCalls true mixed).mpr (steps_of_runIf (fun _ e => fits e) (t := _) rfl), _, rfl, by decide⟩

/-- A message that is too large comes before call 2: msg_thread throws that call's message away. -/
theorem call_dropped : ∃ s, Reach (step threeCalls true) Free init s ∧ s.accepted = [2] ∧ s.delivered = [] ∧
    s.queue = [.foreign large] ∧ s.thread = .msgrcv ∧ (s.heap 48).isSome = true ∧ s.freed = [] ∧
    ¬ Delivery threeCalls true s := by
  obtain ⟨s, hr, ha, hd, hq, ht, hp, hf, hh⟩ := reach_of_run (step threeCalls true) init
    (fun s => s.accepted = [2] ∧ s.delivered = [] ∧ s.queue = [.foreign large] ∧ s.thread = .msgrcv ∧
      (s.heap 48).isSome = true ∧ s.freed = [] ∧ s.handled = [])
    [.foreign large, .call 2, .malloc 2 (some 48), .send 2 true, .send 2 true, .receive, .receive]
    ⟨_, rfl, by decide⟩
  refine ⟨s, hr, ha, hd, hq, ht, hp, hf, fun h => ?_⟩
  have hall := h.noneSkipped
  rw [ha, hh] at hall
  simp only [unhandled, hq, ht] at hall
  exact absurd hall (by decide)

end UvWrapper.Utils.MsgQueue
