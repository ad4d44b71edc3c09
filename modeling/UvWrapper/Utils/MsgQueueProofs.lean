/-
  UvWrapper.Utils.MsgQueueProofs — a message queue's ownership and order (see
  `UvWrapper.Utils.MsgQueue`).

  `Memory`: every live copy is with one msg_send, in the queue, with msg_thread, or was dropped by
  its second msgrcv. `Fate`: a copy is on its way, dropped or freed, once. `History`: the calls that
  the kernel accepted are those handled, then those on their way, with gaps for those dropped.
  Proved: these hold in every run (`reach_inv`), and what one step leaves alone (`moved`).
-/

import UvWrapper.Utils.MsgQueue

namespace UvWrapper.Utils.MsgQueue

open UvWrapper.Lib.Trace
open UvWrapper.Component.Relay (Msg message)

variable (calls : Nat → Call) (onMsg : Bool)

/-! ## The invariant -/

/-- A message on its way: its copy holds its call's bytes, and the kernel takes its type. -/
structure SentOk (heap : Nat → Option (List UInt8)) (m : Sent) : Prop where
  content : heap m.buf = some (calls m.call).bytes
  size : m.msg.msgSize = (calls m.call).len
  type : 0 < m.msg.type

structure Memory (s : St) : Prop where
  null : s.heap 0 = none
  live : ∀ p, (s.heap p).isSome = true ↔ p ∈ (held s).map Sent.buf ∨ ∃ k, (s.send k).buf? = some p
  nodup : ((held s).map Sent.buf).Nodup
  senders : ∀ k p, (s.send k).buf? = some p → p ∉ (held s).map Sent.buf
  apart : ∀ j k p, (s.send j).buf? = some p → (s.send k).buf? = some p → j = k
  sent : ∀ m ∈ held s, SentOk calls s.heap m
  filled : ∀ k p, s.send k = .msgsnd p → s.heap p = some (calls k).bytes

structure Fate (s : St) : Prop where
  fresh : ∀ k, s.send k = .idle ∨ s.send k = .malloc → k ∉ s.copied
  copied : ∀ k p, (s.send k).buf? = some p → k ∈ s.copied
  copiedOnce : s.copied.Nodup
  freedOnce : s.freed.Nodup
  freedCopied : ∀ k ∈ s.freed, k ∈ s.copied
  fate : ∀ k ∈ s.copied, k ∈ s.freed ↔ (s.send k).buf? = none ∧ k ∉ (held s).map Sent.call
  sentCopied : ∀ m ∈ held s, m.call ∈ s.copied ∧ s.send m.call = .ret 0
  sentOnce : ((held s).map Sent.call).Nodup
  refusedCopied : ∀ k ∈ s.refused, k ∈ s.copied
  badFree : s.badFree = false

structure History (s : St) : Prop where
  inOrder : (s.handled ++ (unhandled s).map Sent.call).Sublist s.accepted
  all : s.accepted.Perm (s.handled ++ (s.dropped ++ unhandled s).map Sent.call)
  delivered : s.delivered = if onMsg then s.handled.map (own calls) else []
  handled : ∀ m, s.thread = .onMsg m ∨ s.thread = .free m → m.call ∈ s.handled
  accepted : ∀ k ∈ s.accepted, s.send k = .ret 0
  refused : ∀ k ∈ s.refused, (∃ p, s.send k = .unsent p) ∨ s.send k = .ret (-1)
  unsent : ∀ k p, s.send k = .unsent p → k ∈ s.refused
  freedAfter : ∀ k ∈ s.freed, k ∈ s.refused ∨ (k ∈ s.handled ∧ ∀ m, s.thread = .onMsg m → m.call ≠ k)

structure Inv (s : St) : Prop where
  memory : Memory calls s
  fate : Fate s
  history : History calls onMsg s

theorem init_inv : Inv calls onMsg init := by
  refine ⟨?_, ?_, ?_⟩ <;> constructor <;> simp [init, held, travelling, unhandled, ThreadPc.sent?, SendPc.buf?]

variable {calls onMsg} {s s' : St}

/-! ## One msg_send moves -/

@[simp] theorem goto_same (s : St) (k : Nat) (p : SendPc) : goto s k p k = p := Function.update_self ..

theorem goto_ne (s : St) {k j : Nat} (p : SendPc) (h : j ≠ k) : goto s k p j = s.send j := Function.update_of_ne h ..

/-- A call that has let go of its copy. -/
theorem goto_released {p : SendPc} (hp : p.buf? = none) {k j q : Nat} :
    (goto s k p j).buf? = some q ↔ j ≠ k ∧ (s.send j).buf? = some q := by
  by_cases e : j = k
  · subst e
    rw [goto_same, hp]
    simp
  · rw [goto_ne s p e]
    exact ⟨fun h => ⟨e, h⟩, fun h => h.2⟩

theorem goto_buf {k : Nat} {p : SendPc} (h : p.buf? = (s.send k).buf?) (j : Nat) :
    (goto s k p j).buf? = (s.send j).buf? := by
  by_cases e : j = k
  · subst e; rw [goto_same]; exact h
  · rw [goto_ne s p e]

/-- Neither memory nor fate looks further than at what the calls have in their hands. -/
theorem Memory.goto (hm : Memory calls s) {k : Nat} {p : SendPc} (hb : p.buf? = (s.send k).buf?)
    (hp : ∀ q, p = .msgsnd q → s.heap q = some (calls k).bytes) : Memory calls { s with send := goto s k p } :=
  { hm with
    live := fun q => by rw [hm.live q]; simp only [goto_buf hb]; rfl
    senders := fun j q hj => hm.senders j q ((goto_buf hb j).symm.trans hj)
    apart := fun i j q hi hj => hm.apart i j q ((goto_buf hb i).symm.trans hi) ((goto_buf hb j).symm.trans hj)
    filled := fun j q hj => by
      by_cases e : j = k
      · subst e; exact hp q ((goto_same s j p).symm.trans hj)
      · exact hm.filled j q ((goto_ne s p e).symm.trans hj) }

theorem Fate.goto (hf : Fate s) {k : Nat} {p : SendPc} (hb : p.buf? = (s.send k).buf?)
    (hp : p = .idle ∨ p = .malloc → k ∉ s.copied) (hret : s.send k ≠ .ret 0) : Fate { s with send := goto s k p } :=
  { hf with
    fresh := fun j hj => by
      by_cases e : j = k
      · rw [e] at hj ⊢; exact hp ((goto_same s k p) ▸ hj)
      · exact hf.fresh j (by rw [← goto_ne s p e]; exact hj)
    copied := fun j q hj => hf.copied j q ((goto_buf hb j).symm.trans hj)
    fate := fun j hj => by rw [hf.fate j hj]; simp only [goto_buf hb]; rfl
    sentCopied := fun m hm => by
      obtain ⟨h1, h2⟩ := hf.sentCopied m hm
      exact ⟨h1, (goto_ne s p fun e : m.call = k => hret (e ▸ h2)).trans h2⟩ }

/-- Call `k` goes to `p`, and is refused if its msgsnd has failed. -/
theorem History.goto (hh : History calls onMsg s) {k : Nat} {p : SendPc} (hret : s.send k ≠ .ret 0) {r : List Nat}
    (hr : r = s.refused ∨ (r = s.refused ++ [k] ∧ ∃ q, p = .unsent q))
    (hr' : k ∈ s.refused → (∃ q, p = .unsent q) ∨ p = .ret (-1)) (hun : ∀ q, p = .unsent q → k ∈ r) :
    History calls onMsg { s with send := goto s k p, refused := r } := by
  have hsub : ∀ j ∈ s.refused, j ∈ r := fun j hj => by
    rcases hr with rfl | ⟨rfl, -⟩
    · exact hj
    · exact List.mem_append_left _ hj
  refine { hh with
    accepted := fun j hj => (goto_ne s p fun e : j = k => hret (e ▸ hh.accepted j hj)).trans (hh.accepted j hj)
    refused := fun j hj => ?_
    unsent := fun j q hj => ?_
    freedAfter := fun j hj => (hh.freedAfter j hj).imp_left (hsub j) }
  · by_cases e : j = k
    · subst e
      simp only [goto_same]
      rcases hr with rfl | ⟨-, hu⟩
      · exact hr' hj
      · exact .inl hu
    · simp only [goto_ne s p e]
      rcases hr with rfl | ⟨rfl, -⟩
      · exact hh.refused j hj
      · exact hh.refused j ((List.mem_append.mp hj).resolve_right (by simpa using e))
  · by_cases e : j = k
    · subst e; exact hun q ((goto_same s j p).symm.trans hj)
    · exact hsub j (hh.unsent j q ((goto_ne s p e).symm.trans hj))

/-- A call that has not come to its msgsnd has not been refused. -/
theorem History.not_refused (hh : History calls onMsg s) {k : Nat} (hu : ∀ p, s.send k ≠ .unsent p)
    (hr : s.send k ≠ .ret (-1)) : k ∉ s.refused := fun h => by
  rcases hh.refused k h with ⟨p, h⟩ | h
  · exact hu p h
  · exact hr h

theorem enter_inv (hi : Inv calls onMsg s) {k : Nat} (h : enter calls s k = some s') : Inv calls onMsg s' := by
  unfold enter at h
  split at h
  · rename_i hp
    have hret : s.send k ≠ .ret 0 := by rw [hp]; simp
    have href : k ∉ s.refused := hi.history.not_refused (by rw [hp]; simp) (by rw [hp]; simp)
    split at h
    · cases h
      exact ⟨hi.memory.goto (by rw [hp]; rfl) (by simp), hi.fate.goto (by rw [hp]; rfl) (by simp) hret,
        hi.history.goto hret (.inl rfl) (fun h => absurd h href) (by simp)⟩
    · cases h
      exact ⟨hi.memory.goto (by rw [hp]; rfl) (by simp),
        hi.fate.goto (by rw [hp]; rfl) (fun _ => hi.fate.fresh k (.inl hp)) hret,
        hi.history.goto hret (.inl rfl) (fun h => absurd h href) (by simp)⟩
  · cases h

/-! ## Copies -/

/-- A block that is not allocated belongs to nobody. -/
theorem Memory.not_live (hm : Memory calls s) {p : Nat} (hp : s.heap p = none) :
    p ∉ (held s).map Sent.buf ∧ ∀ k, (s.send k).buf? ≠ some p := by
  have : ¬ (s.heap p).isSome = true := by simp [hp]
  rw [hm.live p, not_or, not_exists] at this
  exact this

theorem Memory.live_sender (hm : Memory calls s) {k p : Nat} (hk : (s.send k).buf? = some p) : (s.heap p).isSome = true :=
  (hm.live p).mpr (.inr ⟨k, hk⟩)

theorem isSome_update {heap : Nat → Option (List UInt8)} {p : Nat} {b : List UInt8} (q : Nat) :
    (Function.update heap p (some b) q).isSome = true ↔ q = p ∨ (heap q).isSome = true := by
  by_cases e : q = p
  · subst e; simp
  · simp [e]

theorem SentOk.update {heap : Nat → Option (List UInt8)} {m : Sent} (h : SentOk calls heap m) {p : Nat} (hp : m.buf ≠ p)
    (b : Option (List UInt8)) : SentOk calls (Function.update heap p b) m :=
  ⟨(Function.update_of_ne hp ..).trans h.content, h.size, h.type⟩

theorem buf_ne {p : Nat} (hp : p ∉ (held s).map Sent.buf) {m : Sent} (hm : m ∈ held s) : m.buf ≠ p :=
  fun e => hp (e ▸ List.mem_map_of_mem hm)

/-- Call `k` gets the new block `p`. -/
theorem malloc_memory (hm : Memory calls s) {k p : Nat} (hk : (s.send k).buf? = none) (h0 : p ≠ 0) (hp : s.heap p = none)
    (c : List Nat) :
    Memory calls { s with heap := Function.update s.heap p (some []), copied := c, send := goto s k (.memcpy p) } := by
  obtain ⟨hpt, hps⟩ := hm.not_live hp
  have hsend : ∀ {j q}, (goto s k (.memcpy p) j).buf? = some q → (j = k ∧ q = p) ∨ (s.send j).buf? = some q :=
    fun {j q} hq => by
      by_cases e : j = k
      · subst e
        rw [goto_same] at hq
        exact .inl ⟨rfl, (Option.some.inj hq).symm⟩
      · rw [goto_ne s _ e] at hq; exact .inr hq
  refine ⟨(Function.update_of_ne (Ne.symm h0) ..).trans hm.null, fun q => ?_, hm.nodup, fun j q hj => ?_,
    fun i j q hi hj => ?_, fun m hmem => (hm.sent m hmem).update (buf_ne hpt hmem) _, fun j q hj => ?_⟩
  · rw [isSome_update, hm.live q]
    constructor
    · intro h
      rcases h with rfl | h | ⟨j, h⟩
      · exact .inr ⟨k, congrArg SendPc.buf? (goto_same s k _)⟩
      · exact .inl h
      · refine .inr ⟨j, (congrArg SendPc.buf? (goto_ne s _ fun e : j = k => ?_)).trans h⟩
        rw [e, hk] at h; cases h
    · intro h
      rcases h with h | ⟨j, h⟩
      · exact .inr (.inl h)
      · rcases hsend h with ⟨-, h⟩ | h
        · exact .inl h
        · exact .inr (.inr ⟨j, h⟩)
  · rcases hsend hj with ⟨-, rfl⟩ | hj
    · exact hpt
    · exact hm.senders j q hj
  · rcases hsend hi with ⟨rfl, rfl⟩ | h1
    · rcases hsend hj with ⟨rfl, -⟩ | h2
      · rfl
      · exact absurd h2 (hps j)
    · rcases hsend hj with ⟨-, rfl⟩ | h2
      · exact absurd h1 (hps i)
      · exact hm.apart i j q h1 h2
  · have e : j ≠ k := fun e => by rw [e] at hj; have := (goto_same s k _).symm.trans hj; cases this
    have hj : s.send j = .msgsnd q := (goto_ne s _ e).symm.trans hj
    have hq : q ≠ p := fun e' => hps j (by rw [hj, e']; rfl)
    exact (Function.update_of_ne hq ..).trans (hm.filled j q hj)

theorem malloc_fate (hf : Fate s) {k p : Nat} (hk : s.send k = .malloc) (g : Nat → Option (List UInt8)) :
    Fate { s with heap := g, copied := s.copied ++ [k], send := goto s k (.memcpy p) } := by
  have hnew : k ∉ s.copied := hf.fresh k (.inr hk)
  have hold : ∀ {j}, j ∈ s.copied ++ [k] → j ≠ k → j ∈ s.copied := fun hj e =>
    (List.mem_append.mp hj).resolve_right (by simpa using e)
  refine ⟨fun j hj => ?_, fun j q hj => ?_, nodup_snoc hf.copiedOnce hnew, hf.freedOnce,
    fun j hj => List.mem_append_left _ (hf.freedCopied j hj), fun j hj => ?_, fun m hm => ?_, hf.sentOnce,
    fun j hj => List.mem_append_left _ (hf.refusedCopied j hj), hf.badFree⟩
  · have e : j ≠ k := fun e => by rw [e] at hj; simp at hj
    exact fun hmem => hf.fresh j (by rw [← goto_ne s (.memcpy p) e]; exact hj) (hold hmem e)
  · by_cases e : j = k
    · rw [e]; exact List.mem_append_right _ List.mem_cons_self
    · exact List.mem_append_left _ (hf.copied j q ((congrArg SendPc.buf? (goto_ne s (.memcpy p) e)).symm.trans hj))
  · by_cases e : j = k
    · subst e
      refine ⟨fun h => absurd (hf.freedCopied j h) hnew, fun h => ?_⟩
      have h1 := h.1
      simp only [goto_same] at h1
      cases h1
    · rw [hf.fate j (hold hj e)]
      simp only [goto_ne s _ e]
      rfl
  · obtain ⟨h1, h2⟩ := hf.sentCopied m hm
    exact ⟨List.mem_append_left _ h1, (goto_ne s _ fun e : m.call = k => hnew (e ▸ h1)).trans h2⟩

theorem malloc_inv (hi : Inv calls onMsg s) {k : Nat} {p : Option Nat} (h : malloc s k p = some s') :
    Inv calls onMsg s' := by
  unfold malloc at h
  cases p with
  | none =>
    simp only at h
    split at h <;> cases h
    rename_i hk
    have hret : s.send k ≠ .ret 0 := by rw [hk]; simp
    exact ⟨hi.memory.goto (by rw [hk]; rfl) (by simp), hi.fate.goto (by rw [hk]; rfl) (by simp) hret,
      hi.history.goto hret (.inl rfl) (fun _ => .inr rfl) (by simp)⟩
  | some p =>
    simp only at h
    split at h <;> cases h
    rename_i hc
    obtain ⟨hk, h0, hp⟩ := hc
    have href : k ∉ s.refused := hi.history.not_refused (by rw [hk]; simp) (by rw [hk]; simp)
    have hh := hi.history.goto (k := k) (p := .memcpy p) (by rw [hk]; simp) (.inl rfl) (fun h => absurd h href) (by simp)
    exact ⟨malloc_memory hi.memory (by rw [hk]; rfl) h0 hp _, malloc_fate hi.fate hk _, { hh with }⟩

theorem memcpy_inv (hi : Inv calls onMsg s) {k p : Nat} (hk : s.send k = .memcpy p) :
    Inv calls onMsg { s with heap := Function.update s.heap p (some (calls k).bytes), send := goto s k (.msgsnd p) } := by
  obtain ⟨hm, hf, hh⟩ := hi
  have hret : s.send k ≠ .ret 0 := by rw [hk]; simp
  have hb : (s.send k).buf? = some p := by rw [hk]; rfl
  have hlive := hm.live_sender hb
  have hne : p ≠ 0 := fun e => by rw [e, hm.null] at hlive; cases hlive
  have href : k ∉ s.refused := hh.not_refused (by rw [hk]; simp) (by rw [hk]; simp)
  have h1 : Memory calls { s with heap := Function.update s.heap p (some (calls k).bytes) } :=
    { hm with
      null := (Function.update_of_ne (Ne.symm hne) ..).trans hm.null
      live := fun q => by
        rw [isSome_update, or_iff_right_of_imp fun e : q = p => e ▸ hlive]
        exact hm.live q
      sent := fun m hmem => (hm.sent m hmem).update (buf_ne (hm.senders k p hb) hmem) _
      filled := fun j q hj => by
        have e : q ≠ p := fun e => by
          have := hm.apart j k p (by rw [hj, e]; rfl) hb
          rw [this, hk] at hj; cases hj
        exact (Function.update_of_ne e ..).trans (hm.filled j q hj) }
  have h2 := hf.goto (k := k) (p := .msgsnd p) (by rw [hk]; rfl) (by simp) hret
  have h3 := hh.goto (k := k) (p := .msgsnd p) hret (.inl rfl) (fun h => absurd h href) (by simp)
  exact ⟨h1.goto (by rw [hk]; rfl) fun q e => by cases e; exact Function.update_self .., { h2 with }, { h3 with }⟩

/-! ## Handing a copy over -/

theorem message_type (p len : Nat) (t : Int) : 0 < (message p len t).type := by
  unfold message
  simp only
  split <;> omega

theorem held_snoc (s : St) (m : Sent) (a : List Nat) (f : Nat → SendPc) :
    held { s with queue := s.queue ++ [.own m], accepted := a, send := f } = held s ++ [m] := by
  simp [held, travelling, Entry.sent?]

/-- msgsnd takes the message of call `k`, and its copy with it. -/
theorem sent_memory (hm : Memory calls s) {k p : Nat} (hk : s.send k = .msgsnd p) {m : Sent}
    (hmsg : m = ⟨k, message p (calls k).len (calls k).msgType⟩) (a : List Nat) :
    Memory calls { s with queue := s.queue ++ [.own m], accepted := a, send := goto s k (.ret 0) } := by
  have hb : (s.send k).buf? = some p := by rw [hk]; rfl
  have hbuf : m.buf = p := by rw [hmsg]; rfl
  have hsend : ∀ {j q}, (goto s k (.ret 0) j).buf? = some q → j ≠ k ∧ (s.send j).buf? = some q := (goto_released rfl).mp
  refine ⟨hm.null, fun q => ?_, ?_, fun j q hj => ?_, fun i j q hi hj => hm.apart i j q (hsend hi).2 (hsend hj).2,
    fun x hx => ?_, fun j q hj => ?_⟩
  · rw [held_snoc, List.map_append, List.mem_append, hm.live q]
    constructor
    · intro h
      rcases h with h | ⟨j, h⟩
      · exact .inl (.inl h)
      · by_cases e : j = k
        · rw [e, hb] at h
          cases h
          exact .inl (.inr (by simp [hbuf]))
        · exact .inr ⟨j, (congrArg SendPc.buf? (goto_ne s _ e)).trans h⟩
    · intro h
      rcases h with (h | h) | ⟨j, h⟩
      · exact .inl h
      · have e : q = p := by simpa [hbuf] using h
        exact .inr ⟨k, e ▸ hb⟩
      · exact .inr ⟨j, (hsend h).2⟩
  · rw [held_snoc, List.map_append]
    have hnew := hm.senders k p hb
    exact nodup_snoc hm.nodup (by rwa [hbuf])
  · obtain ⟨h1, h2⟩ := hsend hj
    rw [held_snoc, List.map_append, List.mem_append, not_or]
    refine ⟨hm.senders j q h2, fun h => ?_⟩
    have e : q = p := by simpa [hbuf] using h
    exact h1 (hm.apart j k p (e ▸ h2) hb)
  · rw [held_snoc] at hx
    rcases List.mem_append.mp hx with hx | hx
    · exact hm.sent x hx
    · rw [List.mem_singleton.mp hx]
      refine ⟨?_, by rw [hmsg]; rfl, by rw [hmsg]; exact message_type ..⟩
      rw [hbuf, hmsg]
      exact hm.filled k p hk
  · have e : j ≠ k := fun e => by rw [e] at hj; have := (goto_same s k _).symm.trans hj; cases this
    exact hm.filled j q ((goto_ne s _ e).symm.trans hj)

theorem sent_fate (hf : Fate s) {k p : Nat} (hk : s.send k = .msgsnd p) {m : Sent} (hm : m.call = k) (a : List Nat) :
    Fate { s with queue := s.queue ++ [.own m], accepted := a, send := goto s k (.ret 0) } := by
  have hb : (s.send k).buf? = some p := by rw [hk]; rfl
  have hnew : k ∉ (held s).map Sent.call := fun h => by
    obtain ⟨x, hx, e⟩ := List.mem_map.mp h
    have := (hf.sentCopied x hx).2
    rw [e, hk] at this; cases this
  refine ⟨fun j hj => ?_, fun j q hj => ?_, hf.copiedOnce, hf.freedOnce, hf.freedCopied, fun j hj => ?_, fun x hx => ?_, ?_,
    hf.refusedCopied, hf.badFree⟩
  · have e : j ≠ k := fun e => by rw [e] at hj; simp at hj
    exact hf.fresh j (by rw [← goto_ne s (.ret 0) e]; exact hj)
  · have e : j ≠ k := fun e => by
      rw [e] at hj
      have := (congrArg SendPc.buf? (goto_same s k (.ret 0))).symm.trans hj
      cases this
    exact hf.copied j q ((congrArg SendPc.buf? (goto_ne s (.ret 0) e)).symm.trans hj)
  · rw [held_snoc, List.map_append, List.mem_append, hf.fate j hj]
    by_cases e : j = k
    · subst e
      simp [hb, hm]
    · have : ¬ m.call = j := fun h => e (h.symm.trans hm)
      simp [goto_ne s _ e, hm, e]
  · rw [held_snoc] at hx
    rcases List.mem_append.mp hx with hx | hx
    · obtain ⟨h1, h2⟩ := hf.sentCopied x hx
      refine ⟨h1, (goto_ne s _ fun e : x.call = k => ?_).trans h2⟩
      rw [e, hk] at h2; cases h2
    · rw [List.mem_singleton.mp hx, hm]
      exact ⟨hf.copied k p hb, goto_same ..⟩
  · rw [held_snoc, List.map_append]
    exact nodup_snoc hf.sentOnce (by rwa [hm])

theorem sent_history (hh : History calls onMsg s) {k p : Nat} (hk : s.send k = .msgsnd p) {m : Sent} (hm : m.call = k) :
    History calls onMsg
      { s with queue := s.queue ++ [.own m], accepted := s.accepted ++ [k], send := goto s k (.ret 0) } := by
  have href : k ∉ s.refused := hh.not_refused (by rw [hk]; simp) (by rw [hk]; simp)
  have h1 := hh.goto (k := k) (p := .ret 0) (by rw [hk]; simp) (.inl rfl) (fun h => absurd h href) (by simp)
  have hun : unhandled { s with queue := s.queue ++ [.own m], accepted := s.accepted ++ [k], send := goto s k (.ret 0) } =
      unhandled s ++ [m] := by simp [unhandled, Entry.sent?]
  refine { h1 with inOrder := ?_, all := ?_, accepted := fun j hj => ?_ }
  · rw [hun, List.map_append, ← List.append_assoc, List.map_singleton, hm]
    exact hh.inOrder.append (.refl [k])
  · rw [hun, ← List.append_assoc, List.map_append, ← List.append_assoc, List.map_singleton, hm]
    exact hh.all.append_right [k]
  · rcases List.mem_append.mp hj with hj | hj
    · exact h1.accepted j hj
    · rw [List.mem_singleton.mp hj]; exact goto_same ..

/-! ## A refused message -/

theorem refuse_inv (hi : Inv calls onMsg s) {k p : Nat} (hk : s.send k = .msgsnd p) :
    Inv calls onMsg { s with refused := s.refused ++ [k], send := goto s k (.unsent p) } := by
  have hret : s.send k ≠ .ret 0 := by rw [hk]; simp
  have hm := hi.memory.goto (k := k) (p := .unsent p) (by rw [hk]; rfl) (by simp)
  have hf := hi.fate.goto (k := k) (p := .unsent p) (by rw [hk]; rfl) (by simp) hret
  have hc : k ∈ s.copied := hi.fate.copied k p (by rw [hk]; rfl)
  refine ⟨{ hm with }, { hf with refusedCopied := fun j hj => ?_ },
    hi.history.goto hret (.inr ⟨rfl, p, rfl⟩) (fun _ => .inl ⟨p, rfl⟩) (by simp)⟩
  rcases List.mem_append.mp hj with hj | hj
  · exact hi.fate.refusedCopied j hj
  · rw [List.mem_singleton.mp hj]; exact hc

theorem free_live {p k : Nat} (h : (s.heap p).isSome = true) :
    free s p k = { s with heap := Function.update s.heap p none, freed := s.freed ++ [k] } := if_pos h

theorem isSome_update_none {heap : Nat → Option (List UInt8)} {p : Nat} (q : Nat) :
    (Function.update heap p none q).isSome = true ↔ q ≠ p ∧ (heap q).isSome = true := by
  by_cases e : q = p
  · subst e; simp
  · simp [e]

theorem update_none_null {heap : Nat → Option (List UInt8)} (h : heap 0 = none) (p : Nat) :
    Function.update heap p none 0 = none := by
  by_cases e : 0 = p
  · rw [← e]; exact Function.update_self ..
  · exact (Function.update_of_ne e ..).trans h

theorem unsent_memory (hm : Memory calls s) {k p : Nat} (hk : s.send k = .unsent p) (f : List Nat) :
    Memory calls { s with heap := Function.update s.heap p none, freed := f, send := goto s k (.ret (-1)) } := by
  have hb : (s.send k).buf? = some p := by rw [hk]; rfl
  have hpt := hm.senders k p hb
  have hsend : ∀ {j q}, (goto s k (.ret (-1)) j).buf? = some q ↔ j ≠ k ∧ (s.send j).buf? = some q := goto_released rfl
  refine ⟨update_none_null hm.null p, fun q => ?_, hm.nodup, fun j q hj => hm.senders j q (hsend.mp hj).2,
    fun i j q hi hj => hm.apart i j q (hsend.mp hi).2 (hsend.mp hj).2,
    fun m hmem => (hm.sent m hmem).update (buf_ne hpt hmem) _, fun j q hj => ?_⟩
  · rw [isSome_update_none, hm.live q]
    constructor
    · intro ⟨hq, h⟩
      rcases h with h | ⟨j, h⟩
      · exact .inl h
      · refine .inr ⟨j, hsend.mpr ⟨fun e : j = k => ?_, h⟩⟩
        rw [e, hb] at h
        exact hq (Option.some.inj h).symm
    · intro h
      rcases h with h | ⟨j, h⟩
      · exact ⟨fun e => hpt (e ▸ h), .inl h⟩
      · obtain ⟨e, h⟩ := hsend.mp h
        exact ⟨fun e' => e (hm.apart j k p (e' ▸ h) hb), .inr ⟨j, h⟩⟩
  · have e : j ≠ k := fun e => by rw [e] at hj; have := (goto_same s k _).symm.trans hj; cases this
    have hj : s.send j = .msgsnd q := (goto_ne s _ e).symm.trans hj
    have hq : q ≠ p := fun e' => e (hm.apart j k p (by rw [hj, e']; rfl) hb)
    exact (Function.update_of_ne hq ..).trans (hm.filled j q hj)

theorem unsent_fate (hf : Fate s) {k p : Nat} (hk : s.send k = .unsent p) (g : Nat → Option (List UInt8)) :
    Fate { s with heap := g, freed := s.freed ++ [k], send := goto s k (.ret (-1)) } := by
  have hb : (s.send k).buf? = some p := by rw [hk]; rfl
  have hc : k ∈ s.copied := hf.copied k p hb
  have hnew : k ∉ s.freed := fun h => by
    have := ((hf.fate k hc).mp h).1
    rw [hb] at this; cases this
  have hnt : k ∉ (held s).map Sent.call := fun h => by
    obtain ⟨x, hx, e⟩ := List.mem_map.mp h
    have := (hf.sentCopied x hx).2
    rw [e, hk] at this; cases this
  refine ⟨fun j hj => ?_, fun j q hj => hf.copied j q ((goto_released rfl).mp hj).2, hf.copiedOnce,
    nodup_snoc hf.freedOnce hnew,
    fun j hj => ?_, fun j hj => ?_, fun x hx => ?_, hf.sentOnce, hf.refusedCopied, hf.badFree⟩
  · have e : j ≠ k := fun e => by rw [e] at hj; simp at hj
    exact hf.fresh j (by rw [← goto_ne s (.ret (-1)) e]; exact hj)
  · rcases List.mem_append.mp hj with hj | hj
    · exact hf.freedCopied j hj
    · rw [List.mem_singleton.mp hj]; exact hc
  · by_cases e : j = k
    · subst e
      refine ⟨fun _ => ⟨congrArg SendPc.buf? (goto_same s j _), hnt⟩, fun _ => by simp⟩
    · have := hf.fate j hj
      simp only [goto_ne s _ e, List.mem_append, List.mem_singleton, e, or_false]
      exact this
  · obtain ⟨h1, h2⟩ := hf.sentCopied x hx
    exact ⟨h1, (goto_ne s _ fun e : x.call = k => hnt (e ▸ List.mem_map_of_mem hx)).trans h2⟩

theorem unsent_inv (hi : Inv calls onMsg s) {k p : Nat} (hk : s.send k = .unsent p) :
    Inv calls onMsg { free s p k with send := goto s k (.ret (-1)) } := by
  obtain ⟨hm, hf, hh⟩ := hi
  rw [free_live (hm.live_sender (k := k) (by rw [hk]; rfl))]
  have hr : k ∈ s.refused := hh.unsent k p hk
  have h3 := hh.goto (k := k) (p := .ret (-1)) (by rw [hk]; simp) (.inl rfl) (fun _ => .inr rfl) (by simp)
  refine ⟨unsent_memory hm hk _, unsent_fate hf hk _, { h3 with freedAfter := fun j hj => ?_ }⟩
  rcases List.mem_append.mp hj with hj | hj
  · exact hh.freedAfter j hj
  · rw [List.mem_singleton.mp hj]; exact .inl hr

theorem sendStep_inv (hi : Inv calls onMsg s) {k : Nat} {accepted : Bool} (h : sendStep calls s k accepted = some s') :
    Inv calls onMsg s' := by
  unfold sendStep at h
  split at h
  · rename_i p hk
    cases h
    exact memcpy_inv hi hk
  · rename_i p hk
    split at h <;> cases h
    · exact ⟨sent_memory hi.memory hk rfl _, sent_fate hi.fate hk rfl _, sent_history hi.history hk rfl⟩
    · exact refuse_inv hi hk
  · rename_i p hk
    cases h
    exact unsent_inv hi hk
  · cases h

/-! ## Receiving -/

/-- A step that frees no copy and makes none. -/
theorem Memory.frame (hm : Memory calls s) (ht : (held s').Perm (held s)) (hh : s'.heap = s.heap)
    (hs : s'.send = s.send) : Memory calls s' := by
  have hb : ∀ p, p ∈ (held s').map Sent.buf ↔ p ∈ (held s).map Sent.buf := fun p => (ht.map _).mem_iff
  constructor
  · rw [hh]; exact hm.null
  · rw [hh, hs]; exact fun p => (hm.live p).trans (or_congr_left (hb p).symm)
  · exact (ht.map _).nodup_iff.mpr hm.nodup
  · rw [hs]; exact fun k p hk h => hm.senders k p hk ((hb p).mp h)
  · rw [hs]; exact hm.apart
  · rw [hh]; exact fun m h => hm.sent m (ht.mem_iff.mp h)
  · rw [hs, hh]; exact hm.filled

theorem Fate.frame (hf : Fate s) (ht : (held s').Perm (held s)) (hs : s'.send = s.send) (hc : s'.copied = s.copied)
    (hfr : s'.freed = s.freed) (hr : s'.refused = s.refused) (hb : s'.badFree = s.badFree) : Fate s' := by
  constructor
  · rw [hs, hc]; exact hf.fresh
  · rw [hs, hc]; exact hf.copied
  · rw [hc]; exact hf.copiedOnce
  · rw [hfr]; exact hf.freedOnce
  · rw [hfr, hc]; exact hf.freedCopied
  · rw [hc, hfr, hs]
    exact fun k hk => (hf.fate k hk).trans (and_congr_right' (not_congr (ht.map Sent.call).mem_iff.symm))
  · rw [hs, hc]; exact fun m h => hf.sentCopied m (ht.mem_iff.mp h)
  · exact (ht.map _).nodup_iff.mpr hf.sentOnce
  · rw [hr, hc]; exact hf.refusedCopied
  · rw [hb]; exact hf.badFree

theorem foreign_inv (hi : Inv calls onMsg s) (m : Foreign) :
    Inv calls onMsg { s with queue := s.queue ++ [.foreign m] } := by
  obtain ⟨hm, hf, hh⟩ := hi
  have ht : held { s with queue := s.queue ++ [.foreign m] } = held s := by simp [held, travelling, Entry.sent?]
  have hu : unhandled { s with queue := s.queue ++ [.foreign m] } = unhandled s := by simp [unhandled, Entry.sent?]
  exact ⟨hm.frame (.of_eq ht) rfl rfl, hf.frame (.of_eq ht) rfl rfl rfl rfl rfl,
    { hh with inOrder := by rw [hu]; exact hh.inOrder, all := by rw [hu]; exact hh.all }⟩

/-- msg_thread, with no msg_t in its hands before and after: it drops a message, or none. -/
theorem between_inv (hi : Inv calls onMsg s) {q : List Entry} {d : List Sent} {t : ThreadPc} (hs : s.thread.sent? = none)
    (ht : t = .msgrcv ∨ t = .msgrcvNoError)
    (hq : (q.filterMap Entry.sent?).Sublist (s.queue.filterMap Entry.sent?))
    (hd : (d ++ q.filterMap Entry.sent?).Perm (s.dropped ++ s.queue.filterMap Entry.sent?)) :
    Inv calls onMsg { s with queue := q, dropped := d, thread := t } := by
  obtain ⟨hm, hf, hh⟩ := hi
  have hts : t.sent? = none := by rcases ht with rfl | rfl <;> rfl
  have hheld : (held { s with queue := q, dropped := d, thread := t }).Perm (held s) := by
    unfold held travelling
    rw [hs, hts]
    exact hd
  have hun : unhandled s = s.queue.filterMap Entry.sent? := by
    unfold unhandled
    cases hp : s.thread with
    | received m => rw [hp] at hs; cases hs
    | _ => rfl
  have hun' : unhandled { s with queue := q, dropped := d, thread := t } = q.filterMap Entry.sent? := by
    rcases ht with rfl | rfl <;> rfl
  have hnot : ∀ m, t ≠ .onMsg m ∧ t ≠ .free m := fun m => by rcases ht with rfl | rfl <;> simp
  refine ⟨hm.frame hheld rfl rfl, hf.frame hheld rfl rfl rfl rfl rfl, { hh with
    inOrder := ?_
    all := ?_
    handled := fun m h => h.elim (fun h => absurd h (hnot m).1) (fun h => absurd h (hnot m).2)
    freedAfter := fun k hk => (hh.freedAfter k hk).imp_right fun h => ⟨h.1, fun m h => absurd h (hnot m).1⟩ }⟩
  · rw [hun']
    refine List.Sublist.trans ?_ (hun ▸ hh.inOrder)
    exact (List.Sublist.refl s.handled).append (hq.map Sent.call)
  · rw [hun']
    refine (hun ▸ hh.all).trans ?_
    exact (hd.symm.map Sent.call).append_left s.handled

theorem received_inv (hi : Inv calls onMsg s) {m : Sent} {q : List Entry} (ht : s.thread = .msgrcv)
    (hq : s.queue = .own m :: q) : Inv calls onMsg { s with queue := q, thread := .received m } := by
  obtain ⟨hm, hf, hh⟩ := hi
  have htr : held { s with queue := q, thread := .received m } = held s := by
    simp [held, travelling, ht, hq, ThreadPc.sent?, Entry.sent?]
  have hu : unhandled { s with queue := q, thread := .received m } = unhandled s := by
    simp [unhandled, ht, hq, Entry.sent?]
  exact ⟨hm.frame (.of_eq htr) rfl rfl, hf.frame (.of_eq htr) rfl rfl rfl rfl rfl, { hh with
    inOrder := by rw [hu]; exact hh.inOrder
    all := by rw [hu]; exact hh.all
    handled := fun n h => by simp at h
    freedAfter := fun k hk => (hh.freedAfter k hk).imp_right fun h => ⟨h.1, fun n h => by cases h⟩ }⟩

/-- msgrcv takes the first message, or finds it too large. -/
theorem msgrcv_cases (h : msgrcv s = some s') :
    (∃ m q, s.queue = .own m :: q ∧ s' = { s with queue := q, thread := .received m }) ∨
      ∃ m q, s.queue = .foreign m :: q ∧
        ((payload < m.size ∧ s' = { s with thread := .msgrcvNoError }) ∨
          (m.size ≤ payload ∧ s' = { s with queue := q })) := by
  unfold msgrcv at h
  split at h
  · rename_i m q hq
    cases h
    exact .inl ⟨m, q, hq, rfl⟩
  · rename_i m q hq
    right
    split at h <;> cases h
    · rename_i hm
      exact ⟨m, q, hq, .inl ⟨hm, rfl⟩⟩
    · rename_i hm
      exact ⟨m, q, hq, .inr ⟨Nat.not_lt.mp hm, rfl⟩⟩
  · cases h

/-- The second msgrcv takes a message of type 4096 from anywhere in the queue, or finds it too large. -/
theorem msgrcvNoError_cases (h : msgrcvNoError s = some s') :
    ∃ e l r, s.queue = l ++ e :: r ∧ e.type = msgNoError ∧
      ((∃ m, e = .own m ∧ s' = { s with queue := l ++ r, dropped := s.dropped ++ [m], thread := .msgrcv }) ∨
        ∃ m, e = .foreign m ∧ ((payload < m.size ∧ s' = { s with thread := .msgrcv }) ∨
          (m.size ≤ payload ∧ s' = { s with queue := l ++ r, thread := .msgrcv }))) := by
  have hfind : ∀ {e}, s.queue.find? ofNoErrorType = some e → ∃ l r, s.queue = l ++ e :: r ∧ e.type = msgNoError ∧
      s.queue.eraseP ofNoErrorType = l ++ r := by
    intro e he
    obtain ⟨ht, l, r, hq, hl⟩ := List.find?_eq_some_iff_append.mp he
    refine ⟨l, r, hq, by simpa [ofNoErrorType] using ht, ?_⟩
    rw [hq, List.eraseP_append_right _ (fun b hb => by simpa using hl b hb), List.eraseP_cons_of_pos ht]
  unfold msgrcvNoError at h
  split at h
  · rename_i m he
    obtain ⟨l, r, hq, ht, herase⟩ := hfind he
    cases h
    exact ⟨_, l, r, hq, ht, .inl ⟨m, rfl, by rw [herase]⟩⟩
  · rename_i m he
    obtain ⟨l, r, hq, ht, herase⟩ := hfind he
    refine ⟨_, l, r, hq, ht, .inr ⟨m, rfl, ?_⟩⟩
    split at h <;> cases h
    · rename_i hm
      exact .inl ⟨hm, rfl⟩
    · rename_i hm
      exact .inr ⟨Nat.not_lt.mp hm, by rw [herase]⟩
  · cases h

theorem msgrcv_inv (hi : Inv calls onMsg s) (ht : s.thread = .msgrcv) (h : msgrcv s = some s') : Inv calls onMsg s' := by
  have hs : s.thread.sent? = none := by rw [ht]; rfl
  rcases msgrcv_cases h with ⟨m, q, hq, rfl⟩ | ⟨m, q, hq, ⟨-, rfl⟩ | ⟨-, rfl⟩⟩
  · exact received_inv hi ht hq
  · exact between_inv (q := s.queue) (d := s.dropped) hi hs (.inr rfl) (.refl _) (.refl _)
  · have hqm : s.queue.filterMap Entry.sent? = q.filterMap Entry.sent? := by rw [hq]; rfl
    have hi' := between_inv (q := q) (d := s.dropped) (t := .msgrcv) hi hs (.inl rfl) (by rw [hqm]) (by rw [hqm])
    rw [← ht] at hi'
    exact hi'

theorem msgrcvNoError_inv (hi : Inv calls onMsg s) (ht : s.thread = .msgrcvNoError) (h : msgrcvNoError s = some s') :
    Inv calls onMsg s' := by
  have hs : s.thread.sent? = none := by rw [ht]; rfl
  obtain ⟨e, l, r, hq, -, ⟨m, rfl, rfl⟩ | ⟨m, rfl, ⟨-, rfl⟩ | ⟨-, rfl⟩⟩⟩ := msgrcvNoError_cases h
  · have hqm : s.queue.filterMap Entry.sent? = l.filterMap Entry.sent? ++ m :: r.filterMap Entry.sent? := by
      rw [hq]
      simp [Entry.sent?]
    refine between_inv hi hs (.inl rfl) ?_ ?_
    · rw [hqm, List.filterMap_append]
      exact (List.Sublist.refl _).append (List.sublist_cons_self ..)
    · -- the message goes from its place in the queue to the end of what is dropped
      rw [hqm, List.filterMap_append, List.append_assoc, List.singleton_append]
      exact List.perm_middle.symm.append_left s.dropped
  · exact between_inv (q := s.queue) (d := s.dropped) hi hs (.inl rfl) (.refl _) (.refl _)
  · have hqm : (l ++ r).filterMap Entry.sent? = s.queue.filterMap Entry.sent? := by
      rw [hq, List.filterMap_append, List.filterMap_append]
      rfl
    exact between_inv (d := s.dropped) hi hs (.inl rfl) (by rw [hqm]) (by rw [hqm])

theorem receive_inv (hi : Inv calls onMsg s) (h : receive s = some s') : Inv calls onMsg s' := by
  unfold receive at h
  split at h
  · rename_i ht
    exact msgrcv_inv hi ht h
  · rename_i ht
    exact msgrcvNoError_inv hi ht h
  · cases h

theorem interrupt_inv (hi : Inv calls onMsg s) (h : interrupt s = some s') : Inv calls onMsg s' := by
  unfold interrupt at h
  split at h <;> cases h
  all_goals
    rename_i ht
    exact between_inv (q := s.queue) (d := s.dropped) hi (by rw [ht]; rfl) (.inl rfl) (.refl _) (.refl _)

/-! ## Handling -/

/-- What msg_thread has in its hands is the first of what travels. -/
theorem travelling_cons {m : Sent} (h : s.thread.sent? = some m) :
    travelling s = m :: s.queue.filterMap Entry.sent? := by
  unfold travelling
  rw [h]
  rfl

theorem mem_held {m : Sent} (h : s.thread.sent? = some m) : m ∈ held s :=
  List.mem_append_right _ (travelling_cons h ▸ List.mem_cons_self)

theorem handle_inv (hi : Inv calls onMsg s) {m : Sent} (ht : s.thread = .received m) {t : ThreadPc}
    {d : List (Option (List UInt8) × Nat)}
    (htd : (onMsg = true ∧ t = .onMsg m ∧ d = s.delivered ++ [own calls m.call]) ∨
      (onMsg = false ∧ t = .free m ∧ d = s.delivered)) :
    Inv calls onMsg { s with thread := t, handled := s.handled ++ [m.call], delivered := d } := by
  obtain ⟨hm, hf, hh⟩ := hi
  have hts : t.sent? = some m := by rcases htd with ⟨-, rfl, -⟩ | ⟨-, rfl, -⟩ <;> rfl
  have htr : held { s with thread := t, handled := s.handled ++ [m.call], delivered := d } = held s :=
    congrArg (s.dropped ++ ·)
      ((travelling_cons (s := { s with thread := t, handled := s.handled ++ [m.call], delivered := d }) hts).trans
        (travelling_cons (s := s) (by rw [ht]; rfl)).symm)
  have hnew : m.call ∉ s.freed := fun h => by
    have hmem : m ∈ held s := mem_held (by rw [ht]; rfl)
    exact ((hf.fate m.call (hf.sentCopied m hmem).1).mp h).2 (List.mem_map_of_mem hmem)
  have hu : unhandled s = m :: s.queue.filterMap Entry.sent? := by unfold unhandled; rw [ht]; rfl
  have hu' : unhandled { s with thread := t, handled := s.handled ++ [m.call], delivered := d } =
      s.queue.filterMap Entry.sent? := by
    rcases htd with ⟨-, rfl, -⟩ | ⟨-, rfl, -⟩ <;> rfl
  refine ⟨hm.frame (.of_eq htr) rfl rfl, hf.frame (.of_eq htr) rfl rfl rfl rfl rfl, { hh with
    inOrder := ?_, all := ?_, delivered := ?_, handled := fun n h => ?_, freedAfter := fun k hk => ?_ }⟩
  · have h := hh.inOrder
    rw [hu, List.map_cons, List.append_cons] at h
    rw [hu']
    exact h
  · refine hh.all.trans ?_
    rw [hu, hu', List.append_assoc]
    exact (List.perm_middle.map Sent.call).append_left s.handled
  · rcases htd with ⟨ho, -, rfl⟩ | ⟨ho, -, rfl⟩
    · rw [hh.delivered]; simp [ho]
    · rw [hh.delivered]; simp [ho]
  · have e : n = m := by
      rcases htd with ⟨-, rfl, -⟩ | ⟨-, rfl, -⟩ <;> simpa [eq_comm] using h
    rw [e]
    exact List.mem_append_right _ List.mem_cons_self
  · refine (hh.freedAfter k hk).imp_right fun h => ⟨List.mem_append_left _ h.1, fun n h => ?_⟩
    rcases htd with ⟨-, rfl, -⟩ | ⟨-, rfl, -⟩
    · cases h
      exact fun e => hnew (e ▸ hk)
    · cases h

theorem returned_inv (hi : Inv calls onMsg s) {m : Sent} (ht : s.thread = .onMsg m) :
    Inv calls onMsg { s with thread := .free m } := by
  obtain ⟨hm, hf, hh⟩ := hi
  have htr : held { s with thread := .free m } = held s := by unfold held travelling; rw [ht]; rfl
  have hu : unhandled { s with thread := .free m } = unhandled s := by unfold unhandled; rw [ht]
  refine ⟨hm.frame (.of_eq htr) rfl rfl, hf.frame (.of_eq htr) rfl rfl rfl rfl rfl, { hh with
    inOrder := by rw [hu]; exact hh.inOrder
    all := by rw [hu]; exact hh.all
    handled := fun n h => ?_
    freedAfter := fun k hk => (hh.freedAfter k hk).imp_right fun h => ⟨h.1, fun n h => by cases h⟩ }⟩
  have e : n = m := by simpa [eq_comm] using h
  exact hh.handled n (.inl (e ▸ ht))

theorem freed_memory (hm : Memory calls s) {m : Sent} {r : List Sent} (hh : (held s).Perm (m :: r))
    (hr : s.dropped ++ s.queue.filterMap Entry.sent? = r) (f : List Nat) :
    Memory calls { s with heap := Function.update s.heap m.buf none, freed := f, thread := .msgrcv } := by
  have hbuf : ∀ p, p ∈ (held s).map Sent.buf ↔ p = m.buf ∨ p ∈ r.map Sent.buf := fun p => by
    rw [(hh.map Sent.buf).mem_iff, List.map_cons, List.mem_cons]
  have hnb := (hh.map Sent.buf).nodup_iff.mp hm.nodup
  rw [List.map_cons, List.nodup_cons] at hnb
  have hheld : held { s with heap := Function.update s.heap m.buf none, freed := f, thread := .msgrcv } = r := hr
  refine ⟨update_none_null hm.null _, fun p => ?_, by rw [hheld]; exact hnb.2, fun k p hk h => ?_, hm.apart,
    fun x hx => ?_, fun k p hk => ?_⟩
  · rw [hheld, isSome_update_none, hm.live p, hbuf p]
    constructor
    · intro ⟨hp, h⟩
      exact h.imp_left fun h => h.resolve_left hp
    · intro h
      rcases h with h | ⟨k, hk⟩
      · exact ⟨fun e => hnb.1 (e ▸ h), .inl (.inr h)⟩
      · exact ⟨fun e => hm.senders k p hk ((hbuf p).mpr (.inl e)), .inr ⟨k, hk⟩⟩
  · rw [hheld] at h
    exact hm.senders k p hk ((hbuf p).mpr (.inr h))
  · rw [hheld] at hx
    have hne : x.buf ≠ m.buf := fun e => hnb.1 (e ▸ List.mem_map_of_mem hx)
    exact (hm.sent x (hh.mem_iff.mpr (List.mem_cons_of_mem _ hx))).update hne _
  · have hb : (s.send k).buf? = some p := congrArg SendPc.buf? hk
    have hne : p ≠ m.buf := fun e => hm.senders k p hb ((hbuf p).mpr (.inl e))
    exact (Function.update_of_ne hne ..).trans (hm.filled k p hk)

theorem freed_fate (hf : Fate s) {m : Sent} {r : List Sent} (hh : (held s).Perm (m :: r))
    (hr : s.dropped ++ s.queue.filterMap Entry.sent? = r) (g : Nat → Option (List UInt8)) :
    Fate { s with heap := g, freed := s.freed ++ [m.call], thread := .msgrcv } := by
  have hmem : m ∈ held s := hh.mem_iff.mpr List.mem_cons_self
  have hheld : held { s with heap := g, freed := s.freed ++ [m.call], thread := .msgrcv } = r := hr
  obtain ⟨hcopied, hret⟩ := hf.sentCopied m hmem
  have hnew : m.call ∉ s.freed := fun h => ((hf.fate m.call hcopied).mp h).2 (List.mem_map_of_mem hmem)
  have hnc := (hh.map Sent.call).nodup_iff.mp hf.sentOnce
  rw [List.map_cons, List.nodup_cons] at hnc
  refine ⟨hf.fresh, hf.copied, hf.copiedOnce, nodup_snoc hf.freedOnce hnew, fun k hk => ?_, fun k hk => ?_,
    fun x hx => ?_, by rw [hheld]; exact hnc.2, hf.refusedCopied, hf.badFree⟩
  · rcases List.mem_append.mp hk with hk | hk
    · exact hf.freedCopied k hk
    · rw [List.mem_singleton.mp hk]; exact hcopied
  · have hk' := hf.fate k hk
    rw [(hh.map Sent.call).mem_iff, List.map_cons, List.mem_cons, not_or] at hk'
    rw [hheld, List.mem_append, List.mem_singleton, hk']
    constructor
    · intro h
      rcases h with ⟨h1, h2⟩ | rfl
      · exact ⟨h1, h2.2⟩
      · exact ⟨congrArg SendPc.buf? hret, hnc.1⟩
    · intro ⟨h1, h2⟩
      by_cases e : k = m.call
      · exact .inr e
      · exact .inl ⟨h1, e, h2⟩
  · rw [hheld] at hx
    exact hf.sentCopied x (hh.mem_iff.mpr (List.mem_cons_of_mem _ hx))

theorem freed_history (hh : History calls onMsg s) {m : Sent} (ht : s.thread = .free m) (g : Nat → Option (List UInt8)) :
    History calls onMsg { s with heap := g, freed := s.freed ++ [m.call], thread := .msgrcv } := by
  have hu : unhandled { s with heap := g, freed := s.freed ++ [m.call], thread := .msgrcv } = unhandled s := by
    unfold unhandled
    rw [ht]
  refine { hh with
    inOrder := by rw [hu]; exact hh.inOrder
    all := by rw [hu]; exact hh.all
    handled := fun n h => by simp at h
    freedAfter := fun k hk => ?_ }
  rcases List.mem_append.mp hk with hk | hk
  · exact (hh.freedAfter k hk).imp_right fun h => ⟨h.1, fun n h => by cases h⟩
  · rw [List.mem_singleton.mp hk]
    exact .inr ⟨hh.handled m (.inr ht), fun n h => by cases h⟩

theorem freed_inv (hi : Inv calls onMsg s) {m : Sent} (ht : s.thread = .free m) :
    Inv calls onMsg { free s m.buf m.call with thread := .msgrcv } := by
  have hsent : s.thread.sent? = some m := by rw [ht]; rfl
  have hheld : (held s).Perm (m :: (s.dropped ++ s.queue.filterMap Entry.sent?)) := by
    unfold held
    rw [travelling_cons hsent]
    exact List.perm_middle
  have hlive : (s.heap m.buf).isSome = true := (hi.memory.live m.buf).mpr (.inl (List.mem_map_of_mem (mem_held hsent)))
  rw [free_live hlive]
  exact ⟨freed_memory hi.memory hheld rfl _, freed_fate hi.fate hheld rfl _, freed_history hi.history ht _⟩

theorem threadStep_inv (hi : Inv calls onMsg s) (h : threadStep onMsg s = some s') : Inv calls onMsg s' := by
  unfold threadStep at h
  split at h
  · rename_i m ht
    have hok := hi.memory.sent m (mem_held (by rw [ht]; rfl))
    have hc : s.heap m.msg.msgBuf = some (calls m.call).bytes := hok.content
    have hne : m.msg.msgBuf ≠ 0 := fun e => by rw [e, hi.memory.null] at hc; cases hc
    rw [if_neg hne] at h
    split at h <;> cases h
    · rename_i ho
      refine handle_inv hi ht (.inl ⟨ho, rfl, ?_⟩)
      rw [hc, hok.size]
      simp [own, Call.len]
    · rename_i ho
      exact handle_inv hi ht (.inr ⟨by simpa using ho, rfl, rfl⟩)
  · rename_i m ht
    cases h
    exact returned_inv hi ht
  · rename_i m ht
    cases h
    exact freed_inv hi ht
  · cases h

theorem step_inv (hi : Inv calls onMsg s) {e : Ev} (h : step calls onMsg s e = some s') : Inv calls onMsg s' := by
  cases e with
  | call k => exact enter_inv hi h
  | malloc k p => exact malloc_inv hi h
  | send k accepted => exact sendStep_inv hi h
  | foreign n => cases h; exact foreign_inv hi n
  | receive => exact receive_inv hi h
  | interrupt => exact interrupt_inv hi h
  | thread => exact threadStep_inv hi h

theorem reach_inv (hr : Reach (step calls onMsg) Free init s) : Inv calls onMsg s :=
  hr.invariant (init_inv calls onMsg) fun _ _ _ hi _ h => step_inv hi h

/-! ## What a step leaves alone -/

/-- It takes nothing out of the queue, and puts nothing there. -/
def quiet : Ev → Bool
  | .call _ | .malloc _ _ | .interrupt | .thread => true
  | .send _ accepted => !accepted
  | _ => false

/-- msg_thread takes no part in it. -/
def bySender : Ev → Bool
  | .receive | .interrupt | .thread => false
  | _ => true

/-- What a step changes of the queue, of msg_thread and of the calls' history. -/
structure Moved (a : St) (f : Ev) (b : St) : Prop where
  queue : quiet f = true → b.queue = a.queue
  /-- A message that is too large stays. -/
  stays : ∀ m, payload < m.size → .foreign m ∈ a.queue → .foreign m ∈ b.queue
  foreign : ∀ m, .foreign m ∈ b.queue → .foreign m ∈ a.queue ∨ f = .foreign m
  thread : bySender f = true → b.thread = a.thread
  second : b.thread = .msgrcvNoError → a.thread = .msgrcvNoError ∨ ∃ m, .foreign m ∈ a.queue ∧ payload < m.size
  dropped : b.dropped = a.dropped ∨ (a.thread = .msgrcvNoError ∧ f = .receive)
  accepted : ∀ j ∈ b.accepted, j ∈ a.accepted ∨ ∃ p, a.send j = .msgsnd p
  acceptedBy : bySender f = false → b.accepted = a.accepted
  copied : ∀ j ∈ a.copied, j ∈ b.copied

/-- A step that leaves the queue and what was dropped alone. -/
theorem Moved.same {a b : St} {f : Ev} (hq : b.queue = a.queue) (hd : b.dropped = a.dropped)
    (ht : b.thread = a.thread ∨ (bySender f = false ∧ b.thread ≠ .msgrcvNoError)) (ha : b.accepted = a.accepted)
    (hc : ∀ j ∈ a.copied, j ∈ b.copied) : Moved a f b := by
  refine ⟨fun _ => hq, fun _ _ h => hq ▸ h, fun _ h => .inl (hq ▸ h), fun hf => ?_, fun h => ?_, .inl hd,
    fun _ hj => .inl (ha ▸ hj), fun _ => ha, hc⟩
  · refine ht.resolve_right fun h => ?_
    rw [h.1] at hf; cases hf
  · rcases ht with ht | ht
    · exact .inl (ht ▸ h)
    · exact absurd h ht.2

theorem enter_moved {k : Nat} (h : enter calls s k = some s') : Moved s (.call k) s' := by
  unfold enter at h
  split at h
  · split at h <;> cases h <;> exact .same rfl rfl (.inl rfl) rfl fun _ h => h
  · cases h

theorem malloc_moved {k : Nat} {p : Option Nat} (h : malloc s k p = some s') : Moved s (.malloc k p) s' := by
  unfold malloc at h
  split at h <;> split at h <;> cases h
  · exact .same rfl rfl (.inl rfl) rfl fun _ h => h
  · exact .same rfl rfl (.inl rfl) rfl fun _ h => List.mem_append_left _ h

theorem sendStep_moved {k : Nat} {accepted : Bool} (h : sendStep calls s k accepted = some s') :
    Moved s (.send k accepted) s' := by
  unfold sendStep at h
  split at h
  · cases h
    exact .same rfl rfl (.inl rfl) rfl fun _ h => h
  · rename_i p hp
    split at h <;> cases h
    · rename_i hacc
      refine ⟨fun hq => ?_, fun m _ h => List.mem_append_left _ h, fun m h => ?_, fun _ => rfl, .inl, .inl rfl,
        fun j hj => ?_, fun h => ?_, fun _ h => h⟩
      · simp [quiet, hacc] at hq
      · rcases List.mem_append.mp h with h | h
        · exact .inl h
        · cases List.mem_singleton.mp h
      · rcases mem_snoc.mp hj with hj | rfl
        · exact .inl hj
        · exact .inr ⟨p, hp⟩
      · cases h
    · exact .same rfl rfl (.inl rfl) rfl fun _ h => h
  · cases h
    unfold free
    split <;> exact .same rfl rfl (.inl rfl) rfl fun _ h => h
  · cases h

theorem msgrcv_moved (h : msgrcv s = some s') : Moved s .receive s' := by
  rcases msgrcv_cases h with ⟨m, q, hq, rfl⟩ | ⟨m, q, hq, ⟨hm, rfl⟩ | ⟨hm, rfl⟩⟩
  · refine ⟨fun h => (by cases h), fun n _ h => ?_, fun n h => .inl ?_, fun h => (by cases h), fun h => (by cases h),
      .inl rfl, fun _ h => .inl h, fun _ => rfl, fun _ h => h⟩
    · rw [hq] at h
      exact (List.mem_cons.mp h).resolve_left (by simp)
    · rw [hq]
      exact List.mem_cons_of_mem _ h
  · exact ⟨fun h => (by cases h), fun _ _ h => h, fun _ h => .inl h, fun h => (by cases h),
      fun _ => .inr ⟨m, by rw [hq]; exact List.mem_cons_self, hm⟩, .inl rfl, fun _ h => .inl h, fun _ => rfl,
      fun _ h => h⟩
  · refine ⟨fun h => (by cases h), fun n hn h => ?_, fun n h => .inl ?_, fun h => (by cases h), fun h => .inl h, .inl rfl,
      fun _ h => .inl h, fun _ => rfl, fun _ h => h⟩
    · rw [hq] at h
      refine (List.mem_cons.mp h).resolve_left fun e => ?_
      cases e
      omega
    · rw [hq]
      exact List.mem_cons_of_mem _ h

theorem msgrcvNoError_moved (ht : s.thread = .msgrcvNoError) (h : msgrcvNoError s = some s') : Moved s .receive s' := by
  obtain ⟨e, l, r, hq, -, he⟩ := msgrcvNoError_cases h
  -- the queue without `e`: a message that is too large is not `e`
  have hstay : ∀ x ∈ s.queue, x ≠ e → x ∈ l ++ r := fun x hx hne => by
    rw [hq] at hx
    simpa [hne] using hx
  have hin : ∀ x ∈ l ++ r, x ∈ s.queue := fun x hx => by
    rw [hq]
    rcases List.mem_append.mp hx with hx | hx
    · exact List.mem_append_left _ hx
    · exact List.mem_append_right _ (List.mem_cons_of_mem _ hx)
  rcases he with ⟨m, rfl, rfl⟩ | ⟨m, rfl, ⟨hm, rfl⟩ | ⟨hm, rfl⟩⟩
  · exact ⟨fun h => (by cases h), fun n _ h => hstay _ h (by simp), fun n h => .inl (hin _ h), fun h => (by cases h),
      fun h => (by cases h), .inr ⟨ht, rfl⟩, fun _ h => .inl h, fun _ => rfl, fun _ h => h⟩
  · exact ⟨fun h => (by cases h), fun _ _ h => h, fun _ h => .inl h, fun h => (by cases h), fun h => (by cases h),
      .inl rfl, fun _ h => .inl h, fun _ => rfl, fun _ h => h⟩
  · refine ⟨fun h => (by cases h), fun n hn h => hstay _ h fun e => ?_, fun n h => .inl (hin _ h), fun h => (by cases h),
      fun h => (by cases h), .inl rfl, fun _ h => .inl h, fun _ => rfl, fun _ h => h⟩
    cases e
    omega

theorem threadStep_moved (h : threadStep onMsg s = some s') : Moved s .thread s' := by
  have hback : ∀ {b : St}, b.queue = s.queue → b.dropped = s.dropped → b.accepted = s.accepted → b.copied = s.copied →
      b.thread ≠ .msgrcvNoError → Moved s .thread b := fun hq hd ha hc ht =>
    .same hq hd (.inr ⟨rfl, ht⟩) ha fun _ h => hc ▸ h
  unfold threadStep at h
  split at h
  · split at h
    · cases h; exact hback rfl rfl rfl rfl (by simp)
    · split at h <;> cases h <;> exact hback rfl rfl rfl rfl (by simp)
  · cases h; exact hback rfl rfl rfl rfl (by simp)
  · cases h
    unfold free
    split <;> exact hback rfl rfl rfl rfl (by simp)
  · cases h

theorem moved {e : Ev} (h : step calls onMsg s e = some s') : Moved s e s' := by
  cases e with
  | call k => exact enter_moved h
  | malloc k p => exact malloc_moved h
  | send k accepted => exact sendStep_moved h
  | foreign m =>
    cases h
    refine ⟨fun h => (by cases h), fun n _ h => List.mem_append_left _ h, fun n h => ?_, fun _ => rfl, .inl, .inl rfl,
      fun _ h => .inl h, fun _ => rfl, fun _ h => h⟩
    refine (List.mem_append.mp h).imp_right fun h => ?_
    cases List.mem_singleton.mp h
    rfl
  | receive =>
    simp only [step, receive] at h
    split at h
    · exact msgrcv_moved h
    · rename_i ht; exact msgrcvNoError_moved ht h
    · cases h
  | interrupt =>
    simp only [step, interrupt] at h
    split at h <;> cases h <;> exact .same rfl rfl (.inr ⟨rfl, by simp⟩) rfl fun _ h => h
  | thread => exact threadStep_moved h

end UvWrapper.Utils.MsgQueue
