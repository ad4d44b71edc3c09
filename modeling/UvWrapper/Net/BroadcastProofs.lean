/-
  UvWrapper.Net.BroadcastProofs — a broadcast's walk over sessions (see `UvWrapper.Net.Broadcast`).

  `Walk`: with the cursor on a node, what is before it in sessions has been sent the data, what is
  behind it has not. Proved, from any state in which nobody is in a send: as long as nobody frees the
  connection under the cursor, send_data finds memory and an open connection, and no earlier write
  ends on a connection whose flag is set, no freed node or connection is read, the call is never
  stuck, and at its return every connection that was in sessions all along was sent the data once;
  once the connection under the cursor is freed, the call reads it or does not go on (`broadcast`).
-/

import UvWrapper.Net.Broadcast

namespace UvWrapper.Net.Broadcast

open UvWrapper.Lib UvWrapper.Lib.Trace
open UvWrapper.Net.ServerSendAll (queueNext)

variable {s0 s s' : St}

/-! ## The next node -/

theorem queueNext_eq {pre post : List Nat} {n : Nat} (hn : n ∉ pre) : queueNext (pre ++ n :: post) n = post.head? := by
  unfold queueNext
  rw [List.idxOf_append_of_notMem hn, List.idxOf_cons_self, Nat.add_zero]
  cases post with
  | nil => simp
  | cons m post => simp

/-- Another connection leaves the list: the node keeps its place in it. -/
theorem erase_around (pre post : List Nat) {n m : Nat} (hm : m ≠ n) :
    ∃ pre' post', (pre ++ n :: post).erase m = pre' ++ n :: post' ∧ pre' ⊆ pre ∧ post' ⊆ post := by
  by_cases hp : m ∈ pre
  · exact ⟨pre.erase m, post, List.erase_append_left _ hp, List.erase_subset, List.Subset.refl _⟩
  · refine ⟨pre, post.erase m, ?_, List.Subset.refl _, List.erase_subset⟩
    rw [List.erase_append_right _ hp, List.erase_cons_tail (by simpa using Ne.symm hm)]

/-! ## The invariant -/

def calling : Lib.Pc Stage → Bool
  | .idle | .ret => false
  | _ => true

def submitted (s : St) : Bool :=
  match s.pc with
  | .advance _ => true
  | .sending _ =>
    match s.h.pc () with
    | .woken => true
    | .wait => !s.h.pending
    | _ => false
  | _ => false

def flagStored : Lib.Pc Stage → Bool
  | .crit .data2 | .crit .asyncData | .crit .notify | .wait => true
  | _ => false

def dataStored : Lib.Pc Stage → Bool
  | .crit .notify | .wait => true
  | _ => false

structure Sending (s : St) : Prop where
  hand : Handoff.Inv s.h s.inflight.length 0
  calls : calling (s.h.pc ()) = true ↔ ∃ n, s.pc = .sending n
  flag : ∀ n, s.pc = .sending n → flagStored (s.h.pc ()) = true → s.asyncSendFlag n = true
  data : ∀ n, s.pc = .sending n → dataStored (s.h.pc ()) = true → s.asyncData = some n
  inflight : ∀ n ∈ s.inflight, s.pc = .sending n

structure Walk (s0 s : St) : Prop where
  nodup : s.sessions.Nodup
  sessions : ∀ n, n ∈ s.sessions ↔ s.conn n = .opened ∨ s.conn n = .closing
  once : s.sent.Nodup
  known : ∀ n ∈ s.sent, s.conn n ≠ .absent
  old : ∀ n ∈ s0.sessions, s.conn n ≠ .absent
  start : s.pc = .start → s.sent = []
  cursor : ∀ n, s.pc.cursor = some n → ∃ pre post, s.sessions = pre ++ n :: post ∧ (∀ m ∈ pre, m ∈ s.sent) ∧
    (∀ m ∈ post, m ∉ s.sent) ∧ (n ∈ s.sent ↔ submitted s = true)
  done : s.pc = .done → ∀ n ∈ s0.sessions, n ∈ s.sessions → n ∈ s.sent

structure Inv (s0 s : St) : Prop where
  sending : Sending s
  walk : Walk s0 s
  uaf : s.uaf = false

theorem start_inv (h : Start s) : Inv s s := by
  obtain ⟨h1, h2, h3, h4, h5, h6, h7⟩ := h
  refine ⟨⟨?_, ?_, ?_, ?_, ?_⟩, ⟨h6, h7, ?_, ?_, ?_, fun _ => h4, ?_, ?_⟩, h5⟩
  · rw [h2, h3]; exact Handoff.init_inv
  · rw [h1, h2]; simp [Handoff.init, calling]
  · rw [h1]; exact fun n h => by cases h
  · rw [h1]; exact fun n h => by cases h
  · rw [h3]; exact fun n h => by cases h
  · rw [h4]; exact List.nodup_nil
  · rw [h4]; exact fun n h => by cases h
  · intro n hn
    rcases (h7 n).mp hn with h | h <;> rw [h] <;> simp
  · rw [h1]; exact fun n h => by cases h
  · rw [h1]; exact fun h => by cases h

/-! ## The cursor's connection -/

theorem Walk.mem (hw : Walk s0 s) {n : Nat} (hc : s.pc.cursor = some n) : n ∈ s.sessions := by
  obtain ⟨pre, post, hs, -⟩ := hw.cursor n hc
  rw [hs]
  exact List.mem_append_right _ List.mem_cons_self

theorem Walk.reads (hw : Walk s0 s) {n : Nat} (hc : s.pc.cursor = some n) (t : St) : reads s n t = t := by
  have : s.conn n ≠ .freed := by
    rcases (hw.sessions n).mp (hw.mem hc) with h | h <;> rw [h] <;> simp
  exact if_neg this

/-- A step that moves neither the list nor the cursor. -/
theorem Walk.same (hw : Walk s0 s) (hs : s'.sessions = s.sessions) (hc : s'.conn = s.conn) (hsent : s'.sent = s.sent)
    (hpc : s'.pc.cursor = s.pc.cursor) (hstart : s'.pc = .start → s.pc = .start) (hdone : s'.pc = .done → s.pc = .done)
    (hsub : submitted s' = submitted s) : Walk s0 s' := by
  constructor
  · rw [hs]; exact hw.nodup
  · rw [hs, hc]; exact hw.sessions
  · rw [hsent]; exact hw.once
  · rw [hsent, hc]; exact hw.known
  · rw [hc]; exact hw.old
  · rw [hsent]; exact fun h => hw.start (hstart h)
  · rw [hpc, hs, hsent, hsub]; exact hw.cursor
  · rw [hs, hsent]; exact fun h => hw.done (hdone h)

/-- The cursor goes on to a node that nothing was sent to, with all before it sent. -/
theorem Walk.goes (hw : Walk s0 s) (pre : List Nat) {post : List Nat} (hs : s.sessions = pre ++ post)
    (hpre : ∀ m ∈ pre, m ∈ s.sent) (hpost : ∀ m ∈ post, m ∉ s.sent) : Walk s0 { s with pc := node post.head? } := by
  refine ⟨hw.nodup, hw.sessions, hw.once, hw.known, hw.old, fun h => ?_, fun n hn => ?_, fun h n _ hn => ?_⟩
  · cases hp : post.head? <;> rw [hp] at h <;> cases h
  · cases post with
    | nil => cases hn
    | cons m post =>
      cases hn
      refine ⟨pre, post, hs, hpre, fun m hm => hpost m (List.mem_cons_of_mem _ hm), fun h => ?_, fun h => (by cases h)⟩
      exact absurd h (hpost n List.mem_cons_self)
  · cases post with
    | nil =>
      have hn : n ∈ s.sessions := hn
      rw [hs, List.append_nil] at hn
      exact hpre n hn
    | cons m post => cases h

/-! ## The call's steps -/

theorem Sending.idle (hi : Sending s) (hn : ∀ n, s.pc ≠ .sending n) :
    calling (s.h.pc ()) = false ∧ s.inflight = [] := by
  constructor
  · cases hc : calling (s.h.pc ()) with
    | false => rfl
    | true =>
      obtain ⟨n, h⟩ := hi.calls.mp hc
      exact absurd h (hn n)
  · cases h : s.inflight with
    | nil => rfl
    | cons n l => exact absurd (hi.inflight n (by rw [h]; exact List.mem_cons_self)) (hn n)

/-- Between two sends the broadcaster moves. -/
theorem Sending.between (hi : Sending s) (hn : ∀ n, s.pc ≠ .sending n) {p : Pc} (hp : ∀ n, p ≠ .sending n) :
    Sending { s with pc := p } := by
  obtain ⟨hc, hf⟩ := hi.idle hn
  refine ⟨hi.hand, ⟨fun h => ?_, fun ⟨n, h⟩ => absurd h (hp n)⟩, fun n h => absurd h (hp n), fun n h => absurd h (hp n),
    fun n h => ?_⟩
  · rw [show calling (s.h.pc ()) = true from h] at hc; cases hc
  · rw [show s.inflight = [] from hf] at h; cases h

theorem node_ne (q : Option Nat) (n : Nat) : node q ≠ .sending n := by cases q <;> simp [node]

theorem sendData_inv (hi : Inv s0 s) {n : Nat} (hp : s.pc = .sending n) (h : sendData s n = some s') : Inv s0 s' := by
  obtain ⟨hs, hw, hu⟩ := hi
  have hcur : s.pc.cursor = some n := by rw [hp]; rfl
  have hne : ∀ {m}, s.pc = .sending m → m = n := fun hm => by rw [hp] at hm; cases hm; rfl
  unfold sendData at h
  cases hpc : s.h.pc () with
  | idle => rw [hpc] at h; cases h
  | ret => rw [hpc] at h; cases h
  | want =>
    rw [hpc] at h
    simp only at h
    split at h <;> cases h
    rename_i hfree
    refine ⟨⟨Handoff.lock_inv hs.hand hfree, by simp [Handoff.lock, calling, hp], ?_, ?_, hs.inflight⟩,
      hw.same rfl rfl rfl rfl id id ?_, hu⟩
    · exact fun m _ hf => by simp [Handoff.lock, flagStored] at hf
    · exact fun m _ hf => by simp [Handoff.lock, dataStored] at hf
    · simp [submitted, hp, hpc, Handoff.lock]
  | crit a =>
    rw [hpc] at h
    cases a with
    | flag =>
      simp only [hw.reads hcur] at h
      cases h
      refine ⟨⟨Handoff.goto_inv hs.hand hpc, by simp [Handoff.goto, calling, hp], fun m hm _ => ?_, fun m _ hf => ?_,
        hs.inflight⟩, hw.same rfl rfl rfl rfl id id ?_, hu⟩
      · rw [hne hm]; simp
      · simp [Handoff.goto, dataStored] at hf
      · simp [submitted, hp, hpc, Handoff.goto]
    | data2 =>
      simp only [hw.reads hcur] at h
      cases h
      refine ⟨⟨Handoff.goto_inv hs.hand hpc, by simp [Handoff.goto, calling, hp], fun m hm _ => ?_, fun m _ hf => ?_,
        hs.inflight⟩, hw.same rfl rfl rfl rfl id id ?_, hu⟩
      · exact hs.flag m hm (by rw [hpc]; rfl)
      · simp [Handoff.goto, dataStored] at hf
      · simp [submitted, hp, hpc, Handoff.goto]
    | asyncData =>
      cases h
      refine ⟨⟨Handoff.goto_inv hs.hand hpc, by simp [Handoff.goto, calling, hp], fun m hm _ => ?_, fun m hm _ => ?_,
        hs.inflight⟩, hw.same rfl rfl rfl rfl id id ?_, hu⟩
      · exact hs.flag m hm (by rw [hpc]; rfl)
      · rw [hne hm]
      · simp [submitted, hp, hpc, Handoff.goto]
    | notify =>
      cases h
      refine ⟨⟨Handoff.notify_inv hs.hand hpc, by simp [Handoff.notify, calling, hp], fun m hm _ => ?_, fun m hm _ => ?_,
        hs.inflight⟩, hw.same rfl rfl rfl rfl id id ?_, hu⟩
      · exact hs.flag m hm (by rw [hpc]; rfl)
      · exact hs.data m hm (by rw [hpc]; rfl)
      · simp [submitted, hp, hpc, Handoff.notify]
  | wait =>
    rw [hpc] at h
    simp only at h
    split at h <;> cases h
    rename_i hsem
    refine ⟨⟨Handoff.wake_inv hs.hand hpc hsem, by simp [Handoff.wake, calling, hp], ?_, ?_, hs.inflight⟩,
      hw.same rfl rfl rfl rfl id id ?_, hu⟩
    · exact fun m _ hf => by simp [Handoff.wake, flagStored] at hf
    · exact fun m _ hf => by simp [Handoff.wake, dataStored] at hf
    · -- the post is there: nothing is pending
      have hcount := hs.hand.wait_cases hpc
      have hpend : s.h.pending = false := by
        cases hpd : s.h.pending with
        | false => rfl
        | true => rw [hpd, Bool.toNat_true] at hcount; omega
      simp [submitted, hp, hpc, hpend, Handoff.wake]
  | woken =>
    rw [hpc] at h
    cases h
    have hin : s.inflight = [] := by
      have := (hs.hand.crit_quiet (t := ()) (by rw [hpc]; rfl) (by rw [hpc]; simp)).2.1
      exact List.eq_nil_of_length_eq_zero this
    refine ⟨⟨Handoff.unlock_inv hs.hand hpc, by simp [Handoff.unlock, calling], fun m hm => (by cases hm),
      fun m hm => (by cases hm), fun m hm => ?_⟩,
      hw.same rfl rfl rfl hcur.symm (fun h => by cases h) (fun h => by cases h) ?_, hu⟩
    · rw [show s.inflight = [] from hin] at hm; cases hm
    · simp [submitted, hp, hpc]

theorem sendData2All_inv (hi : Inv s0 s) (h : sendData2All s = some s') : Inv s0 s' := by
  unfold sendData2All at h
  split at h
  · rename_i hp
    cases h
    have hsent := hi.walk.start hp
    exact ⟨hi.sending.between (by rw [hp]; simp) (node_ne _),
      hi.walk.goes [] rfl (fun m hm => by cases hm) (fun m _ => by rw [hsent]; simp), hi.uaf⟩
  · rename_i n hp
    have hcur : s.pc.cursor = some n := by rw [hp]; rfl
    rw [hi.walk.reads hcur] at h
    cases h
    have hs := hi.sending
    obtain ⟨hc, hf⟩ := hs.idle (by rw [hp]; simp)
    have hin : (s.h.pc ()).inside = false := by cases hpc : s.h.pc () <;> simp_all [calling]
    refine ⟨⟨Handoff.setPc_outside hs.hand hin rfl, by simp [Handoff.call, calling], fun m _ hfs => ?_, fun m _ hds => ?_,
      fun m hm => ?_⟩,
      hi.walk.same rfl rfl rfl hcur.symm (fun h => by cases h) (fun h => by cases h) ?_, hi.uaf⟩
    · simp [Handoff.call, flagStored] at hfs
    · simp [Handoff.call, dataStored] at hds
    · rw [show s.inflight = [] from hf] at hm; cases hm
    · simp [submitted, hp, Handoff.call]
  · rename_i n hp
    exact sendData_inv hi hp h
  · rename_i n hp
    have hcur : s.pc.cursor = some n := by rw [hp]; rfl
    obtain ⟨pre, post, hs, hpre, hpost, hsub⟩ := hi.walk.cursor n hcur
    have hnd := hi.walk.nodup
    rw [hs, List.nodup_append] at hnd
    have hn : n ∉ pre := fun h => hnd.2.2 n h n List.mem_cons_self rfl
    have hnext : queueNext s.sessions n = post.head? := by rw [hs, queueNext_eq hn]
    rw [hi.walk.reads hcur, hnext] at h
    cases h
    refine ⟨hi.sending.between (by rw [hp]; simp) (node_ne _),
      hi.walk.goes (pre ++ [n]) (by rw [hs]; simp) (fun m hm => ?_) hpost, hi.uaf⟩
    rcases List.mem_append.mp hm with hm | hm
    · exact hpre m hm
    · rw [List.mem_singleton.mp hm]
      exact hsub.mpr (by simp [submitted, hp])
  · cases h

/-! ## The loop's callbacks -/

/-- What is on its way is on its way to the send under the cursor. -/
theorem Sending.waits (hi : Sending s) (hp : 0 < s.h.pending.toNat + s.inflight.length) :
    s.h.pc () = .wait ∧ (∃ n, s.pc = .sending n) ∧ s.h.pending.toNat + s.inflight.length + s.h.sem = 1 := by
  obtain ⟨⟨_, hw⟩, hcount⟩ := hi.hand.wait_of_pos (by omega)
  exact ⟨hw, hi.calls.mp (by rw [hw]; rfl), hcount⟩

theorem asyncSend_inv (hi : Inv s0 s) {malloc : Bool} (hg : undisturbed s (.asyncSend malloc) = true)
    (h : asyncSendCb s malloc = some s') : Inv s0 s' := by
  obtain ⟨hs, hw, hu⟩ := hi
  unfold asyncSendCb at h
  split at h
  · rename_i hpend
    obtain ⟨hwait, ⟨n, hp⟩, hcount⟩ := hs.waits (by rw [hpend, Bool.toNat_true]; omega)
    rw [hpend, Bool.toNat_true] at hcount
    have hin : s.inflight = [] := List.eq_nil_of_length_eq_zero (by omega)
    have hdata := hs.data n hp (by rw [hwait]; rfl)
    have hcur : s.pc.cursor = some n := by rw [hp]; rfl
    have hg' : malloc = true ∧ s.conn n = .opened := by simpa [undisturbed, hdata] using hg
    obtain ⟨hm, hopen⟩ := hg'
    obtain ⟨m, hm', rfl⟩ := Option.map_eq_some_iff.mp h
    rw [hdata] at hm'
    cases hm'
    rw [hw.reads hcur, if_pos hm, if_pos hopen]
    obtain ⟨pre, post, hsess, hpre, hpost, hsub⟩ := hw.cursor n hcur
    have hnew : n ∉ s.sent := fun h => by
      have := hsub.mp h
      simp [submitted, hp, hwait, hpend] at this
    have hnd := hw.nodup
    rw [hsess, List.nodup_append] at hnd
    refine ⟨⟨?_, hs.calls, hs.flag, hs.data, fun m hm => ?_⟩,
      ⟨hw.nodup, hw.sessions, ?_, fun m hm => ?_, hw.old, fun h => ?_, fun m hm => ?_, fun h => ?_⟩, hu⟩
    · rw [hin]
      exact Handoff.take_inv (by simpa [hin] using hs.hand) hpend
    · rw [show s.inflight = [] from hin] at hm
      rw [List.mem_singleton.mp hm]; exact hp
    · exact nodup_snoc hw.once hnew
    · rcases List.mem_append.mp hm with hm | hm
      · exact hw.known m hm
      · rw [List.mem_singleton.mp hm, hopen]; simp
    · rw [show s.pc = .start from h] at hp; cases hp
    · have e : m = n := by
        rw [show s.pc.cursor = some m from hm] at hcur
        exact Option.some.inj hcur
      subst e
      refine ⟨pre, post, hsess, fun x hx => List.mem_append_left _ (hpre x hx), fun x hx h => ?_, fun _ => ?_,
        fun _ => by simp⟩
      · rcases List.mem_append.mp h with h | h
        · exact hpost x hx h
        · rw [List.mem_singleton.mp h] at hx
          exact (List.nodup_cons.mp hnd.2.1).1 hx
      · simp [submitted, hp, hwait, Handoff.take]
    · rw [show s.pc = .done from h] at hp; cases hp
  · cases h

theorem written_inv (hi : Inv s0 s) {n : Nat} (hn : n ∈ s.inflight) :
    Inv s0 (checkFlag { s with inflight := s.inflight.erase n } n) := by
  obtain ⟨hs, hw, hu⟩ := hi
  have hpos : 0 < s.inflight.length := List.length_pos_of_mem hn
  obtain ⟨hwait, -, -⟩ := hs.waits (by omega)
  have hp := hs.inflight n hn
  have hf : s.asyncSendFlag n = true := hs.flag n hp (by rw [hwait]; rfl)
  have he : checkFlag { s with inflight := s.inflight.erase n } n = { s with inflight := s.inflight.erase n, h := s.h.post } :=
    if_pos hf
  rw [he]
  refine ⟨⟨Handoff.post_inv ?_, hs.calls, hs.flag, hs.data, fun m hm => hs.inflight m (List.mem_of_mem_erase hm)⟩,
    hw.same rfl rfl rfl rfl id id rfl, hu⟩
  rw [List.length_erase_of_mem hn, Nat.sub_add_cancel hpos]
  exact hs.hand

/-- The loop changes the list and its connections, not the send. -/
theorem Sending.list (hi : Sending s) (l : List Nat) (c : Nat → ConnSt) : Sending { s with conn := c, sessions := l } :=
  ⟨hi.hand, hi.calls, hi.flag, hi.data, hi.inflight⟩

theorem accept_walk (hw : Walk s0 s) {n : Nat} (hn : s.conn n = .absent) :
    Walk s0 { s with conn := Function.update s.conn n .opened, sessions := s.sessions ++ [n] } := by
  have hnew : n ∉ s.sessions := fun h => by
    rcases (hw.sessions n).mp h with h | h <;> rw [hn] at h <;> cases h
  have hsent : n ∉ s.sent := fun h => hw.known n h hn
  have hconn : ∀ m, s.conn m ≠ .absent → Function.update s.conn n .opened m ≠ .absent := fun m hm => by
    by_cases e : m = n
    · subst e; exact absurd hn hm
    · rw [Function.update_of_ne e]; exact hm
  refine ⟨nodup_snoc hw.nodup hnew, fun m => ?_, hw.once, fun m hm => hconn m (hw.known m hm),
    fun m hm => hconn m (hw.old m hm), hw.start, fun m hm => ?_, fun h m h0 hm => ?_⟩
  · by_cases e : m = n
    · subst e; simp
    · simp [e, hw.sessions m]
  · obtain ⟨pre, post, hs, hpre, hpost, hsub⟩ := hw.cursor m hm
    refine ⟨pre, post ++ [n], by simp only [hs]; simp, hpre, fun x hx => ?_, hsub⟩
    rcases List.mem_append.mp hx with hx | hx
    · exact hpost x hx
    · rw [List.mem_singleton.mp hx]; exact hsent
  · rcases List.mem_append.mp hm with hm | hm
    · exact hw.done h m h0 hm
    · rw [List.mem_singleton.mp hm] at h0
      exact absurd hn (hw.old n h0)

theorem close_walk (hw : Walk s0 s) {n : Nat} (hn : s.conn n = .opened) :
    Walk s0 { s with conn := Function.update s.conn n .closing } := by
  have hconn : ∀ m, s.conn m ≠ .absent → Function.update s.conn n .closing m ≠ .absent := fun m hm => by
    by_cases e : m = n
    · subst e; simp
    · rw [Function.update_of_ne e]; exact hm
  refine ⟨hw.nodup, fun m => ?_, hw.once, fun m hm => hconn m (hw.known m hm), fun m hm => hconn m (hw.old m hm), hw.start,
    hw.cursor, hw.done⟩
  by_cases e : m = n
  · subst e
    simp [(hw.sessions m).mpr (.inl hn)]
  · simp [e, hw.sessions m]

theorem onClose_walk (hw : Walk s0 s) {n : Nat} (hc : s.pc.cursor ≠ some n) :
    Walk s0 { s with conn := Function.update s.conn n .freed, sessions := s.sessions.erase n } := by
  have hconn : ∀ m, s.conn m ≠ .absent → Function.update s.conn n .freed m ≠ .absent := fun m hm => by
    by_cases e : m = n
    · subst e; simp
    · rw [Function.update_of_ne e]; exact hm
  refine ⟨hw.nodup.erase n, fun m => ?_, hw.once, fun m hm => hconn m (hw.known m hm), fun m hm => hconn m (hw.old m hm),
    hw.start, fun m hm => ?_, fun h m h0 hm => hw.done h m h0 (List.mem_of_mem_erase hm)⟩
  · rw [hw.nodup.mem_erase_iff]
    by_cases e : m = n
    · subst e; simp
    · simp [e, hw.sessions m]
  · obtain ⟨pre, post, hs, hpre, hpost, hsub⟩ := hw.cursor m hm
    have hne : n ≠ m := fun e => hc (e ▸ hm)
    obtain ⟨pre', post', he, h1, h2⟩ := erase_around pre post hne
    exact ⟨pre', post', by simp only [hs, he], fun x hx => hpre x (h1 hx), fun x hx => hpost x (h2 hx), hsub⟩

theorem step_inv (hi : Inv s0 s) {e : Ev} (hg : undisturbed s e = true) (h : step s e = some s') : Inv s0 s' := by
  unfold step at h
  rw [if_neg (by simp [hi.uaf])] at h
  cases e with
  | caller => exact sendData2All_inv hi h
  | asyncSend malloc => exact asyncSend_inv hi hg h
  | written n =>
    simp only at h
    split at h <;> cases h
    rename_i hn
    exact written_inv hi hn
  | earlierWritten n =>
    have hf : s.asyncSendFlag n = false := by simpa [undisturbed] using hg
    simp only at h
    split at h <;> cases h
    rw [show checkFlag { s with earlier := Function.update s.earlier n (s.earlier n - 1) } n =
      { s with earlier := Function.update s.earlier n (s.earlier n - 1) } from if_neg (by simp [hf])]
    obtain ⟨⟨h1, h2, h3, h4, h5⟩, hw, hu⟩ := hi
    exact ⟨⟨h1, h2, h3, h4, h5⟩, hw.same rfl rfl rfl rfl id id rfl, hu⟩
  | accept n =>
    simp only at h
    split at h <;> cases h
    rename_i hn
    exact ⟨hi.sending.list _ _, accept_walk hi.walk hn, hi.uaf⟩
  | close n =>
    simp only at h
    split at h <;> cases h
    rename_i hn
    exact ⟨hi.sending.list _ _, close_walk hi.walk hn, hi.uaf⟩
  | onClose n =>
    simp only at h
    split at h <;> cases h
    have hc : s.pc.cursor ≠ some n := by simpa [undisturbed] using hg
    exact ⟨hi.sending.list _ _, onClose_walk hi.walk hc, hi.uaf⟩

/-! ## The call goes on -/

/-- The broadcaster's step, or a callback that it waits for. -/
def Ev.goesOn : Ev → Bool
  | .caller | .asyncSend _ | .written _ => true
  | _ => false

theorem sendData_goesOn (hi : Inv s0 s) {n : Nat} (hp : s.pc = .sending n) :
    ∃ e : Ev, e.goesOn = true ∧ (step s e).isSome = true := by
  have hu : (s.uaf = true) = False := by simp [hi.uaf]
  have hc : calling (s.h.pc ()) = true := hi.sending.calls.mpr ⟨n, hp⟩
  cases hpc : s.h.pc () with
  | idle => rw [hpc] at hc; cases hc
  | ret => rw [hpc] at hc; cases hc
  | want =>
    have hfree : s.h.mutex = none := by
      cases hx : s.h.mutex with
      | none => rfl
      | some u =>
        have := (hi.sending.hand.holder ()).mpr hx
        rw [hpc] at this; cases this
    exact ⟨.caller, rfl, by simp [step, hu, sendData2All, hp, sendData, hpc, hfree]⟩
  | crit a => exact ⟨.caller, rfl, by cases a <;> simp [step, hu, sendData2All, hp, sendData, hpc]⟩
  | woken => exact ⟨.caller, rfl, by simp [step, hu, sendData2All, hp, sendData, hpc]⟩
  | wait =>
    by_cases hsem : 0 < s.h.sem
    · exact ⟨.caller, rfl, by simp [step, hu, sendData2All, hp, sendData, hpc, hsem]⟩
    · cases hpend : s.h.pending with
      | true =>
        have hdata := hi.sending.data n hp (by rw [hpc]; rfl)
        exact ⟨.asyncSend true, rfl, by simp [step, hu, asyncSendCb, hpend, hdata]⟩
      | false =>
        -- the write is outstanding
        have hcount := hi.sending.hand.wait_cases hpc
        rw [hpend, Bool.toNat_false] at hcount
        cases hin : s.inflight with
        | nil => rw [hin] at hcount; simp only [List.length_nil] at hcount; omega
        | cons m l => exact ⟨.written m, rfl, by simp [step, hu, hin]⟩

theorem goes_on (hi : Inv s0 s) (hd : s.pc ≠ .done) : ∃ e : Ev, e.goesOn = true ∧ (step s e).isSome = true := by
  have hu : (s.uaf = true) = False := by simp [hi.uaf]
  cases hp : s.pc with
  | done => exact absurd hp hd
  | sending n => exact sendData_goesOn hi hp
  | start | node n | advance n => exact ⟨.caller, rfl, by simp [step, hu, sendData2All, hp]⟩

/-! ## The connection under the cursor is freed -/

/-- The cursor is on a freed node. -/
structure Doomed (n : Nat) (s : St) : Prop where
  cursor : s.pc.cursor = some n
  freed : s.conn n = .freed

theorem reads_freed {n : Nat} (h : s.conn n = .freed) (t : St) : (reads s n t).uaf = true := by
  unfold reads
  rw [if_pos h]

theorem sendData_doomed {n : Nat} (hi : Doomed n s) (h : sendData s n = some s') :
    s'.uaf = true ∨ Doomed n s' := by
  unfold sendData at h
  split at h
  · split at h <;> cases h
    exact .inr ⟨hi.cursor, hi.freed⟩
  · cases h
    exact .inl (reads_freed hi.freed _)
  · cases h
    exact .inl (reads_freed hi.freed _)
  · cases h
    exact .inr ⟨hi.cursor, hi.freed⟩
  · cases h
    exact .inr ⟨hi.cursor, hi.freed⟩
  · split at h <;> cases h
    exact .inr ⟨hi.cursor, hi.freed⟩
  · cases h
    exact .inr ⟨rfl, hi.freed⟩
  · cases h

theorem sendData2All_doomed {n : Nat} (hi : Doomed n s) (h : sendData2All s = some s') : s'.uaf = true ∨ Doomed n s' := by
  have hc := hi.cursor
  unfold sendData2All at h
  split at h
  · rename_i hp
    rw [hp] at hc; cases hc
  · rename_i m hp
    rw [hp] at hc
    cases hc
    cases h
    exact .inl (reads_freed hi.freed _)
  · rename_i m hp
    rw [hp] at hc
    cases hc
    exact sendData_doomed hi h
  · rename_i m hp
    rw [hp] at hc
    cases hc
    cases h
    exact .inl (reads_freed hi.freed _)
  · cases h

theorem checkFlag_doomed {n m : Nat} (hi : Doomed n s) : Doomed n (checkFlag s m) := by
  unfold checkFlag
  split
  · exact ⟨hi.cursor, hi.freed⟩
  · exact hi

theorem asyncSend_doomed {n : Nat} (hi : Doomed n s) {malloc : Bool} (h : asyncSendCb s malloc = some s') :
    s'.uaf = true ∨ Doomed n s' := by
  unfold asyncSendCb at h
  split at h
  · obtain ⟨m, -, rfl⟩ := Option.map_eq_some_iff.mp h
    unfold reads
    split
    · exact .inl rfl
    · right
      split
      · split
        · exact ⟨hi.cursor, hi.freed⟩
        · exact ⟨hi.cursor, hi.freed⟩
      · exact checkFlag_doomed ⟨hi.cursor, hi.freed⟩
  · cases h

theorem step_doomed {n : Nat} (hi : Doomed n s) {e : Ev} (h : step s e = some s') : s'.uaf = true ∨ Doomed n s' := by
  have hf := hi.freed
  unfold step at h
  split at h
  · cases h
  · cases e with
    | caller => exact sendData2All_doomed hi h
    | asyncSend malloc => exact asyncSend_doomed hi h
    | written m =>
      simp only at h
      split at h <;> cases h
      exact .inr (checkFlag_doomed ⟨hi.cursor, hi.freed⟩)
    | earlierWritten m =>
      simp only at h
      split at h <;> cases h
      exact .inr (checkFlag_doomed ⟨hi.cursor, hi.freed⟩)
    | accept m =>
      simp only at h
      split at h <;> cases h
      rename_i hm
      have hne : n ≠ m := fun e => by rw [e, hm] at hf; cases hf
      exact .inr ⟨hi.cursor, (Function.update_of_ne hne ..).trans hf⟩
    | close m =>
      simp only at h
      split at h <;> cases h
      rename_i hm
      have hne : n ≠ m := fun e => by rw [e, hm] at hf; cases hf
      exact .inr ⟨hi.cursor, (Function.update_of_ne hne ..).trans hf⟩
    | onClose m =>
      simp only at h
      split at h <;> cases h
      rename_i hm
      have hne : n ≠ m := fun e => by rw [e, hm.1] at hf; cases hf
      exact .inr ⟨hi.cursor, (Function.update_of_ne hne ..).trans hf⟩

theorem doomed_run {n : Nat} {es : List Ev} :
    ∀ {s t : St}, Doomed n s → run step s es = some t → t.uaf = true ∨ Doomed n t := by
  induction es with
  | nil => intro s t hi h; cases h; exact .inr hi
  | cons e es ih =>
    intro s t hi h
    simp only [run] at h
    cases he : step s e with
    | none => rw [he] at h; cases h
    | some u =>
      rw [he] at h
      rcases step_doomed hi he with hu | hi'
      · -- nothing follows
        cases es with
        | nil => cases h; exact .inl hu
        | cons f es => simp [run, step, hu] at h
      · exact ih hi' h

/-! ## A broadcast -/

structure Broadcasts (s0 : St) : Prop where
  uaf : ∀ s, Reach step (fun s e => undisturbed s e = true) s0 s → s.uaf = false
  /-- A connection that is in sessions at the start and at the end was there all along. -/
  once : ∀ s, Reach step (fun s e => undisturbed s e = true) s0 s → s.pc = .done →
    ∀ n ∈ s0.sessions, n ∈ s.sessions → s.sent.count n = 1
  nodup : ∀ s, Reach step (fun s e => undisturbed s e = true) s0 s → s.sent.Nodup
  goesOn : ∀ s, Reach step (fun s e => undisturbed s e = true) s0 s → s.pc ≠ .done →
    ∃ e : Ev, e.goesOn = true ∧ (step s e).isSome = true
  /-- Once the connection under the cursor is freed, the call reads it or does not go on. -/
  freed : ∀ s n s', Reach step (fun s e => undisturbed s e = true) s0 s → undisturbed s (.onClose n) = false →
    step s (.onClose n) = some s' → ∀ es t, run step s' es = some t → t.uaf = true ∨ t.pc.cursor = some n

theorem broadcast (h : Start s0) : Broadcasts s0 := by
  have hi : ∀ s, Reach step (fun s e => undisturbed s e = true) s0 s → Inv s0 s := fun s hr =>
    hr.invariant (start_inv h) fun _ _ _ hi hg h => step_inv hi hg h
  refine ⟨fun s hr => (hi s hr).uaf, fun s hr hd n h0 hn => ?_, fun s hr => (hi s hr).walk.once,
    fun s hr hd => goes_on (hi s hr) hd, fun s n s' hr hg h es t hrun => ?_⟩
  · exact List.count_eq_one_of_mem (hi s hr).walk.once ((hi s hr).walk.done hd n h0 hn)
  · have hc : s.pc.cursor = some n := by simpa [undisturbed] using hg
    have hd : Doomed n s' := by
      unfold step at h
      rw [if_neg (by simp [(hi s hr).uaf])] at h
      simp only at h
      split at h <;> cases h
      exact ⟨hc, by simp⟩
    exact (doomed_run hd hrun).imp_right Doomed.cursor

def serving (l : List Nat) : St :=
  ⟨l, fun n => if n ∈ l then .opened else .absent, fun _ => false, none, Handoff.init, .start, [], fun _ => 0, [], false⟩

theorem serving_start {l : List Nat} (h : l.Nodup) : Start (serving l) := by
  refine ⟨rfl, rfl, rfl, rfl, rfl, h, fun n => ?_⟩
  by_cases hn : n ∈ l <;> simp [serving, hn]

def sendOne (n : Nat) : List Ev :=
  [.caller, .caller, .caller, .caller, .caller, .caller, .asyncSend true, .written n]

/-- While the first send waits, connection 3 is closed and freed and 4 is accepted. -/
theorem served_around :
    ∃ s, Reach step (fun s e => undisturbed s e = true) (serving [1, 2, 3]) s ∧
      (s.pc = .done ∧ s.sessions = [1, 2, 4] ∧ s.sent = [1, 2, 4]) ∧
      ∀ n ∈ [1, 2, 3], n ∈ s.sessions → s.sent.count n = 1 := by
  obtain ⟨s, hr, h⟩ := reach_of_runIf step undisturbed (serving [1, 2, 3])
    (fun s => s.pc = .done ∧ s.sessions = [1, 2, 4] ∧ s.sent = [1, 2, 4])
    ([.caller] ++ sendOne 1 ++ [.close 3, .onClose 3, .accept 4, .caller, .caller, .caller] ++ sendOne 2 ++
      [.caller, .caller, .caller] ++ sendOne 4 ++ [.caller, .caller, .caller]) ⟨_, rfl, by decide⟩
  exact ⟨s, hr, h, (broadcast (serving_start (by decide))).once s hr h.1⟩

/-- The peer of the connection that is being sent to disconnects. -/
theorem reads_freed_node : ∃ s0 s, Start s0 ∧ Reach step Free s0 s ∧ s.uaf = true := by
  obtain ⟨s, hr, h⟩ := reach_of_run step (serving [1, 2]) (fun s => s.uaf = true)
    ([.caller, .caller, .caller, .caller, .caller, .caller, .caller, .asyncSend true, .close 1, .written 1, .onClose 1] ++
      [.caller, .caller, .caller]) ⟨_, rfl, by decide⟩
  exact ⟨_, s, serving_start (by decide), hr, h⟩

end UvWrapper.Net.Broadcast
