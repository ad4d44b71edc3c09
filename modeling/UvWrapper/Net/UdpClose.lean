/-
  UvWrapper.Net.UdpClose — the release of a UDP socket: what udp_handle_run allocated and
  every send request is freed once, and no callback reads the socket after that.

  close_handle frees the socket while its queued sends, and a callback it is called from,
  still point to it. Proved: as long as close_handle finds no send queued and no on_send_cb or failed
  send_data to return to, and uv_udp_send takes what it is given (`orderly`), the release is
  right in every state (`udp_released`). One queued send breaks it (`closed_with_a_send_queued`).
-/

import UvWrapper.Net.UdpLife
import Mathlib.Data.List.Perm.Basic
import Mathlib.Data.List.Range

namespace UvWrapper.Net.UdpLife

open UvWrapper.Lib UvWrapper.Lib.Trace

/-! ## What the release promises -/

/-- The close is through, and the loop has nothing left to call back. -/
structure Drained (s : St) : Prop where
  closer : s.closer = .done
  pending : s.closePending = false
  stack : s.stack = []
  udp : s.udp.st ≠ .closing
  asyncSend : s.asyncSend.st ≠ .closing
  asyncClose : s.asyncClose.st ≠ .closing

def freed (s : St) : List Nat := [s.frees, s.udp.frees, s.asyncSend.frees, s.asyncClose.frees]

structure Released (s : St) : Prop where
  once : ∀ n ∈ freed s, n ≤ 1
  reqsOnce : s.reqFrees.Nodup
  uaf : s.uaf = false
  all : Drained s → ∀ n ∈ freed s, n = 1
  reqsAll : Drained s → ∀ r < s.reqs, r ∈ s.reqFrees

def Frame.isUser (f : Frame) : Bool := f == .user

/-- close_handle finds no send queued and only user code to return to; a send is taken. -/
def orderly (s : St) : Ev → Bool
  | .asyncClose | .close => s.queued.isEmpty && s.stack.all Frame.isUser
  | .send malloc accepted => !malloc || accepted
  | _ => true

/-! ## The invariant -/

/-- Before close_handle. -/
structure Up (s : St) : Prop where
  udp : s.udp = Handle.opened
  asyncSend : s.asyncSend = Handle.opened
  asyncClose : s.asyncClose = Handle.opened
  frees : s.frees = 0

structure Down (s : St) : Prop where
  udp : s.udp.OnItsWay
  asyncSend : s.asyncSend.OnItsWay
  asyncClose : s.asyncClose.OnItsWay
  frees : s.frees = 1
  queued : s.queued = []
  stack : ∀ f ∈ s.stack, f.isUser = true

def Phase (s : St) : Closer → Prop
  | .idle | .notify => Up s ∧ s.closePending = false
  | .done => (Up s ∧ s.closePending = true) ∨ (Down s ∧ s.closePending = false)

def Frame.req? : Frame → Option Nat
  | .sent r => some r
  | _ => none

structure Inv (s : St) : Prop where
  phase : Phase s s.closer
  /-- A request is queued, in its callback, or freed. -/
  reqs : (s.queued ++ (s.stack.filterMap Frame.req? ++ s.reqFrees)).Perm (List.range s.reqs)
  uaf : s.uaf = false

theorem init_inv : Inv init where
  phase := ⟨⟨rfl, rfl, rfl, rfl⟩, rfl⟩
  reqs := List.Perm.refl _
  uaf := rfl

variable {s s' : St}

theorem Inv.upOrDown (hi : Inv s) : Up s ∨ Down s := by
  have hp := hi.phase
  cases hc : s.closer <;> rw [hc] at hp
  · exact .inl hp.1
  · exact .inl hp.1
  · rcases hp with ⟨hu, -⟩ | ⟨hd, -⟩
    · exact .inl hu
    · exact .inr hd

theorem Phase.keep {c : Closer} (h : Phase s c) (hup : Up s → Up s') (hdown : Down s → Down s')
    (hpend : s'.closePending = s.closePending) : Phase s' c := by
  cases c with
  | idle => exact ⟨hup h.1, hpend ▸ h.2⟩
  | notify => exact ⟨hup h.1, hpend ▸ h.2⟩
  | done =>
    rcases h with ⟨hu, h1⟩ | ⟨hd, h1⟩
    · exact .inl ⟨hup hu, hpend ▸ h1⟩
    · exact .inr ⟨hdown hd, hpend ▸ h1⟩

theorem reads_eq (h : s.frees = 0) (t : St) : reads s t = t := by
  unfold reads
  rw [if_neg (by simp [h])]

theorem Inv.up_of_queued (hi : Inv s) {r : Nat} (h : r ∈ s.queued) : Up s :=
  hi.upOrDown.resolve_right fun hd => by rw [hd.queued] at h; cases h

theorem Inv.up_of_frame (hi : Inv s) {f : Frame} (hf : f ∈ s.stack) (hu : f.isUser = false) : Up s :=
  hi.upOrDown.resolve_right fun hd => by rw [hd.stack f hf] at hu; cases hu

/-! ## Steps -/

/-- The queue, the stack and the requests change before close_handle. -/
theorem up_inv (hi : Inv s) (hu : Up s) {n : Nat} {q f : List Nat} {st : List Frame}
    (hr : (q ++ (st.filterMap Frame.req? ++ f)).Perm (List.range n)) :
    Inv { s with reqs := n, queued := q, stack := st, reqFrees := f } :=
  { phase := hi.phase.keep (fun hu => { hu with })
      (fun hd => by have := hd.frees; rw [hu.frees] at this; cases this) rfl
    reqs := hr
    uaf := hi.uaf }

theorem onSend_inv (hi : Inv s) {i r : Nat} (hst : s.stack = []) (hr : s.queued[i]? = some r) : Inv (onSend s i r) := by
  obtain ⟨hlt, hget⟩ := List.getElem?_eq_some_iff.mp hr
  have hu := hi.up_of_queued (List.mem_of_getElem? hr)
  unfold onSend
  rw [reads_eq hu.frees]
  refine up_inv hi hu ?_
  have h1 : (r :: s.queued.eraseIdx i).Perm s.queued := hget ▸ List.getElem_cons_eraseIdx_perm hlt
  have h2 := hi.reqs
  rw [hst] at h2
  refine List.Perm.trans ?_ h2
  show (s.queued.eraseIdx i ++ r :: s.reqFrees).Perm (s.queued ++ s.reqFrees)
  exact List.perm_middle.trans (h1.append_right s.reqFrees)

theorem goOn_inv (hi : Inv s) (h : goOn s = some s') : Inv s' := by
  unfold goOn at h
  split at h
  · rename_i r st hst
    have hu := hi.up_of_frame (f := .sent r) (by rw [hst]; exact List.mem_cons_self) rfl
    rw [reads_eq hu.frees] at h
    cases h
    refine up_inv hi hu ?_
    have h2 := hi.reqs
    rw [hst] at h2
    refine List.Perm.trans (List.Perm.append_left s.queued ?_) h2
    show (st.filterMap Frame.req? ++ (s.reqFrees ++ [r])).Perm (r :: (st.filterMap Frame.req? ++ s.reqFrees))
    rw [← List.append_assoc]
    exact List.perm_append_singleton ..
  · rename_i st hst
    have hu := hi.up_of_frame (f := .sendFailed) (by rw [hst]; exact List.mem_cons_self) rfl
    rw [reads_eq hu.frees] at h
    cases h
    refine up_inv hi hu ?_
    have h2 := hi.reqs
    rw [hst] at h2
    exact h2
  · cases h

theorem closeHandle_inv (hi : Inv s) (hu : Up s) (hq : s.queued = []) (hst : ∀ f ∈ s.stack, f.isUser = true) (t : St)
    (ht : t = { s with closePending := false, closer := .done }) : Inv (closeHandle t) := by
  have ha : t.frees = 0 := by rw [ht]; exact hu.frees
  unfold closeHandle
  rw [reads_eq ha, ht]
  refine { hi with phase := .inr ⟨?_, rfl⟩ }
  have hudp : s.udp.closeOnce = Handle.opened.close := by rw [hu.udp]; rfl
  refine ⟨?_, hu.asyncSend ▸ Handle.close_onItsWay, hu.asyncClose ▸ Handle.close_onItsWay, ?_, hq, hst⟩
  · show Handle.OnItsWay s.udp.closeOnce
    rw [hudp]; exact Handle.close_onItsWay
  · show s.frees + 1 = 1
    rw [hu.frees]

theorem sendData_inv (hi : Inv s) {malloc accepted : Bool} (ha : s.frees = 0)
    (hg : orderly s (.send malloc accepted) = true) : Inv (sendData s malloc accepted) := by
  have hu := hi.upOrDown.resolve_right fun hd => by have := hd.frees; omega
  unfold sendData
  rw [reads_eq ha]
  cases malloc with
  | true =>
    have hacc : accepted = true := by simpa [orderly] using hg
    simp only [hacc, if_true]
    refine up_inv hi hu ?_
    rw [List.range_succ]
    have h1 : (s.queued ++ [s.reqs] ++ (s.stack.filterMap Frame.req? ++ s.reqFrees)).Perm
        (s.reqs :: (s.queued ++ (s.stack.filterMap Frame.req? ++ s.reqFrees))) := by
      rw [List.append_assoc]; exact List.perm_middle
    exact h1.trans ((hi.reqs.cons s.reqs).trans (List.perm_append_singleton ..).symm)
  | false =>
    simp only [Bool.false_eq_true, if_false]
    exact up_inv hi hu hi.reqs

theorem closerStep_inv (hi : Inv s) (h : closerStep s = some s') : Inv s' := by
  have hp := hi.phase
  unfold closerStep at h
  cases hc : s.closer with
  | idle =>
    rw [hc] at h hp
    simp only [reads_eq hp.1.frees, Option.some.injEq] at h
    rw [← h]
    exact { hi with phase := ⟨{ hp.1 with }, hp.2⟩ }
  | notify =>
    rw [hc] at h hp
    simp only [reads_eq hp.1.frees, Option.some.injEq] at h
    rw [← h]
    exact { hi with phase := .inl ⟨{ hp.1 with }, rfl⟩ }
  | done => rw [hc] at h; cases h

/-- A handle is closed: that is after close_handle. -/
theorem handleClosed_inv (hi : Inv s) {a b c : Handle} (hd : Down s → a.OnItsWay ∧ b.OnItsWay ∧ c.OnItsWay)
    (hu : ¬ Up s) : Inv { s with udp := a, asyncSend := b, asyncClose := c } :=
  { hi with
    phase := hi.phase.keep (fun h => absurd h hu)
      (fun h => { h with udp := (hd h).1, asyncSend := (hd h).2.1, asyncClose := (hd h).2.2 }) rfl }

theorem step_inv (hi : Inv s) {e : Ev} (hg : orderly s e = true) (h : step s e = some s') : Inv s' := by
  unfold step at h
  rw [if_neg (by simp [hi.uaf])] at h
  cases e with
  | read nread =>
    simp only at h
    split at h <;> cases h
    rename_i hc
    have hu := hi.upOrDown.resolve_right fun hd => hd.udp.not_opened hc.2.2
    unfold onRead
    rw [reads_eq hu.frees]
    split
    · exact hi
    · refine up_inv hi hu ?_
      have := hi.reqs
      rw [hc.1] at this
      exact this
  | sent i =>
    simp only at h
    split at h
    · rename_i hc
      cases hq : s.queued[i]? with
      | none => rw [hq] at h; cases h
      | some r => rw [hq] at h; cases h; exact onSend_inv hi hc.1 hq
    · cases h
  | udpClosed =>
    simp only at h
    split at h <;> cases h
    rename_i hc
    exact handleClosed_inv hi (fun hd => ⟨hd.udp.finish hc.2.1, hd.asyncSend, hd.asyncClose⟩)
      fun hu => by have := hc.2.1; rw [hu.udp] at this; cases this
  | asyncSendClosed =>
    simp only at h
    split at h <;> cases h
    rename_i hc
    exact handleClosed_inv hi (fun hd => ⟨hd.udp, hd.asyncSend.finish hc.2, hd.asyncClose⟩)
      fun hu => by have := hc.2; rw [hu.asyncSend] at this; cases this
  | asyncCloseClosed =>
    simp only at h
    split at h <;> cases h
    rename_i hc
    exact handleClosed_inv hi (fun hd => ⟨hd.udp, hd.asyncSend, hd.asyncClose.finish hc.2⟩)
      fun hu => by have := hc.2; rw [hu.asyncClose] at this; cases this
  | asyncClose =>
    simp only at h
    split at h <;> cases h
    rename_i hc
    simp only [orderly, Bool.and_eq_true, List.isEmpty_iff, List.all_eq_true] at hg
    have hp := hi.phase
    cases hcl : s.closer <;> rw [hcl] at hp
    · rw [hp.2] at hc; cases hc.2.1
    · rw [hp.2] at hc; cases hc.2.1
    · rcases hp with ⟨hu, -⟩ | ⟨-, h⟩
      · exact closeHandle_inv hi hu hg.1 hg.2 _ (by rw [← hcl])
      · rw [h] at hc; cases hc.2.1
  | goOn => exact goOn_inv hi h
  | ret =>
    simp only at h
    split at h
    · rename_i r hst
      cases h
      refine { hi with
        phase := hi.phase.keep (fun hu => { hu with }) (fun hd => { hd with stack := fun f hf => ?_ }) rfl
        reqs := ?_ }
      · exact hd.stack f (by rw [hst]; exact List.mem_cons_of_mem _ hf)
      · have := hi.reqs
        rw [hst] at this
        exact this
    · cases h
  | send malloc accepted =>
    simp only at h
    split at h <;> cases h
    rename_i hc; exact sendData_inv hi hc.2 hg
  | close =>
    simp only at h
    split at h <;> cases h
    rename_i hc
    simp only [orderly, Bool.and_eq_true, List.isEmpty_iff, List.all_eq_true] at hg
    have hp := hi.phase
    rw [hc.2] at hp
    exact closeHandle_inv hi hp.1 hg.1 hg.2 _ (by rw [← hp.2])
  | closer => exact closerStep_inv hi h

/-! ## Runs -/

theorem Inv.released (hi : Inv s) : Released s := by
  have hnd : (s.queued ++ (s.stack.filterMap Frame.req? ++ s.reqFrees)).Nodup :=
    hi.reqs.nodup_iff.mpr List.nodup_range
  have hdown : Drained s → Down s := fun hdr => by
    have hp := hi.phase
    rw [hdr.closer] at hp
    rcases hp with ⟨-, h⟩ | ⟨hd, -⟩
    · rw [hdr.pending] at h; cases h
    · exact hd
  refine ⟨fun n hn => ?_, ?_, hi.uaf, fun hdr n hn => ?_, fun hdr r hr => ?_⟩
  · simp only [freed, List.mem_cons, List.not_mem_nil, or_false] at hn
    rcases hi.upOrDown with hu | hd
    · have h1 : s.udp.frees = 0 := by rw [hu.udp]; rfl
      have h2 : s.asyncSend.frees = 0 := by rw [hu.asyncSend]; rfl
      have h3 : s.asyncClose.frees = 0 := by rw [hu.asyncClose]; rfl
      have := hu.frees
      omega
    · have h1 := hd.udp.frees_le
      have h2 := hd.asyncSend.frees_le
      have h3 := hd.asyncClose.frees_le
      have := hd.frees
      omega
  · exact (List.nodup_append.mp (List.nodup_append.mp hnd).2.1).2.1
  · have hd := hdown hdr
    have h1 := hd.udp.frees_eq hdr.udp
    have h2 := hd.asyncSend.frees_eq hdr.asyncSend
    have h3 := hd.asyncClose.frees_eq hdr.asyncClose
    have := hd.frees
    simp only [freed, List.mem_cons, List.not_mem_nil, or_false] at hn
    omega
  · have hm := hi.reqs.mem_iff.mpr (List.mem_range.mpr hr)
    rw [(hdown hdr).queued, hdr.stack] at hm
    exact hm

theorem udp_released {s : St} (hr : Reach step (fun s e => orderly s e = true) init s) : Released s :=
  (hr.invariant init_inv fun _ _ _ hi hg h => step_inv hi hg h).released

/-- Two sends, called back out of order, and then the close from another thread. -/
theorem closed_after_sends :
    ∃ s, Reach step (fun s e => orderly s e = true) init s ∧
      (Drained s ∧ freed s = [1, 1, 1, 1] ∧ s.reqFrees = [1, 0]) ∧ Released s := by
  obtain ⟨s, hr, h, hf⟩ := reach_of_runIf step orderly init
    (fun s => (s.closer = .done ∧ s.closePending = false ∧ s.stack = [] ∧ s.udp.st ≠ .closing ∧
      s.asyncSend.st ≠ .closing ∧ s.asyncClose.st ≠ .closing) ∧ freed s = [1, 1, 1, 1] ∧ s.reqFrees = [1, 0])
    ([.read 5, .send true true, .ret, .send true true, .sent 1, .ret, .goOn, .closer, .sent 0, .ret, .goOn, .closer,
      .asyncClose, .udpClosed, .asyncSendClosed, .asyncCloseClosed]) ⟨_, rfl, by decide⟩
  exact ⟨s, hr, ⟨⟨h.1, h.2.1, h.2.2.1, h.2.2.2.1, h.2.2.2.2.1, h.2.2.2.2.2⟩, hf⟩, udp_released hr⟩

/-- Closed with a send queued: its callback reads the freed socket. -/
theorem closed_with_a_send_queued : ∃ s, Reach step Free init s ∧ ¬ Released s := by
  obtain ⟨s, hr, hu⟩ := reach_of_run step init (fun s => s.uaf = true)
    ([.send true true, .close, .sent 0]) ⟨_, rfl, by decide⟩
  exact ⟨s, hr, fun h => by rw [h.uaf] at hu; cases hu⟩

end UvWrapper.Net.UdpLife
