/-
  UvWrapper.Net.ServerIsolation — many connections of one server, each sent to either by the
  loop's thread alone or by other threads alone.

  Then no call's step gets in another call's way (`apart_of_owned`, `flagKept_of_owned`), although
  all connections share the mutex, the semaphore and async_send. Proved, with every uv_write
  accepted: each off-thread call ends in exactly one submission of its own or one failed
  allocation, in the order of the mutex, and the semaphore is its own (`isolated`).
-/

import UvWrapper.Net.SendPathOrder
import UvWrapper.Net.ServerSend

namespace UvWrapper.Net.SendPath

open UvWrapper.Lib UvWrapper.Lib.Trace

variable {δ : Type} {cfg : Cfg δ} {s s' : St δ}

/-! ## Connections that the two sides do not share -/

/-- No connection is sent to both on the loop's thread and on others. -/
def Owned (cfg : Cfg δ) : Prop :=
  ∀ j k, cfg.null j = false → cfg.null k = false → cfg.conn j = cfg.conn k → cfg.onLoop j = cfg.onLoop k

/-- A frame that depends on the flag of connection `c` is a loop-thread call's on `c`. -/
theorem loopFrame_call (hi : Inv cfg s) (ho : Outcomes cfg s) {c : Nat} {f : Frame} (hf : f ∈ s.stack)
    (h : loopFrame cfg c f = true) : ∃ j, cfg.onLoop j = true ∧ cfg.null j = false ∧ cfg.conn j = c := by
  have hact : ∀ {j}, s.loop j = .active → cfg.onLoop j = true ∧ cfg.null j = false := fun {j} hj => by
    have := hi.loops j
    rw [hj] at this
    exact this
  have hok := hi.frames f hf
  cases f with
  | user => cases h
  | sync j a =>
    obtain ⟨-, h2, -⟩ := hok
    cases a with
    | flag => cases h
    | buf => exact ⟨j, (hact h2).1, (hact h2).2, by simpa [loopFrame] using h⟩
  | sendData j d =>
    obtain ⟨h1, h2⟩ := hok
    simp only [loopFrame, Bool.and_eq_true, beq_iff_eq] at h
    rw [if_pos h.1] at h2
    exact ⟨j, h.1, (hact h2.1).2, h1 ▸ h.2⟩
  | sendFailed j d =>
    obtain ⟨h1, -, h2⟩ := hok
    simp only [loopFrame, Bool.and_eq_true, beq_iff_eq] at h
    rw [if_pos h.1] at h2
    exact ⟨j, h.1, (hact h2.1).2, h1 ▸ h.2⟩
  | sent j d =>
    obtain ⟨h1, h2, -⟩ := hok
    simp only [loopFrame, Bool.and_eq_true, beq_iff_eq] at h
    exact ⟨j, h.1, (ho.submitted j (hi.submitted_of_completed h2)).2, h1 ▸ h.2⟩

theorem not_loopBusy_of_owned (hown : Owned cfg) (hi : Inv cfg s) (ho : Outcomes cfg s) {k : Nat}
    (hk : cfg.onLoop k = false) (hn : cfg.null k = false) : loopBusy cfg s (cfg.conn k) = false := by
  have hno : ∀ j, cfg.onLoop j = true → cfg.null j = false → cfg.conn j ≠ cfg.conn k := fun j h1 h2 h3 => by
    rw [hown j k h2 hn h3, hk] at h1; cases h1
  simp only [loopBusy, Bool.or_eq_false_iff, List.any_eq_false]
  refine ⟨fun f hf h => ?_, fun r hr h => ?_⟩
  · obtain ⟨j, h1, h2, h3⟩ := loopFrame_call hi ho hf h
    exact hno j h1 h2 h3
  · obtain ⟨h1, h2, -⟩ := hi.reqs r hr
    simp only [Bool.and_eq_true, beq_iff_eq] at h
    exact hno r.call h.1 (ho.submitted _ h2).2 (h1 ▸ h.2)

/-- The mutex's holder sends on another connection than a loop-thread call under way. -/
theorem holder_conn_ne (hown : Owned cfg) (hi : Inv cfg s) {k t : Nat} {a : SyncStage} {r : List Frame}
    (hst : s.stack = .sync k a :: r) (ht : s.h.mutex = some t) : cfg.conn t ≠ cfg.conn k := by
  obtain ⟨h1, h2, -⟩ : FrameOk cfg s (.sync k a) := hi.frames _ (by rw [hst]; exact List.mem_cons_self)
  have hl := hi.loops k
  rw [h2] at hl
  have hin := (hi.hand.holder t).mpr ht
  have hc := hi.callers t
  have hoff : cfg.onLoop t = false ∧ cfg.null t = false := by
    cases hp : s.h.pc t with
    | crit b => rw [hp] at hc; exact ⟨hc.1, hc.2.1⟩
    | wait => rw [hp] at hc; exact ⟨hc.1, hc.2.1⟩
    | woken => rw [hp] at hc; exact ⟨hc.1, hc.2.1⟩
    | _ => rw [hp] at hin; cases hin
  intro he
  have := hown t k hoff.2 hl.2 he
  rw [hoff.1, h1] at this
  cases this

theorem apart_of_owned [DecidableEq δ] [Subsingleton δ] (hown : Owned cfg) (hi : Inv cfg s) (ho : Outcomes cfg s) (e : Ev) :
    apart cfg s e = true := by
  cases e with
  | call k => exact apart_call k
  | caller k =>
    have hc := hi.callers k
    simp only [apart]
    split
    · rename_i hp
      rw [hp] at hc
      rw [not_loopBusy_of_owned hown hi ho hc.1 hc.2.1]
      rfl
    · rename_i hp
      rw [hp] at hc
      have hb := not_loopBusy_of_owned hown hi ho hc.1 hc.2.1
      -- a call that is ready to submit is busy
      simp only [loopBusy, Bool.or_eq_false_iff, List.any_eq_false] at hb
      simp only [loopReady, Bool.not_eq_true', List.any_eq_false]
      intro f hf h
      refine hb.1 f hf ?_
      cases f with
      | sendData j d => exact h
      | _ => cases h
    · rfl
  | loop malloc accepted =>
    simp only [apart]
    split
    · rename_i k r hst
      simp only [beforeSubmit, Bool.not_eq_true']
      split
      · rfl
      · rename_i t ht
        simp [holder_conn_ne hown hi hst ht]
    · rfl
  | _ => rfl

theorem flagKept_of_owned (hown : Owned cfg) (hi : Inv cfg s) (e : Ev) : flagKept cfg s e = true := by
  cases e with
  | loop malloc accepted =>
    simp only [flagKept]
    split
    · rename_i k r hst
      simp only [needsFlag, Bool.not_eq_true']
      split
      · rfl
      · rename_i t ht
        simp [holder_conn_ne hown hi hst ht]
    · rfl
  | _ => rfl

/-- The error callbacks made for call `k`, with the connection each is given. -/
def failsOf (s : St δ) (k : Nat) : List Req := s.failed.filter fun r => r.call == k

theorem Outcomes.failsOf_cases (ho : Outcomes cfg s) (k : Nat) : failsOf s k = [] ∨ failsOf s k = [⟨k, cfg.conn k⟩] :=
  filter_call_cases (f := Req.call) ho.failedOnce fun r hr hk => by
    obtain ⟨-, -, h, -⟩ := ho.failed r hr
    cases r
    simp only [Req.mk.injEq]
    exact ⟨hk, hk ▸ h⟩

theorem Outcomes.failsOf_eq (ho : Outcomes cfg s) {k : Nat} (h : Failed s k) :
    failsOf s k = [⟨k, cfg.conn k⟩] ∧ submitsOf s k = [] := by
  refine ⟨(ho.failsOf_cases k).resolve_left fun h0 => ?_, ?_⟩
  · obtain ⟨r, hr, rfl⟩ := List.mem_map.mp h
    exact List.filter_eq_nil_iff.mp h0 r hr (by simp)
  · unfold submitsOf
    rw [List.filter_eq_nil_iff]
    intro e he hk
    have hk : e.call = k := by simpa using hk
    exact ho.not_both h (hk ▸ List.mem_map_of_mem he)

theorem failsOf_nil {k : Nat} (h : ¬ Failed s k) : failsOf s k = [] := by
  unfold failsOf
  rw [List.filter_eq_nil_iff]
  intro r hr hk
  have hk : r.call = k := by simpa using hk
  exact h (hk ▸ List.mem_map_of_mem hr)

end UvWrapper.Net.SendPath

namespace UvWrapper.Net.ServerIsolation

open UvWrapper.Lib UvWrapper.Lib.Trace UvWrapper.Net.SendPath UvWrapper.Net.ServerSend

/-! ## What each call gets -/

structure Isolated (cfg : Cfg Unit) (s : St Unit) : Prop where
  /-- At most one outcome, and its own. -/
  outcome : ∀ k, (submitsOf s k = [] ∨ submitsOf s k = [cfg.asked k]) ∧ (failsOf s k = [] ∨ failsOf s k = [⟨k, cfg.conn k⟩]) ∧
    (submitsOf s k = [] ∨ failsOf s k = [])
  /-- An off-thread call returns at its NULL check, or after its outcome. -/
  returned : ∀ k, s.h.pc k = .ret → cfg.null k = true ∨ failsOf s k = [⟨k, cfg.conn k⟩] ∨
    (submitsOf s k = [cfg.asked k] ∧ Completed s k)
  lockedOnce : s.locked.Nodup
  submitOrder : (offCalls cfg (s.submits.map Submit.call)).Sublist s.locked
  failOrder : (offCalls cfg (s.failed.map Req.call)).Sublist s.locked
  /-- Nothing is merged or dropped: whoever took the mutex holds it or has its outcome. -/
  served : ∀ k ∈ s.locked, s.h.mutex = some k ∨ failsOf s k = [⟨k, cfg.conn k⟩] ∨
    (submitsOf s k = [cfg.asked k] ∧ Completed s k)
  sem : s.h.sem ≤ 1
  idle : s.h.mutex = none → s.h.sem = 0
  /-- The completion of a loop-thread send posts nothing. -/
  loopQuiet : ∀ i r s', s.inflight[i]? = some r → cfg.onLoop r.call = true → step cfg s (.written i) = some s' →
    s'.h.sem = s.h.sem
  goesOn : ∀ k, running s k → ∃ e : Ev, e.goesOn = true ∧ (step cfg s e).isSome = true

/-- What the four invariants of the send path say together. -/
structure Kept (cfg : Cfg Unit) (s : St Unit) : Prop where
  inv : Inv cfg s
  flagged : Flagged cfg s
  outcomes : Outcomes cfg s
  ordered : Ordered cfg s

theorem reach_kept {cfg : Cfg Unit} (hown : Owned cfg) {s : St Unit}
    (hr : Reach (step cfg) (fun s e => acceptedStep s e = true) (init ()) s) : Kept cfg s := by
  refine hr.invariant ⟨init_inv cfg (), init_flagged (), init_outcomes (), init_ordered ()⟩ fun s e s' hk he h => ?_
  obtain ⟨hf, hef⟩ := step_effect hk.inv h
  exact ⟨step_inv hk.inv (apart_of_owned hown hk.inv hk.outcomes e) h,
    step_flagged hk.inv hk.flagged (flagKept_of_owned hown hk.inv e) he h,
    hk.outcomes.step hk.inv hf hef, hk.ordered.step hk.inv hk.outcomes hf hef⟩

theorem sem_le {cfg : Cfg Unit} {s : St Unit} (hi : Inv cfg s) : s.h.sem ≤ 1 := by
  have hc := hi.hand.count
  have hle := Handoff.waiting_le s.h
  omega

/-- The flag of a loop-thread request's connection is not set when it completes. -/
theorem written_quiet {cfg : Cfg Unit} {s s' : St Unit} (hi : Inv cfg s) {i : Nat} {r : Req} (hr : s.inflight[i]? = some r)
    (hl : cfg.onLoop r.call = true) (h : step cfg s (.written i) = some s') : s'.h.sem = s.h.sem := by
  obtain ⟨-, -, hflag⟩ := hi.reqs r (List.mem_of_getElem? hr)
  rw [if_pos hl] at hflag
  obtain ⟨q, -, hq, rfl | rfl⟩ := onWrite_cases h
  · rfl
  · rw [hr] at hq
    cases hq
    have hflag : ((completing s i r).slot r.conn).asyncSendFlag = false := hflag
    simp only [checkFlag, hflag, hl, Bool.false_eq_true, if_false, if_true]
    rfl

theorem isolated (threadId : Nat) (calls : Nat → Call Unit) (hsize : ∀ k, (calls k).size < 2 ^ 32)
    (hown : Owned (tcpServer threadId calls)) {s : St Unit}
    (hr : Reach (step (tcpServer threadId calls)) (fun s e => acceptedStep s e = true) (init ()) s) :
    Isolated (tcpServer threadId calls) s := by
  obtain ⟨hi, hfl, hou, hord⟩ := reach_kept hown hr
  have hasked : ∀ k, (tcpServer threadId calls).own k = (tcpServer threadId calls).asked k := fun k =>
    Cfg.own_eq_asked (hsize k)
  have hdone : ∀ k, Failed s k ∨ Completed s k → failsOf s k = [⟨k, (tcpServer threadId calls).conn k⟩] ∨
      (submitsOf s k = [(tcpServer threadId calls).asked k] ∧ Completed s k) := fun k h => by
    rcases h with h | h
    · exact .inl (hou.failsOf_eq h).1
    · exact .inr ⟨hasked k ▸ hi.submitsOf_eq (hi.submitted_of_completed h), h⟩
  refine ⟨fun k => ⟨hasked k ▸ hi.submitsOf_cases k, hou.failsOf_cases k, ?_⟩, fun k hk => ?_, hord.nodup, hord.submits,
    hord.fails, fun k hk => ?_, sem_le hi, fun hm => (hi.hand.sem_idle hm).1, fun i r s' => written_quiet hi,
    fun k hk => goes_on hi hfl hk⟩
  · by_cases hf : Failed s k
    · exact .inl (hou.failsOf_eq hf).2
    · exact .inr (failsOf_nil hf)
  · exact (hi.ret_completed hk).imp_right (hdone k)
  · obtain ⟨hp, hoff, hnull⟩ := hord.past k hk
    have hc := hi.callers k
    cases hpc : s.h.pc k with
    | idle => exact absurd hpc hp.1
    | want => exact absurd hpc hp.2
    | ret =>
      rcases hi.ret_completed hpc with h | h
      · rw [hnull] at h; cases h
      · exact .inr (hdone k h)
    | _ => exact .inl ((hi.hand.holder k).mp (by simp [hpc]))

def twoSides (k : Nat) : Call Unit := if k = 1 then ⟨1, 2, 200, 7, ()⟩ else ⟨2 + k, 1, 100 + k, 5, ()⟩

/-- The loop's send falls between the two notifications of the others; the second of them has no memory. -/
theorem both_sides :
    ∃ s, Reach (step (tcpServer 1 twoSides)) (fun s e => acceptedStep s e = true) (init ()) s ∧
      (s.h.pc 0 = .ret ∧ s.h.pc 2 = .ret ∧ s.loop 1 = .ret ∧ s.submits.map Submit.call = [1, 0] ∧ s.failed = [⟨2, 1⟩]) ∧
      Isolated (tcpServer 1 twoSides) s := by
  obtain ⟨s, hr, h⟩ := reach_of_runIf (step (tcpServer 1 twoSides)) acceptedStep (init ())
    (fun s => s.h.pc 0 = .ret ∧ s.h.pc 2 = .ret ∧ s.loop 1 = .ret ∧ s.submits.map Submit.call = [1, 0] ∧ s.failed = [⟨2, 1⟩])
    [.call 0, .call 2, .caller 0, .caller 0, .caller 0, .caller 0, .caller 0, .callback, .call 1, .loop true true,
      .loop true true, .loop true true, .ret, .written 0, .asyncSend, .loop true true, .written 0, .caller 0, .caller 0,
      .caller 2, .caller 2, .caller 2, .caller 2, .caller 2, .asyncSend, .loop false true, .ret, .loop true true, .caller 2,
      .caller 2] ⟨_, rfl, by decide⟩
  refine ⟨s, hr, h, isolated 1 twoSides (fun k => ?_) (fun j k _ _ hc => ?_) hr⟩
  · unfold twoSides
    split
    · show 7 < 2 ^ 32
      decide
    · show 5 < 2 ^ 32
      decide
  · by_cases hj : j = 1
    · by_cases hk : k = 1
      · rw [hj, hk]
      · simp [Cfg.conn, tcpServer, twoSides, hj, hk] at hc
    · by_cases hk : k = 1
      · simp [Cfg.conn, tcpServer, twoSides, hj, hk] at hc
      · have h1 : 1 ≠ 2 + j := by omega
        have h2 : 1 ≠ 2 + k := by omega
        simp [Cfg.onLoop, tcpServer, twoSides, hj, hk, h1, h2]

end UvWrapper.Net.ServerIsolation
