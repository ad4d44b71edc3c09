/-
  UvWrapper.Net.SendPathOrder — what becomes of a call, once and in the order of the mutex.

  `Effect` says what a step does to the calls under way, to their outcomes (a submission or
  a failed allocation) and to the order in which the mutex was taken; from it:
  - `Outcomes`: a call that has not been submitted or failed is still under way, and none has two
    outcomes;
  - `Ordered`: the off-thread calls' submissions, and their failures, are in the order in which they
    took the mutex.
-/

import UvWrapper.Net.SendPathProofs

namespace UvWrapper.Net.SendPath

open UvWrapper.Lib UvWrapper.Lib.Trace

variable {δ : Type} (cfg : Cfg δ)

/-! ## What a step does -/

def Begun (s : St δ) (k : Nat) : Prop := s.h.pc k ≠ .idle ∨ s.loop k ≠ .idle

/-- Past the mutex, returned calls included. -/
def Past (s : St δ) (k : Nat) : Prop := s.h.pc k ≠ .idle ∧ s.h.pc k ≠ .want

/-- A step takes no call back, and lets one past the mutex only by locking it. -/
structure Forth (s s' : St δ) : Prop where
  begun : ∀ k, Begun s k → Begun s' k
  past : ∀ k, Past s k → Past s' k
  inside : ∀ k, (s'.h.pc k).inside = true → (s.h.pc k).inside = true ∨ s'.locked = s.locked ++ [k]

inductive Effect (s s' : St δ) : Prop
  | begins (k : Nat) (hb : ¬ Begun s k) (hn : cfg.null k = false) (hb' : Begun s' k) (hl : s'.live = s.live ++ [k])
      (hs : s'.submits = s.submits) (hf : s'.failed = s.failed) (hk : s'.locked = s.locked)
  | submits (k c : Nat) (r : List Frame) (e : Submit δ) (hst : s.stack = .sendData k c :: r) (he : e.call = k)
      (hl : s'.live = s.live.erase k) (hs : s'.submits = s.submits ++ [e]) (hf : s'.failed = s.failed)
      (hk : s'.locked = s.locked)
  | fails (k c : Nat) (r : List Frame) (hst : s.stack = .sendData k c :: r) (hl : s'.live = s.live.erase k)
      (hs : s'.submits = s.submits) (hf : s'.failed = s.failed ++ [⟨k, c⟩]) (hk : s'.locked = s.locked)
  | locks (k : Nat) (hp : s.h.pc k = .want) (hm : s.h.mutex = none) (hp' : Past s' k) (hl : s'.live = s.live)
      (hs : s'.submits = s.submits) (hf : s'.failed = s.failed) (hk : s'.locked = s.locked ++ [k])
  | quiet (hl : s'.live = s.live) (hs : s'.submits = s.submits) (hf : s'.failed = s.failed)
      (hk : s'.locked = s.locked)

variable {cfg} {s s' : St δ}

/-- A step that leaves the callers. -/
theorem Forth.loop (hp : s'.h.pc = s.h.pc) (hl : ∀ k, s.loop k ≠ .idle → s'.loop k ≠ .idle) : Forth s s' where
  begun := fun k hb => hb.imp (fun h => hp ▸ h) (hl k)
  past := fun k hb => by unfold Past; rw [hp]; exact hb
  inside := fun k hk => .inl (hp ▸ hk)

/-- Caller `k` alone moves, to `p`. -/
theorem Forth.caller {k : Nat} {p : Pc Stage} (hp : s'.h.pc = (s.h.setPc k p).pc) (hl : s'.loop = s.loop) (hi : p ≠ .idle)
    (hw : Past s k → p ≠ .want) (hin : p.inside = true → (s.h.pc k).inside = true ∨ s'.locked = s.locked ++ [k]) :
    Forth s s' := by
  have hne : ∀ {u}, u ≠ k → s'.h.pc u = s.h.pc u := fun hu => by rw [hp]; exact Handoff.setPc_ne _ _ hu
  have hk : s'.h.pc k = p := by rw [hp]; exact Handoff.setPc_same ..
  refine ⟨fun u hb => ?_, fun u hb => ?_, fun u hu => ?_⟩
  · by_cases e : u = k
    · subst e; exact .inl (hk ▸ hi)
    · exact hb.imp (fun h => (hne e).symm ▸ h) fun h => hl ▸ h
  · by_cases e : u = k
    · subst e; exact ⟨hk ▸ hi, hk ▸ hw hb⟩
    · unfold Past; rw [hne e]; exact hb
  · by_cases e : u = k
    · subst e; exact hin (hk ▸ hu)
    · exact .inl ((hne e) ▸ hu)

theorem loopReturn_idle {k j : Nat} (h : s.loop j ≠ .idle) : loopReturn cfg s k j ≠ .idle := by
  unfold loopReturn
  split
  · by_cases e : j = k
    · subst e; simp
    · rw [Function.update_of_ne e]; exact h
  · exact h

theorem checkFlag_same (cfg : Cfg δ) (s : St δ) (k c : Nat) : (checkFlag cfg s k c).h.pc = s.h.pc ∧
    (checkFlag cfg s k c).loop = s.loop ∧ (checkFlag cfg s k c).live = s.live ∧
    (checkFlag cfg s k c).submits = s.submits ∧ (checkFlag cfg s k c).failed = s.failed ∧
    (checkFlag cfg s k c).locked = s.locked := by
  unfold checkFlag
  split
  · exact ⟨rfl, rfl, rfl, rfl, rfl, rfl⟩
  · split <;> exact ⟨rfl, rfl, rfl, rfl, rfl, rfl⟩

theorem enter_effect (hi : Inv cfg s) {k : Nat} (h : enter cfg s k = some s') : Forth s s' ∧ Effect cfg s s' := by
  have h0 : ∀ {t : St δ}, storeAddr cfg s k = t → t.h = s.h ∧ t.loop = s.loop ∧ t.live = s.live ∧ t.stack = s.stack ∧
      t.submits = s.submits ∧ t.failed = s.failed ∧ t.locked = s.locked := by
    intro t ht
    unfold storeAddr at ht
    split at ht <;> (subst ht; exact ⟨rfl, rfl, rfl, rfl, rfl, rfl, rfl⟩)
  unfold enter at h
  generalize ht : storeAddr cfg s k = t at h
  obtain ⟨h1, h2, h3, h4, h5, h6, h7⟩ := h0 ht
  unfold dispatch at h
  split at h
  · rename_i hon
    split at h
    · rename_i r hst
      split at h
      · rename_i hidle
        have hup : ∀ {p : LoopPc}, p ≠ .idle → ∀ j, s.loop j ≠ .idle → Function.update t.loop k p j ≠ .idle := by
          intro p hp j hj
          by_cases e : j = k
          · subst e; rw [Function.update_self]; exact hp
          · rw [Function.update_of_ne e, h2]; exact hj
        split at h
        · cases h
          exact ⟨.loop (congrArg _ h1) (hup (by simp)), .quiet h3 h5 h6 h7⟩
        · rename_i hn
          cases h
          refine ⟨.loop (congrArg _ h1) (hup (by simp)), .begins k (fun hb => ?_) (by simpa using hn) (.inr (by simp)) ?_
            h5 h6 h7⟩
          · rcases hb with hb | hb
            · have := (hi.callers k).off hb
              rw [hon] at this; cases this
            · exact hb (h2 ▸ hidle)
          · show t.live ++ [k] = s.live ++ [k]
            rw [h3]
      · cases h
    · cases h
  · rename_i hon
    split at h
    · rename_i hidle
      have hidle : s.h.pc k = .idle := h1 ▸ hidle
      split at h
      · cases h
        exact ⟨.caller (k := k) (p := .ret) (by rw [← h1]; rfl) h2 (by simp) (fun _ => by simp) (by simp),
          .quiet h3 h5 h6 h7⟩
      · rename_i hn
        cases h
        refine ⟨.caller (k := k) (p := .want) (by rw [← h1]; rfl) h2 (by simp) (fun hp => absurd hidle hp.1)
          (by simp), .begins k (fun hb => ?_) (by simpa using hn) (.inl (by simp [Handoff.call])) ?_ h5 h6 h7⟩
        · rcases hb with hb | hb
          · exact hb hidle
          · exact hon ((hi.loops k).on hb)
        · show t.live ++ [k] = s.live ++ [k]
          rw [h3]
    · cases h

theorem callerStep_effect {k : Nat} (h : callerStep cfg s k = some s') : Forth s s' ∧ Effect cfg s s' := by
  unfold callerStep at h
  cases hp : s.h.pc k with
  | want =>
    rw [hp] at h
    simp only at h
    split at h
    · rename_i hm
      cases h
      exact ⟨.caller (k := k) (p := .crit .flag) rfl rfl (by simp) (fun _ => by simp) fun _ => .inr rfl,
        .locks k hp hm ⟨by simp [Handoff.lock], by simp [Handoff.lock]⟩ rfl rfl rfl rfl⟩
    · cases h
  | crit a =>
    rw [hp] at h
    have hin : (s.h.pc k).inside = true := by simp [hp]
    cases a <;> cases h
    · exact ⟨.caller (k := k) (p := .crit .buf) rfl rfl (by simp) (fun _ => by simp) fun _ => .inl hin, .quiet rfl rfl rfl rfl⟩
    · exact ⟨.caller (k := k) (p := .crit .asyncData) rfl rfl (by simp) (fun _ => by simp) fun _ => .inl hin,
        .quiet rfl rfl rfl rfl⟩
    · exact ⟨.caller (k := k) (p := .crit .notify) rfl rfl (by simp) (fun _ => by simp) fun _ => .inl hin,
        .quiet rfl rfl rfl rfl⟩
    · exact ⟨.caller (k := k) (p := .wait) rfl rfl (by simp) (fun _ => by simp) fun _ => .inl hin, .quiet rfl rfl rfl rfl⟩
  | wait =>
    rw [hp] at h
    simp only at h
    split at h
    · cases h
      exact ⟨.caller (k := k) (p := .woken) rfl rfl (by simp) (fun _ => by simp) fun _ => .inl (by simp [hp]),
        .quiet rfl rfl rfl rfl⟩
    · cases h
  | woken =>
    rw [hp] at h
    cases h
    exact ⟨.caller (k := k) (p := .ret) rfl rfl (by simp) (fun _ => by simp) (by simp), .quiet rfl rfl rfl rfl⟩
  | _ => rw [hp] at h; cases h

theorem loopStep_effect {malloc accepted : Bool} (h : loopStep cfg s malloc accepted = some s') :
    Forth s s' ∧ Effect cfg s s' := by
  unfold loopStep at h
  split at h
  · cases h; exact ⟨.loop rfl fun _ h => h, .quiet rfl rfl rfl rfl⟩
  · cases h; exact ⟨.loop rfl fun _ h => h, .quiet rfl rfl rfl rfl⟩
  · rename_i k c r hst
    split at h
    · cases h
      exact ⟨.loop rfl fun _ h => loopReturn_idle h, .submits k c r _ hst rfl rfl rfl rfl rfl⟩
    · cases h
      exact ⟨.loop rfl fun _ h => h, .fails k c r hst rfl rfl rfl rfl⟩
  · rename_i k c r hst
    cases h
    obtain ⟨h1, -, h3, h4, h5, h6⟩ := checkFlag_same cfg s k c
    exact ⟨.loop h1 fun _ h => loopReturn_idle h, .quiet h3 h4 h5 h6⟩
  · rename_i k c r hst
    cases h
    obtain ⟨h1, h2, h3, h4, h5, h6⟩ := checkFlag_same cfg s k c
    exact ⟨.loop h1 fun j h => by rw [show _ = s.loop j from congrFun h2 j]; exact h, .quiet h3 h4 h5 h6⟩
  · cases h

theorem step_effect (hi : Inv cfg s) {e : Ev} (h : step cfg s e = some s') : Forth s s' ∧ Effect cfg s s' := by
  cases e with
  | callback =>
    simp only [step] at h
    split at h <;> cases h
    exact ⟨.loop rfl fun _ h => h, .quiet rfl rfl rfl rfl⟩
  | ret =>
    simp only [step] at h
    split at h <;> cases h
    exact ⟨.loop rfl fun _ h => h, .quiet rfl rfl rfl rfl⟩
  | call k => exact enter_effect hi h
  | caller k => exact callerStep_effect h
  | asyncSend =>
    simp only [step, asyncSendCb] at h
    split at h
    · rename_i hg
      rw [(hi.pend hg.2).2] at h
      cases h
      exact ⟨.loop rfl fun _ h => h, .quiet rfl rfl rfl rfl⟩
    · cases h
  | loop malloc accepted => exact loopStep_effect h
  | written i =>
    obtain ⟨q, -, -, rfl | rfl⟩ := onWrite_cases h
    · exact ⟨.loop rfl fun _ h => h, .quiet rfl rfl rfl rfl⟩
    · obtain ⟨h1, h2, h3, h4, h5, h6⟩ := checkFlag_same cfg (completing s i q) q.call q.conn
      exact ⟨.loop h1 fun j h => by rw [show _ = s.loop j from congrFun h2 j]; exact h, .quiet h3 h4 h5 h6⟩

/-! ## Outcomes -/

variable (cfg) in
/-- What has become of each call: under way, submitted or failed, and not two of them. -/
structure Outcomes (s : St δ) : Prop where
  liveNodup : s.live.Nodup
  live : ∀ k ∈ s.live, Begun s k ∧ cfg.null k = false ∧ ¬ Failed s k ∧ ¬ Submitted s k
  failed : ∀ r ∈ s.failed, Begun s r.call ∧ cfg.null r.call = false ∧ r.conn = cfg.conn r.call ∧ ¬ Submitted s r.call
  failedOnce : (s.failed.map Req.call).Nodup
  submitted : ∀ k, Submitted s k → Begun s k ∧ cfg.null k = false

theorem init_outcomes (addr : δ) : Outcomes cfg (init addr) := by
  constructor <;> simp [init, Submitted]

/-- A call with an outcome has begun. -/
theorem Outcomes.begun (ho : Outcomes cfg s) {k : Nat} (h : Failed s k ∨ Submitted s k) :
    Begun s k ∧ cfg.null k = false := by
  rcases h with h | h
  · obtain ⟨r, hr, rfl⟩ := List.mem_map.mp h
    exact ⟨(ho.failed r hr).1, (ho.failed r hr).2.1⟩
  · exact ho.submitted k h

theorem Outcomes.not_both (ho : Outcomes cfg s) {k : Nat} (hf : Failed s k) : ¬ Submitted s k := by
  obtain ⟨r, hr, rfl⟩ := List.mem_map.mp hf
  exact (ho.failed r hr).2.2.2

theorem Outcomes.step (hi : Inv cfg s) (ho : Outcomes cfg s) (hf : Forth s s') (h : Effect cfg s s') :
    Outcomes cfg s' := by
  cases h with
  | begins k hb hn hb' hl hs hfl _ =>
    have hk : k ∉ s.live := fun hm => hb (ho.live k hm).1
    have hout : ¬ (Failed s k ∨ Submitted s k) := fun h => hb (ho.begun h).1
    refine ⟨?_, fun j hj => ?_, fun r hr => ?_, hfl ▸ ho.failedOnce, fun j hj => ?_⟩
    · rw [hl]
      exact nodup_snoc ho.liveNodup hk
    · rw [Failed, Submitted, hfl, hs]
      rcases mem_snoc.mp (hl ▸ hj) with hj | rfl
      · exact ⟨hf.begun j (ho.live j hj).1, (ho.live j hj).2⟩
      · exact ⟨hb', hn, fun h => hout (.inl h), fun h => hout (.inr h)⟩
    · rw [Submitted, hs]
      obtain ⟨h1, h2⟩ := ho.failed r (hfl ▸ hr)
      exact ⟨hf.begun _ h1, h2⟩
    · obtain ⟨h1, h2⟩ := ho.submitted j (by rwa [Submitted, hs] at hj)
      exact ⟨hf.begun j h1, h2⟩
  | submits k c r e hst he hl hs hfl _ =>
    obtain ⟨-, hk, -⟩ := hi.sending hst
    obtain ⟨h1, h2, h3, h4⟩ := ho.live k hk
    have hsub : ∀ j, Submitted s' j ↔ Submitted s j ∨ j = k := fun j => by
      unfold Submitted
      rw [hs, List.map_append, List.map_singleton, he, mem_snoc]
    refine ⟨hl ▸ ho.liveNodup.erase k, fun j hj => ?_, fun r hr => ?_, hfl ▸ ho.failedOnce, fun j hj => ?_⟩
    · obtain ⟨hne, hj⟩ := ho.liveNodup.mem_erase_iff.mp (hl ▸ hj)
      obtain ⟨h5, h6, h7, h8⟩ := ho.live j hj
      exact ⟨hf.begun j h5, h6, by rwa [Failed, hfl], fun h => ((hsub j).mp h).elim h8 hne⟩
    · obtain ⟨h5, h6, h7, h8⟩ := ho.failed r (hfl ▸ hr)
      refine ⟨hf.begun _ h5, h6, h7, fun h => ((hsub _).mp h).elim h8 fun e => h3 ?_⟩
      exact e ▸ List.mem_map_of_mem (hfl ▸ hr)
    · rcases (hsub j).mp hj with hj | rfl
      · exact ⟨hf.begun j (ho.submitted j hj).1, (ho.submitted j hj).2⟩
      · exact ⟨hf.begun j h1, h2⟩
  | fails k c r hst hl hs hfl _ =>
    obtain ⟨hc, hk, -⟩ := hi.sending hst
    obtain ⟨h1, h2, h3, h4⟩ := ho.live k hk
    refine ⟨hl ▸ ho.liveNodup.erase k, fun j hj => ?_, fun r hr => ?_, ?_, fun j hj => ?_⟩
    · obtain ⟨hne, hj⟩ := ho.liveNodup.mem_erase_iff.mp (hl ▸ hj)
      obtain ⟨h5, h6, h7, h8⟩ := ho.live j hj
      refine ⟨hf.begun j h5, h6, fun h => ?_, by rwa [Submitted, hs]⟩
      rw [Failed, hfl, List.map_append, List.map_singleton, mem_snoc] at h
      exact h.elim h7 hne
    · rw [Submitted, hs]
      rcases mem_snoc.mp (hfl ▸ hr) with hr | rfl
      · obtain ⟨h5, h6⟩ := ho.failed r hr
        exact ⟨hf.begun _ h5, h6⟩
      · exact ⟨hf.begun k h1, h2, hc, h4⟩
    · rw [hfl, List.map_append, List.map_singleton]
      exact nodup_snoc ho.failedOnce h3
    · obtain ⟨h5, h6⟩ := ho.submitted j (by rwa [Submitted, hs] at hj)
      exact ⟨hf.begun j h5, h6⟩
  | locks k hp hm hp' hl hs hfl hk =>
    refine ⟨hl ▸ ho.liveNodup, fun j hj => ?_, fun r hr => ?_, hfl ▸ ho.failedOnce, fun j hj => ?_⟩
    · rw [Failed, Submitted, hfl, hs]
      obtain ⟨h5, h6⟩ := ho.live j (hl ▸ hj)
      exact ⟨hf.begun j h5, h6⟩
    · rw [Submitted, hs]
      obtain ⟨h5, h6⟩ := ho.failed r (hfl ▸ hr)
      exact ⟨hf.begun _ h5, h6⟩
    · obtain ⟨h5, h6⟩ := ho.submitted j (by rwa [Submitted, hs] at hj)
      exact ⟨hf.begun j h5, h6⟩
  | quiet hl hs hfl _ =>
    refine ⟨hl ▸ ho.liveNodup, fun j hj => ?_, fun r hr => ?_, hfl ▸ ho.failedOnce, fun j hj => ?_⟩
    · rw [Failed, Submitted, hfl, hs]
      obtain ⟨h5, h6⟩ := ho.live j (hl ▸ hj)
      exact ⟨hf.begun j h5, h6⟩
    · rw [Submitted, hs]
      obtain ⟨h5, h6⟩ := ho.failed r (hfl ▸ hr)
      exact ⟨hf.begun _ h5, h6⟩
    · obtain ⟨h5, h6⟩ := ho.submitted j (by rwa [Submitted, hs] at hj)
      exact ⟨hf.begun j h5, h6⟩

/-! ## Order -/

def offCalls (cfg : Cfg δ) (l : List Nat) : List Nat := l.filter fun k => !cfg.onLoop k

variable (cfg) in
structure Ordered (s : St δ) : Prop where
  nodup : s.locked.Nodup
  past : ∀ k ∈ s.locked, Past s k ∧ cfg.onLoop k = false ∧ cfg.null k = false
  /-- The mutex's holder is the last to have taken it. -/
  last : ∀ k, (s.h.pc k).inside = true → ∃ pre, s.locked = pre ++ [k]
  submits : (offCalls cfg (s.submits.map Submit.call)).Sublist s.locked
  fails : (offCalls cfg (s.failed.map Req.call)).Sublist s.locked

theorem init_ordered (addr : δ) : Ordered cfg (init addr) := by
  constructor <;> simp [init, offCalls, Handoff.init]

/-- The last to have taken the mutex comes next. -/
theorem sublist_next {l pre : List Nat} {k : Nat} (h : l.Sublist (pre ++ [k])) (hk : k ∉ l) :
    (l ++ [k]).Sublist (pre ++ [k]) := by
  have h1 : l.Sublist pre := by
    obtain ⟨l1, l2, rfl, h2, h3⟩ := List.sublist_append_iff.mp h
    have hnil : l2 = [] := by
      cases l2 with
      | nil => rfl
      | cons a l2 =>
        have : a = k := List.mem_singleton.mp (h3.subset List.mem_cons_self)
        exact absurd (this ▸ List.mem_append_right l1 List.mem_cons_self) hk
    rw [hnil, List.append_nil]
    exact h2
  exact h1.append (List.Sublist.refl [k])

/-- Call `k` of a send_data frame has its outcome now. -/
theorem Ordered.next (hi : Inv cfg s) (ho : Ordered cfg s) {k c : Nat} {r : List Frame} (hst : s.stack = .sendData k c :: r)
    {l : List Nat} (hl : (offCalls cfg l).Sublist s.locked) (hk : k ∉ l) :
    (offCalls cfg (l ++ [k])).Sublist s.locked := by
  unfold offCalls at hl ⊢
  rw [List.filter_append]
  cases hon : cfg.onLoop k with
  | true => simpa [hon] using hl
  | false =>
    obtain ⟨pre, hpre⟩ := ho.last k (by rw [(hi.sending hst).2.2.2.2 hon]; rfl)
    have h1 : List.filter (fun k => !cfg.onLoop k) [k] = [k] := by simp [hon]
    rw [h1, hpre]
    rw [hpre] at hl
    exact sublist_next hl fun h => hk (List.mem_filter.mp h).1

theorem Ordered.step (hi : Inv cfg s) (hou : Outcomes cfg s) (ho : Ordered cfg s) (hf : Forth s s')
    (h : Effect cfg s s') : Ordered cfg s' := by
  -- unless somebody locks, nobody new is inside
  have hsame : s'.locked = s.locked → s'.locked.Nodup ∧
      (∀ k ∈ s'.locked, Past s' k ∧ cfg.onLoop k = false ∧ cfg.null k = false) ∧
      ∀ k, (s'.h.pc k).inside = true → ∃ pre, s'.locked = pre ++ [k] := fun hk => by
    refine ⟨hk ▸ ho.nodup, fun k hm => ?_, fun k hin => ?_⟩
    · obtain ⟨h1, h2⟩ := ho.past k (hk ▸ hm)
      exact ⟨hf.past k h1, h2⟩
    · rcases hf.inside k hin with hin | he
      · rw [hk]; exact ho.last k hin
      · rw [he] at hk
        exact absurd hk (by simp)
  cases h with
  | begins k hb hn hb' hl hs hfl hk =>
    obtain ⟨h1, h2, h3⟩ := hsame hk
    exact ⟨h1, h2, h3, by rw [hs, hk]; exact ho.submits, by rw [hfl, hk]; exact ho.fails⟩
  | submits k c r e hst he hl hs hfl hk =>
    obtain ⟨h1, h2, h3⟩ := hsame hk
    obtain ⟨-, -, hsub, -⟩ := hi.sending hst
    refine ⟨h1, h2, h3, ?_, by rw [hfl, hk]; exact ho.fails⟩
    rw [hs, hk, List.map_append, List.map_singleton, he]
    exact ho.next hi hst ho.submits hsub
  | fails k c r hst hl hs hfl hk =>
    obtain ⟨h1, h2, h3⟩ := hsame hk
    obtain ⟨-, hlive, -⟩ := hi.sending hst
    refine ⟨h1, h2, h3, by rw [hs, hk]; exact ho.submits, ?_⟩
    rw [hfl, hk, List.map_append, List.map_singleton]
    exact ho.next hi hst ho.fails (hou.live k hlive).2.2.1
  | locks k hp hm hp' hl hs hfl hk =>
    obtain ⟨hoff, hnull, -⟩ : CallerOk cfg s k .want := hp ▸ hi.callers k
    have hnew : k ∉ s.locked := fun h => (ho.past k h).1.2 hp
    refine ⟨?_, fun j hj => ?_, fun j hin => ?_, ?_, ?_⟩
    · rw [hk]
      exact nodup_snoc ho.nodup hnew
    · rcases mem_snoc.mp (hk ▸ hj) with hj | rfl
      · obtain ⟨h1, h2⟩ := ho.past j hj
        exact ⟨hf.past j h1, h2⟩
      · exact ⟨hp', hoff, hnull⟩
    · rcases hf.inside j hin with hin | he
      · have := (hi.hand.holder j).mp hin
        rw [hm] at this; cases this
      · exact ⟨s.locked, he⟩
    · rw [hs, hk]; exact ho.submits.trans (List.sublist_append_left _ _)
    · rw [hfl, hk]; exact ho.fails.trans (List.sublist_append_left _ _)
  | quiet hl hs hfl hk =>
    obtain ⟨h1, h2, h3⟩ := hsame hk
    exact ⟨h1, h2, h3, by rw [hs, hk]; exact ho.submits, by rw [hfl, hk]; exact ho.fails⟩

end UvWrapper.Net.SendPath
