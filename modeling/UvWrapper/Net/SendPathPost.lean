/-
  UvWrapper.Net.SendPathPost — that every off-thread call gets its post.

  The completion looks at the connection's flag, not at its request. While no
  loop-thread call clears the flag of a connection that an off-thread call is waiting
  on (`flagKept`), and libuv refuses no submission (`acceptedStep`):
  - `Flagged` (no post is lost, and the flag of the mutex's holder stands) holds in
    every state;
  - `goes_on`: as long as a call has not returned, some step of the code or of libuv
    can be taken.
-/

import UvWrapper.Net.SendPathProofs

namespace UvWrapper.Net.SendPath

open UvWrapper.Lib UvWrapper.Lib.Trace

variable {δ : Type} (cfg : Cfg δ)

/-- Call `t` has stored its flag, and its post is not made yet. -/
def HoldsFlag (s : St δ) (t : Nat) : Prop := (∃ a, s.h.pc t = .crit a ∧ a ≠ .flag) ∨ (s.h.pc t = .wait ∧ s.h.sem = 0)

structure Flagged (s : St δ) : Prop where
  lost : s.lost = 0
  flag : ∀ t, HoldsFlag s t → (s.slot (cfg.conn t)).asyncSendFlag = true
  /-- A loop-thread call in progress has a frame. -/
  active : ∀ k, s.loop k = .active → ∃ f ∈ s.stack, f.call? = some k

variable {cfg} {s s' : St δ}

theorem HoldsFlag.inside {t : Nat} (h : HoldsFlag s t) : (s.h.pc t).inside = true := by
  rcases h with ⟨a, h, -⟩ | ⟨h, -⟩ <;> simp [h]

theorem needsFlag_of (hi : Inv cfg s) {t : Nat} (h : HoldsFlag s t) : needsFlag cfg s (cfg.conn t) = true := by
  have hm := (hi.hand.holder t).mp h.inside
  simp only [needsFlag, hm, beq_self_eq_true, Bool.true_and]
  rcases h with ⟨a, h, ha⟩ | ⟨h, hs⟩
  · rw [h]; cases a <;> first | rfl | exact absurd rfl ha
  · rw [h]; simpa using hs

/-- A step that leaves the hand-off, the flags and the calls of the loop alone. -/
theorem Flagged.keep (hf : Flagged cfg s) (hl : s'.lost = s.lost)
    (hh : ∀ t, HoldsFlag s' t → HoldsFlag s t)
    (hs : ∀ c, (s.slot c).asyncSendFlag = true → (s'.slot c).asyncSendFlag = true)
    (ha : ∀ k, s'.loop k = .active → s.loop k = .active)
    (hst : ∀ k, s'.loop k = .active → ∀ f ∈ s.stack, f.call? = some k → ∃ g ∈ s'.stack, g.call? = some k) :
    Flagged cfg s' := by
  refine ⟨hl.trans hf.lost, fun t ht => hs _ (hf.flag t (hh t ht)), fun k hk => ?_⟩
  obtain ⟨f, hm, hc⟩ := hf.active k (ha k hk)
  exact hst k hk f hm hc

/-- A caller moves to `p`, where it does not depend on its flag. -/
theorem holds_move {k : Nat} {p : Pc Stage} {g : Handoff Nat Stage} (hpc : g.pc = (s.h.setPc k p).pc)
    (hsem : g.sem = s.h.sem) (hp : ∀ a, p = .crit a → a = .flag) (hw : p ≠ .wait) (hs : s'.h = g) (t : Nat)
    (ht : HoldsFlag s' t) : HoldsFlag s t := by
  have hne : t ≠ k := by
    intro heq
    subst heq
    rcases ht with ⟨a, h, ha⟩ | ⟨h, -⟩
    · rw [hs, hpc, Handoff.setPc_same] at h; exact ha (hp a h)
    · rw [hs, hpc, Handoff.setPc_same] at h; exact hw h
  simpa only [HoldsFlag, hs, hpc, Handoff.setPc_ne s.h p hne, hsem] using ht

theorem enter_flagged (hf : Flagged cfg s) {k : Nat} (h : enter cfg s k = some s') : Flagged cfg s' := by
  have h0 : Flagged cfg (storeAddr cfg s k) := by
    unfold storeAddr
    split
    · exact hf
    · exact ⟨hf.lost, hf.flag, hf.active⟩
  revert h
  unfold enter
  generalize storeAddr cfg s k = s at h0
  intro h
  unfold dispatch at h
  split at h
  · split at h
    · rename_i r hst
      split at h
      · rename_i hidle
        have hne : ∀ {j : Nat} {p : LoopPc}, j ≠ k → Function.update s.loop k p j = s.loop j :=
          fun hj => Function.update_of_ne hj _ _
        split at h
        · cases h
          refine h0.keep rfl (fun _ h => h) (fun _ h => h) (fun j hj => ?_) fun j _ f hm hc => ⟨f, hm, hc⟩
          by_cases e : j = k
          · rw [e] at hj; simp at hj
          · simpa only [hne e] using hj
        · cases h
          refine ⟨h0.lost, h0.flag, fun j hj => ?_⟩
          by_cases e : j = k
          · exact ⟨_, List.mem_cons_self, by rw [e]; rfl⟩
          · obtain ⟨f, hm, hc⟩ := h0.active j (by simpa only [hne e] using hj)
            exact ⟨f, List.mem_cons_of_mem _ hm, hc⟩
      · cases h
    · cases h
  · split at h
    · split at h
      · cases h
        exact h0.keep rfl (holds_move rfl rfl (by simp) (by simp) rfl) (fun _ h => h) (fun _ h => h)
          fun _ _ f hm hc => ⟨f, hm, hc⟩
      · cases h
        exact h0.keep rfl (holds_move rfl rfl (by simp) (by simp) rfl) (fun _ h => h) (fun _ h => h)
          fun _ _ f hm hc => ⟨f, hm, hc⟩
    · cases h

theorem callerStep_flagged (hi : Inv cfg s) (hf : Flagged cfg s) {k : Nat} (h : callerStep cfg s k = some s') :
    Flagged cfg s' := by
  -- the holder goes on: whoever depends on a flag afterwards is the holder itself
  have hself : ∀ {g : Handoff Nat Stage} {p : Pc Stage} {t : Nat}, (s.h.pc k).inside = true →
      g.pc = (s.h.setPc k p).pc → (g.pc t).inside = true → t = k := by
    intro g p t hk hpc ht
    by_contra hne
    rw [hpc, Handoff.setPc_ne s.h p hne] at ht
    exact hne (hi.hand.unique ht hk)
  unfold callerStep at h
  cases hp : s.h.pc k with
  | want =>
    rw [hp] at h
    simp only at h
    split at h
    · cases h
      exact hf.keep rfl (holds_move (g := s.h.lock k .flag) rfl rfl (by simp) (by simp) rfl) (fun _ h => h)
        (fun _ h => h) fun _ _ f hm hc => ⟨f, hm, hc⟩
    · cases h
  | crit a =>
    have hin : (s.h.pc k).inside = true := by simp [hp]
    rw [hp] at h
    cases a with
    | flag =>
      cases h
      refine ⟨hf.lost, fun t ht => ?_, hf.active⟩
      rw [hself (g := s.h.goto k .buf) hin rfl ht.inside]
      exact setFlag_same ..
    | buf =>
      cases h
      refine ⟨hf.lost, fun t ht => ?_, hf.active⟩
      rw [hself (g := s.h.goto k .asyncData) hin rfl ht.inside]
      exact (setBuf_flag ..).trans (hf.flag k (.inl ⟨_, hp, by simp⟩))
    | asyncData =>
      cases h
      refine ⟨hf.lost, fun t ht => ?_, hf.active⟩
      rw [hself (g := s.h.goto k .notify) hin rfl ht.inside]
      exact hf.flag k (.inl ⟨_, hp, by simp⟩)
    | notify =>
      cases h
      refine ⟨hf.lost, fun t ht => ?_, hf.active⟩
      rw [hself (g := s.h.notify k) hin rfl ht.inside]
      exact hf.flag k (.inl ⟨_, hp, by simp⟩)
  | wait =>
    have hin : (s.h.pc k).inside = true := by simp [hp]
    rw [hp] at h
    simp only at h
    split at h
    · cases h
      refine ⟨hf.lost, fun t ht => ?_, hf.active⟩
      have e := hself (g := s.h.wake k) hin rfl ht.inside
      rw [e] at ht
      rcases ht with ⟨a, h, -⟩ | ⟨h, -⟩ <;> simp [Handoff.wake] at h
    · cases h
  | woken =>
    rw [hp] at h
    cases h
    exact hf.keep rfl (holds_move (g := s.h.unlock k) rfl rfl (by simp) (by simp) rfl) (fun _ h => h)
      (fun _ h => h) fun _ _ f hm hc => ⟨f, hm, hc⟩
  | _ => rw [hp] at h; cases h

/-- A frame that looks at the flag is done: an off-thread call's flag stands, so its
    post is made. -/
theorem check_flagged (hi : Inv cfg s) (hf : Flagged cfg s) {f : Frame} {r : List Frame} {k c : Nat} {l : Nat → LoopPc}
    (hst : s.stack = f :: r) (hoff : offFrame cfg f = !cfg.onLoop k) (hc : c = cfg.conn k)
    (hw : cfg.onLoop k = false → s.h.pc k = .wait)
    (hl : ∀ j, l j = .active → s.loop j = .active ∧ f.call? ≠ some j) :
    Flagged cfg { checkFlag cfg s k c with stack := r, loop := l } := by
  have hact : ∀ j, l j = .active → ∃ g ∈ r, g.call? = some j := fun j hj => by
    obtain ⟨h1, h2⟩ := hl j hj
    obtain ⟨g, hm, hg⟩ := hf.active j h1
    rw [hst] at hm
    rcases List.mem_cons.mp hm with rfl | hm
    · exact absurd hg h2
    · exact ⟨g, hm, hg⟩
  cases hfl : (s.slot c).asyncSendFlag with
  | true =>
    simp only [checkFlag, hfl, if_true]
    refine ⟨hf.lost, fun t ht => hf.flag t ?_, hact⟩
    rcases ht with ht | ⟨-, hs⟩
    · exact .inl ht
    · exact absurd (show s.h.sem + 1 = 0 from hs) (by omega)
  | false =>
    cases hk : cfg.onLoop k with
    | true =>
      simp only [checkFlag, hfl, hk, Bool.false_eq_true, if_false, if_true]
      exact ⟨hf.lost, hf.flag, hact⟩
    | false =>
      have h1 : 0 < s.stack.countP (offFrame cfg) :=
        List.countP_pos_iff.mpr ⟨f, by rw [hst]; exact List.mem_cons_self, by rw [hoff, hk]; rfl⟩
      have h2 := hi.hand.wait_cases (hw hk)
      have hsem : s.h.sem = 0 := by unfold owed at h2; omega
      have := hf.flag k (.inr ⟨hw hk, hsem⟩)
      rw [← hc, hfl] at this; cases this

theorem sent_flagged (hi : Inv cfg s) (hf : Flagged cfg s) {k c : Nat} {r : List Frame}
    (hst : s.stack = .sent k c :: r) : Flagged cfg { checkFlag cfg s k c with stack := r } := by
  obtain ⟨hc, -, hok⟩ : FrameOk cfg s (.sent k c) := hi.frames _ (by rw [hst]; exact List.mem_cons_self)
  have h1 := check_flagged hi hf (l := s.loop) hst rfl hc (fun hl => by rw [if_neg (by simp [hl])] at hok; exact hok)
    fun j hj => ⟨hj, by simp [Frame.call?]⟩
  have e : (checkFlag cfg s k c).loop = s.loop := by unfold checkFlag; split <;> [rfl; split <;> rfl]
  rw [← e] at h1
  exact h1

theorem onWrite_flagged (hi : Inv cfg s) (hf : Flagged cfg s) {i : Nat} (h : onWrite cfg s i = some s') :
    Flagged cfg s' := by
  obtain ⟨q, hst, hq, hs⟩ := onWrite_cases h
  have hnone : ∀ k, s.loop k ≠ .active := fun k hk => by
    obtain ⟨f, hm, -⟩ := hf.active k hk
    rw [hst] at hm; cases hm
  have h1 : Flagged cfg (completing s i q) :=
    hf.keep rfl (fun _ h => h) (fun _ h => h) (fun _ h => h) fun k hk => absurd hk (hnone k)
  rcases hs with rfl | rfl
  · exact h1.keep rfl (fun _ h => h) (fun _ h => h) (fun _ h => h) fun k hk => absurd hk (hnone k)
  · exact sent_flagged (completing_inv hi hst hq) h1 rfl

theorem loopReturn_active {k j : Nat} (h : loopReturn cfg s k j = .active) :
    s.loop j = .active ∧ (cfg.onLoop k = true → j ≠ k) := by
  unfold loopReturn at h
  split at h
  · rename_i hl
    have hne : j ≠ k := by intro heq; subst heq; simp at h
    rw [Function.update_of_ne hne] at h
    exact ⟨h, fun _ => hne⟩
  · rename_i hl
    exact ⟨h, fun h' => absurd h' hl⟩

theorem loopStep_flagged (hi : Inv cfg s) (hf : Flagged cfg s) {malloc accepted : Bool}
    (hk : flagKept cfg s (.loop malloc accepted) = true) (ha : acceptedStep s (.loop malloc accepted) = true)
    (h : loopStep cfg s malloc accepted = some s') : Flagged cfg s' := by
  -- an off-thread call has no frame that `active` speaks of
  have hoff : ∀ {k c j : Nat} {r : List Frame}, s.stack = .sendData k c :: r ∨ s.stack = .sendFailed k c :: r →
      loopReturn cfg s k j = .active → j ≠ k := by
    intro k c j r hst hj e
    obtain ⟨h1, h2⟩ := loopReturn_active hj
    subst e
    cases hl : cfg.onLoop j with
    | true => exact h2 hl rfl
    | false =>
      have := (hi.loops j).on (by rw [h1]; simp)
      rw [hl] at this; cases this
  unfold loopStep at h
  split at h
  · rename_i k r hst
    cases h
    refine ⟨hf.lost, fun t ht => ?_, fun j hj => ?_⟩
    · show (setFlag s.slot (cfg.conn k) false (cfg.conn t)).asyncSendFlag = true
      rw [setFlag_apply, if_neg]
      · exact hf.flag t ht
      · intro e
        have h1 := needsFlag_of hi (s := s) (t := t) ht
        simp only [flagKept, hst, ← e, h1] at hk
        cases hk
    · obtain ⟨f, hm, hc⟩ := hf.active j hj
      rw [hst] at hm
      rcases List.mem_cons.mp hm with rfl | hm
      · exact ⟨_, List.mem_cons_self, hc⟩
      · exact ⟨f, List.mem_cons_of_mem _ hm, hc⟩
  · rename_i k r hst
    cases h
    refine hf.keep rfl (fun _ h => h) (fun c hc => by rw [setBuf_flag]; exact hc) (fun _ h => h) fun j _ f hm hc => ?_
    rw [hst] at hm
    rcases List.mem_cons.mp hm with rfl | hm
    · exact ⟨_, List.mem_cons_self, hc⟩
    · exact ⟨f, List.mem_cons_of_mem _ hm, hc⟩
  · rename_i k c r hst
    split at h
    · rename_i hm
      have ha : accepted = true := by simpa [acceptedStep, hst, hm] using ha
      cases h
      refine hf.keep (by simp [submit, ha]) (fun _ h => h) (fun _ h => h) (fun j hj => (loopReturn_active hj).1)
        fun j hj f hm hc => ?_
      rw [hst] at hm
      rcases List.mem_cons.mp hm with rfl | hm
      · cases hc; exact absurd rfl (hoff (.inl hst) hj)
      · exact ⟨f, hm, hc⟩
    · cases h
      refine hf.keep rfl (fun _ h => h) (fun _ h => h) (fun _ h => h) fun j _ f hm hc => ?_
      rw [hst] at hm
      rcases List.mem_cons.mp hm with rfl | hm
      · exact ⟨.sendFailed k c, List.mem_cons_of_mem _ List.mem_cons_self, hc⟩
      · exact ⟨f, List.mem_cons_of_mem _ (List.mem_cons_of_mem _ hm), hc⟩
  · rename_i k c r hst
    cases h
    obtain ⟨hc, -, hok⟩ : FrameOk cfg s (.sendFailed k c) := hi.frames _ (by rw [hst]; exact List.mem_cons_self)
    exact check_flagged hi hf hst rfl hc (fun hl => by rw [if_neg (by simp [hl])] at hok; exact hok)
      fun j hj => ⟨(loopReturn_active hj).1, fun e => by cases e; exact hoff (.inr hst) hj rfl⟩
  · rename_i k c r hst; cases h; exact sent_flagged hi hf hst
  · cases h

theorem step_flagged (hi : Inv cfg s) (hf : Flagged cfg s) {e : Ev} (hk : flagKept cfg s e = true)
    (ha : acceptedStep s e = true) (h : step cfg s e = some s') : Flagged cfg s' := by
  cases e with
  | callback =>
    simp only [step] at h
    split at h
    · rename_i hst
      cases h
      refine hf.keep rfl (fun _ h => h) (fun _ h => h) (fun _ h => h) fun j _ f hm => ?_
      rw [hst] at hm; cases hm
    · cases h
  | ret =>
    simp only [step] at h
    split at h
    · rename_i r hst
      cases h
      refine hf.keep rfl (fun _ h => h) (fun _ h => h) (fun _ h => h) fun j _ f hm hc => ?_
      rw [hst] at hm
      rcases List.mem_cons.mp hm with rfl | hm
      · cases hc
      · exact ⟨f, hm, hc⟩
    · cases h
  | call k => exact enter_flagged hf h
  | caller k => exact callerStep_flagged hi hf h
  | asyncSend =>
    simp only [step, asyncSendCb] at h
    split at h
    · rename_i hg
      rw [(hi.pend hg.2).2] at h
      cases h
      refine hf.keep rfl (fun _ h => h) (fun _ h => h) (fun _ h => h) fun j _ f hm => ?_
      rw [hg.1] at hm; cases hm
    · cases h
  | loop malloc accepted => exact loopStep_flagged hi hf hk ha h
  | written i => exact onWrite_flagged hi hf h

theorem init_flagged (addr : δ) : Flagged cfg (init addr) := by
  refine ⟨rfl, fun t ht => ?_, fun k hk => by cases hk⟩
  rcases ht with ⟨a, h, -⟩ | ⟨h, -⟩ <;> cases h

theorem reach_flagged [DecidableEq δ] {addr : δ} {ok : St δ → Ev → Prop}
    (hok : ∀ s e, ok s e → apart cfg s e = true ∧ flagKept cfg s e = true ∧ acceptedStep s e = true)
    (hr : Reach (step cfg) ok (init addr) s) : Inv cfg s ∧ Flagged cfg s := by
  refine hr.invariant (P := fun s => Inv cfg s ∧ Flagged cfg s) ⟨init_inv cfg addr, init_flagged addr⟩
    fun s e s' hs he h => ?_
  obtain ⟨h1, h2, h3⟩ := hok s e he
  exact ⟨step_inv hs.1 h1 h, step_flagged hs.1 hs.2 h2 h3 h⟩

/-! ## No call is stuck -/

/-- A frame on the stack goes on. -/
theorem frame_goes_on {f : Frame} {r : List Frame} (hst : s.stack = f :: r) :
    ∃ e, e.goesOn = true ∧ (step cfg s e).isSome = true := by
  cases f with
  | user => exact ⟨.ret, rfl, by simp [step, hst]⟩
  | sync k a => refine ⟨.loop true true, rfl, ?_⟩; cases a <;> simp [step, loopStep, hst]
  | _ => exact ⟨.loop true true, rfl, by simp [step, loopStep, hst]⟩

/-- The mutex's holder goes on, or waits for a post that is on its way. -/
theorem holder_goes_on (hi : Inv cfg s) (hf : Flagged cfg s) (hst : s.stack = []) {t : Nat}
    (hin : (s.h.pc t).inside = true) : ∃ e, e.goesOn = true ∧ (step cfg s e).isSome = true := by
  cases hp : s.h.pc t with
  | crit a => exact ⟨.caller t, rfl, by cases a <;> simp [step, callerStep, hp]⟩
  | woken => exact ⟨.caller t, rfl, by simp [step, callerStep, hp]⟩
  | wait =>
    have hc := hi.hand.wait_cases hp
    rw [hf.lost] at hc
    by_cases hs : 0 < s.h.sem
    · exact ⟨.caller t, rfl, by simp [step, callerStep, hp, hs]⟩
    · cases hpend : s.h.pending with
      | true => exact ⟨.asyncSend, rfl, by simp [step, asyncSendCb, hst, hpend, (hi.pend hpend).2]⟩
      | false =>
        have howed : 0 < owed cfg s := by rw [hpend, Bool.toNat_false] at hc; omega
        simp only [owed, hst, List.countP_nil, Nat.zero_add] at howed
        have hlen : 0 < s.inflight.length := Nat.lt_of_lt_of_le howed List.countP_le_length
        exact ⟨.written 0, rfl, by simp [step, onWrite, hst, List.getElem?_eq_getElem hlen]⟩
  | _ => rw [hp] at hin; cases hin

theorem goes_on (hi : Inv cfg s) (hf : Flagged cfg s) {k : Nat} (hr : running s k) :
    ∃ e, e.goesOn = true ∧ (step cfg s e).isSome = true := by
  cases hst : s.stack with
  | cons f r => exact frame_goes_on hst
  | nil =>
    rcases hr with ⟨h1, h2⟩ | hl
    · cases hm : s.h.mutex with
      | some t => exact holder_goes_on hi hf hst ((hi.hand.holder t).mpr hm)
      | none =>
        cases hp : s.h.pc k with
        | idle => exact absurd hp h1
        | ret => exact absurd hp h2
        | want => exact ⟨.caller k, rfl, by simp [step, callerStep, hp, hm]⟩
        | _ =>
          have := (hi.hand.holder k).mp (by simp [hp])
          rw [hm] at this; cases this
    · obtain ⟨f, hm, -⟩ := hf.active k hl
      rw [hst] at hm; cases hm

/-! ## Waiting callers -/

def inAsyncSend (s : St δ) (k : Nat) : Prop := ∃ c, Frame.sendData k c ∈ s.stack ∨ Frame.sendFailed k c ∈ s.stack

/-- A submission made for call `k` has not completed, or its completion is running, and the flag
    stands for it to post. -/
def owedCompletion (s : St δ) (k : Nat) : Prop :=
  (∃ r ∈ s.inflight, r.call = k ∧ (s.slot r.conn).asyncSendFlag = true) ∨
    ∃ c, Frame.sent k c ∈ s.stack ∧ (s.slot c).asyncSendFlag = true

/-- Whoever waits has a post, or one that is on its way. -/
def NoStranded (s : St δ) : Prop :=
  ∀ k, s.h.pc k = .wait → 0 < s.h.sem ∨ s.h.pending = true ∨ inAsyncSend s k ∨ owedCompletion s k

theorem noStranded (hi : Inv cfg s) (hf : Flagged cfg s) : NoStranded s := by
  intro k hw
  have hc := hi.hand.wait_cases hw
  rw [hf.lost] at hc
  by_cases hs : 0 < s.h.sem
  · exact .inl hs
  · have hflag := hf.flag k (.inr ⟨hw, by omega⟩)
    -- a frame or a request of an off-thread call is the waiting call's
    have hself : ∀ {u}, s.h.pc u = .wait → u = k := fun hu => hi.hand.unique (by simp [hu]) (by simp [hw])
    cases hp : s.h.pending with
    | true => exact .inr (.inl rfl)
    | false =>
      refine .inr (.inr ?_)
      have howed : owed cfg s = 1 := by rw [hp, Bool.toNat_false] at hc; omega
      unfold owed at howed
      by_cases hst : 0 < s.stack.countP (offFrame cfg)
      · obtain ⟨f, hm, ho⟩ := List.countP_pos_iff.mp hst
        have hok := hi.frames f hm
        cases f with
        | user => cases ho
        | sync u a => cases ho
        | sendData u c =>
          have h := hok.2
          rw [if_neg (by simpa [offFrame] using ho)] at h
          exact .inl ⟨c, .inl (hself h.1 ▸ hm)⟩
        | sendFailed u c =>
          have h := hok.2.2
          rw [if_neg (by simpa [offFrame] using ho)] at h
          exact .inl ⟨c, .inr (hself h ▸ hm)⟩
        | sent u c =>
          obtain ⟨hc, -, h⟩ := hok
          rw [if_neg (by simpa [offFrame] using ho)] at h
          have e := hself h
          rw [e] at hm hc
          exact .inr (.inr ⟨c, hm, by rw [hc]; exact hflag⟩)
      · have hreq : 0 < s.inflight.countP fun r => !cfg.onLoop r.call := by omega
        obtain ⟨r, hm, ho⟩ := List.countP_pos_iff.mp hreq
        obtain ⟨hc, -, h⟩ := hi.reqs r hm
        rw [if_neg (by simpa using ho)] at h
        have e := hself h
        exact .inr (.inl ⟨r, hm, e, by rw [hc, e]; exact hflag⟩)

theorem stranded_of_quiet {k : Nat} (hw : s.h.pc k = .wait) (hs : s.h.sem = 0) (hp : s.h.pending = false)
    (hst : s.stack = []) (hq : s.inflight = []) : ¬ NoStranded s := by
  intro h
  rcases h k hw with h | h | ⟨c, h⟩ | ⟨r, h, -⟩ | ⟨c, h, -⟩
  · omega
  · rw [hp] at h; cases h
  · rw [hst] at h; simp at h
  · rw [hq] at h; cases h
  · rw [hst] at h; cases h

/-- A refused submission strands the off-thread call it is made for. -/
theorem refused_strands (hi : Inv cfg s) {k c : Nat} {r : List Frame} (hst : s.stack = .sendData k c :: r)
    (hl : cfg.onLoop k = false) : ¬ NoStranded (submit cfg s k c r false) := by
  intro h
  have hw : s.h.pc k = .wait := (hi.sending hst).2.2.2.2 hl
  have hone : owed cfg s = r.countP (offFrame cfg) + s.inflight.countP (fun r => !cfg.onLoop r.call) + 1 := by
    simp [owed, hst, offFrame, hl]; omega
  obtain ⟨-, hp, hrest, hs, -⟩ := Handoff.Inv.owed_wait (hone ▸ hi.hand)
  have hfr : ∀ f ∈ r, offFrame cfg f = false := by
    have h0 : r.countP (offFrame cfg) = 0 := by omega
    intro f hf
    simpa using (List.countP_eq_zero.mp h0) f hf
  have hrq : ∀ q ∈ s.inflight, q.call ≠ k := by
    have h0 : s.inflight.countP (fun r => !cfg.onLoop r.call) = 0 := by omega
    intro q hq heq
    subst heq
    have := (List.countP_eq_zero.mp h0) q hq
    rw [hl] at this
    exact this rfl
  have hno : ∀ f ∈ r, offFrame cfg f = !cfg.onLoop k → False := fun f hf he => by
    rw [hfr f hf, hl] at he; cases he
  rcases h k hw with h | h | ⟨d, h | h⟩ | ⟨q, hq, he, -⟩ | ⟨d, h, -⟩
  · exact absurd (show 0 < s.h.sem from h) (by omega)
  · rw [show s.h.pending = true from h] at hp; cases hp
  · exact hno _ h rfl
  · exact hno _ h rfl
  · exact hrq q (by simpa [submit] using hq) he
  · exact hno _ h rfl

/-! ## Off-thread calls only -/

theorem no_sync (hoff : ∀ k, cfg.onLoop k = false) (hi : Inv cfg s) {k : Nat} {a : SyncStage} {r : List Frame} :
    s.stack ≠ .sync k a :: r := fun hst => by
  obtain ⟨h, -⟩ : FrameOk cfg s (.sync k a) := hi.frames _ (by rw [hst]; exact List.mem_cons_self)
  rw [hoff k] at h; cases h

/-- With one destination for all, no call can be for another's. -/
theorem apart_call [DecidableEq δ] [Subsingleton δ] (k : Nat) : apart cfg s (.call k) = true := by
  have : ∀ j ∈ s.live, (cfg.dest j == cfg.dest k) = true := fun j _ => by
    rw [beq_iff_eq]
    exact Subsingleton.elim ..
  simp only [apart, List.all_eq_true.mpr this, Bool.or_true]

/-- With no loop-thread calls nothing is in another call's way. -/
theorem apart_of_off [DecidableEq δ] [Subsingleton δ] (hoff : ∀ k, cfg.onLoop k = false) (hi : Inv cfg s) (e : Ev) :
    apart cfg s e = true := by
  have hframe : ∀ c f, f ∈ s.stack → loopFrame cfg c f = false := fun c f hf => by
    cases f with
    | user => rfl
    | sync k a =>
      obtain ⟨h, -⟩ : FrameOk cfg s (.sync k a) := hi.frames _ hf
      rw [hoff k] at h; cases h
    | _ => simp [loopFrame, hoff]
  cases e with
  | call k => exact apart_call k
  | caller k =>
    simp only [apart]
    split
    · simp only [loopBusy, hoff, Bool.false_and, Bool.not_eq_true', Bool.or_eq_false_iff, List.any_eq_false]
      exact ⟨fun f hf => by simp [hframe _ f hf], fun _ _ => by simp⟩
    · simp only [loopReady, Bool.not_eq_true', List.any_eq_false]
      intro f _
      cases f <;> simp [hoff]
    · rfl
  | loop malloc accepted =>
    simp only [apart]
    split
    · rename_i hst; exact absurd hst (no_sync hoff hi)
    · rfl
  | _ => rfl

theorem flagKept_of_off (hoff : ∀ k, cfg.onLoop k = false) (hi : Inv cfg s) (e : Ev) : flagKept cfg s e = true := by
  cases e with
  | loop malloc accepted =>
    simp only [flagKept]
    split
    · rename_i hst; exact absurd hst (no_sync hoff hi)
    · rfl
  | _ => rfl

end UvWrapper.Net.SendPath
