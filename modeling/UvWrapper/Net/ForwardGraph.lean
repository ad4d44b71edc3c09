/-
  UvWrapper.Net.ForwardGraph — any number of TCP servers, each on a loop thread of its own, whose
  callbacks forward to connections of other servers with tcp_server_send_data.

  Each server has the send path of `UvWrapper.Net.SendPath`; a forward is a call on the target's
  server by the thread of the source's loop, which stands still until the call returns
  (`UvWrapper.Net.Forward` has two servers). Which loop makes which call is in `Servers.src`: loop
  i forwards to server j if it makes a call on it that is not turned back at the NULL check. Connections stay
  open, so that every uv_write takes its write.

  Who waits for whom: a loop inside a forward waits for the caller before it at the target's
  mutex, or for a post of the target's loop; a loop waits for nobody while it is in no forward.

  Proved, for finitely many loops: from every reachable state the steps that begin nothing new can bring every
  loop out of its forward, if and only if the forwards have no cycle (`completes_iff`). Each of these steps
  lowers a measure, so that they come to an end in any order (`work_lowers`); on a cycle, all its
  loops can get into forwards that no step whatever ends (`cycle_blocks`).
-/

import UvWrapper.Lib.WaitGraph
import UvWrapper.Net.Forward
import UvWrapper.Net.SendPathOrder
import UvWrapper.Net.SendPathPost

namespace UvWrapper.Net.ForwardGraph

open UvWrapper.Lib UvWrapper.Lib.Trace UvWrapper.Lib.WaitGraph
open UvWrapper.Net.SendPath (Cfg Frame Stage)
open UvWrapper.Net.Forward (Data isCall)

/-! ## Servers -/

structure Servers (ι : Type) where
  /-- The threads of the loops. -/
  tid : ι → Nat
  threads : Function.Injective tid
  /-- The loop whose callback makes call `k` on server `j`. -/
  src : ι → Nat → ι
  others : ∀ j k, src j k ≠ j
  data : ι → Nat → Data

variable {ι : Type} [DecidableEq ι]

namespace Servers

variable (n : Servers ι)

def server (j : ι) : Cfg Unit :=
  ⟨n.tid j, fun k => ⟨n.tid (n.src j k), (n.data j k).conn, (n.data j k).base, (n.data j k).size, ()⟩, false⟩

def Forwards (i j : ι) : Prop := ∃ k, n.src j k = i ∧ (n.server j).null k = false

end Servers

structure St (ι : Type) where
  srv : ι → SendPath.St Unit
  /-- The server and the call that the loop's callback is inside. -/
  fwd : ι → Option (ι × Nat)

def init : St ι := ⟨fun _ => SendPath.init (), fun _ => none⟩

inductive Ev (ι : Type) where
  /-- A step of loop `i`, outside any forward. -/
  | loop (i : ι) (e : SendPath.Ev)
  /-- A callback of its source's loop makes call `k` on server `j`. -/
  | forward (j : ι) (k : Nat)
  /-- The next step of the call that loop `i` is inside. -/
  | caller (i : ι)

variable (n : Servers ι)

def called (s : St ι) (i j : ι) (k : Nat) (t : SendPath.St Unit) : St ι :=
  ⟨Function.update s.srv j t, Function.update s.fwd i (if t.h.pc k = .ret then none else some (j, k))⟩

def step (s : St ι) : Ev ι → Option (St ι)
  | .loop i e =>
    if s.fwd i = none ∧ isCall e = false then
      (SendPath.step (n.server i) (s.srv i) e).map fun t => { s with srv := Function.update s.srv i t }
    else none
  | .forward j k =>
    if s.fwd (n.src j k) = none ∧ (s.srv (n.src j k)).stack.head? = some .user then
      (SendPath.step (n.server j) (s.srv j) (.call k)).map (called s (n.src j k) j k)
    else none
  | .caller i =>
    (s.fwd i).bind fun f => (SendPath.step (n.server f.1) (s.srv f.1) (.caller f.2)).map (called s i f.1 f.2)

def Accepted (s : St ι) : Ev ι → Prop
  | .loop i e => SendPath.acceptedStep (s.srv i) e = true
  | _ => True

def Ev.goesOn : Ev ι → Bool
  | .loop _ e => e.goesOn
  | .forward _ _ => false
  | .caller _ => true

def work (s : St ι) (e : Ev ι) : Option (St ι) := if e.goesOn then step n s e else none

/-! ## One server's steps -/

section OneServer

variable {cfg : Cfg Unit} {s t : SendPath.St Unit} {e : SendPath.Ev} {k : Nat}

/-- The loop's steps leave the callers where they are. -/
theorem loop_pc (he : isCall e = false) (h : SendPath.step cfg s e = some t) : t.h.pc = s.h.pc := by
  cases e with
  | callback =>
    simp only [SendPath.step] at h
    split at h <;> cases h
    rfl
  | ret =>
    simp only [SendPath.step] at h
    split at h <;> cases h
    rfl
  | call k => cases he
  | caller k => cases he
  | asyncSend =>
    simp only [SendPath.step, SendPath.asyncSendCb] at h
    split at h
    · obtain ⟨c, -, rfl⟩ := Option.map_eq_some_iff.mp h
      rfl
    · cases h
  | loop malloc accepted =>
    simp only [SendPath.step, SendPath.loopStep] at h
    split at h
    · cases h; rfl
    · cases h; rfl
    · split at h <;> cases h <;> rfl
    · cases h; exact (SendPath.checkFlag_same ..).1
    · cases h; exact (SendPath.checkFlag_same ..).1
    · cases h
  | written i =>
    obtain ⟨q, -, -, rfl | rfl⟩ := SendPath.onWrite_cases h
    · rfl
    · exact (SendPath.checkFlag_same ..).1

def rank : Pc Stage → Nat
  | .idle => 15
  | .want => 14
  | .crit .flag => 13
  | .crit .buf => 12
  | .crit .asyncData => 11
  | .crit .notify => 10
  | .wait => 3
  | .woken => 2
  | .ret => 0

def weight : Frame → Nat
  | .user => 1
  | .sync _ .flag => 8
  | .sync _ .buf => 7
  | .sendData _ _ => 5
  | .sendFailed _ _ => 1
  | .sent _ _ => 1

def weights : List Frame → Nat
  | [] => 0
  | f :: r => weight f + weights r

/-- What the loop has to do until it is idle. -/
def load (s : SendPath.St Unit) : Nat := weights s.stack + 4 * s.inflight.length + 6 * s.h.pending.toNat

theorem load_checkFlag (cfg : Cfg Unit) (s : SendPath.St Unit) (k c : Nat) (r : List Frame) :
    load { SendPath.checkFlag cfg s k c with stack := r } = load { s with stack := r } := by
  unfold SendPath.checkFlag
  split
  · rfl
  · split <;> rfl

theorem loop_lowers (hcb : cfg.writeCb = false) (he : isCall e = false) (hg : e.goesOn = true)
    (h : SendPath.step cfg s e = some t) : load t < load s := by
  cases e with
  | callback => cases hg
  | call k => cases he
  | caller k => cases he
  | ret =>
    simp only [SendPath.step] at h
    split at h
    · rename_i r hst
      cases h
      simp only [load, hst, weights, weight]
      omega
    · cases h
  | asyncSend =>
    simp only [SendPath.step, SendPath.asyncSendCb] at h
    split at h
    · rename_i hp
      obtain ⟨c, -, rfl⟩ := Option.map_eq_some_iff.mp h
      simp only [load, hp.1, hp.2, Handoff.take_pending, Bool.toNat_true, Bool.toNat_false, weights, weight]
      omega
    · cases h
  | loop malloc accepted =>
    simp only [SendPath.step, SendPath.loopStep] at h
    split at h
    · rename_i k r hst
      cases h
      simp only [load, hst, weights, weight]
      omega
    · rename_i k r hst
      cases h
      simp only [load, hst, weights, weight]
      omega
    · rename_i k c r hst
      split at h
      · cases h
        simp only [load, SendPath.submit, hst, weights, weight]
        split
        · rw [List.length_append, List.length_singleton]
          omega
        · omega
      · cases h
        simp only [load, hst, weights, weight]
        omega
    · rename_i k c r hst
      cases h
      have hl := load_checkFlag cfg s k c r
      simp only [load, hst, weights, weight] at hl ⊢
      omega
    · rename_i k c r hst
      cases h
      have hl := load_checkFlag cfg s k c r
      simp only [load, hst, weights, weight] at hl ⊢
      omega
    · cases h
  | written i =>
    simp only [SendPath.step, SendPath.onWrite] at h
    split at h
    · rename_i hst
      obtain ⟨q, hq, ht⟩ := Option.map_eq_some_iff.mp h
      rw [if_neg (by rw [hcb]; exact Bool.false_ne_true)] at ht
      have hi : i < s.inflight.length := (List.getElem?_eq_some_iff.mp hq).1
      have hlen : (s.inflight.eraseIdx i).length + 1 = s.inflight.length := by
        rw [List.length_eraseIdx_of_lt hi]
        omega
      have hl := load_checkFlag cfg { s with inflight := s.inflight.eraseIdx i, completed := s.completed ++ [q] } q.call
        q.conn s.stack
      subst ht
      have hstack : ∀ u : SendPath.St Unit, (SendPath.checkFlag cfg u q.call q.conn).stack = u.stack := fun u => by
        unfold SendPath.checkFlag
        split
        · rfl
        · split <;> rfl
      simp only [load, hstack] at hl ⊢
      omega
    · cases h

/-- What a step of call `k` does. -/
structure Moved (s t : SendPath.St Unit) (k : Nat) : Prop where
  others : ∀ u, u ≠ k → t.h.pc u = s.h.pc u
  begun : t.h.pc k ≠ .idle
  stack : t.stack = s.stack
  lowers : load t + rank (t.h.pc k) < load s + rank (s.h.pc k)
  /-- Without a post nobody gets past the semaphore. -/
  stays : s.h.sem = 0 → s.h.pc k ≠ .woken → t.h.sem = 0 ∧ t.h.pc k ≠ .woken ∧ t.h.pc k ≠ .ret

theorem moved_of {p : Pc Stage} {h : Handoff Nat Stage} {k : Nat} (ht : t.h = h) (hst : t.stack = s.stack)
    (hin : t.inflight = s.inflight) (hpc : h.pc = (s.h.setPc k p).pc) (hi : p ≠ .idle)
    (hl : 6 * h.pending.toNat + rank p < 6 * s.h.pending.toNat + rank (s.h.pc k))
    (hs : s.h.sem = 0 → s.h.pc k ≠ .woken → h.sem = 0 ∧ p ≠ .woken ∧ p ≠ .ret) : Moved s t k := by
  have hk : t.h.pc k = p := by rw [ht, hpc, Handoff.setPc_same]
  refine ⟨fun u hu => ?_, hk ▸ hi, hst, ?_, fun h1 h2 => ?_⟩
  · rw [ht, hpc, Handoff.setPc_ne _ _ hu]
  · rw [hk]
    unfold load
    rw [hst, hin, ht]
    omega
  · rw [hk, ht]
    exact hs h1 h2

theorem caller_moved (h : SendPath.step cfg s (.caller k) = some t) : Moved s t k := by
  simp only [SendPath.step, SendPath.callerStep] at h
  have hp1 : s.h.pending.toNat ≤ 1 := Bool.toNat_le _
  split at h
  · rename_i hp
    split at h <;> cases h
    exact moved_of rfl rfl rfl rfl (fun h => by cases h) (by rw [hp]; simp [Handoff.lock, rank])
      fun h1 _ => ⟨h1, by simp, by simp⟩
  · rename_i hp
    cases h
    exact moved_of rfl rfl rfl rfl (fun h => by cases h) (by rw [hp]; simp [Handoff.goto, rank])
      fun h1 _ => ⟨h1, by simp, by simp⟩
  · rename_i hp
    cases h
    exact moved_of rfl rfl rfl rfl (fun h => by cases h) (by rw [hp]; simp [Handoff.goto, rank])
      fun h1 _ => ⟨h1, by simp, by simp⟩
  · rename_i hp
    cases h
    exact moved_of rfl rfl rfl rfl (fun h => by cases h) (by rw [hp]; simp [Handoff.goto, rank])
      fun h1 _ => ⟨h1, by simp, by simp⟩
  · rename_i hp
    cases h
    exact moved_of rfl rfl rfl rfl (fun h => by cases h) (by rw [hp]; simp only [Handoff.notify, rank, Bool.toNat_true]; omega)
      fun h1 _ => ⟨h1, by simp, by simp⟩
  · rename_i hp
    split at h
    · rename_i hsem
      cases h
      exact moved_of rfl rfl rfl rfl (fun h => by cases h) (by rw [hp]; simp [Handoff.wake, rank]) fun h1 _ => by omega
    · cases h
  · rename_i hp
    cases h
    exact moved_of rfl rfl rfl rfl (fun h => by cases h) (by rw [hp]; simp [Handoff.unlock, rank])
      fun _ h2 => absurd hp h2
  · cases h

theorem call_begins (hl : cfg.onLoop k = false) (h : SendPath.step cfg s (.call k) = some t) :
    s.h.pc k = .idle ∧ t.h = s.h.setPc k (if cfg.null k then .ret else .want) ∧ t.stack = s.stack := by
  have h0 : (SendPath.storeAddr cfg s k).h = s.h ∧ (SendPath.storeAddr cfg s k).stack = s.stack := by
    unfold SendPath.storeAddr
    split <;> exact ⟨rfl, rfl⟩
  simp only [SendPath.step, SendPath.enter, SendPath.dispatch, hl, Bool.false_eq_true, if_false] at h
  rw [h0.1] at h
  split at h
  · rename_i hp
    refine ⟨hp, ?_⟩
    split at h
    · rename_i hn
      cases h
      rw [if_pos hn]
      exact ⟨rfl, h0.2⟩
    · rename_i hn
      cases h
      rw [if_neg hn]
      exact ⟨rfl, h0.2⟩
  · cases h

end OneServer

/-! ## The invariant -/

variable {n} {s s' : St ι} {e : Ev ι} {i j : ι} {k : Nat}

structure Inv (n : Servers ι) (s : St ι) : Prop where
  server : ∀ j, SendPath.Inv (n.server j) (s.srv j) ∧ SendPath.Flagged (n.server j) (s.srv j)
  /-- A loop inside a forward makes a call that has begun and has not returned, and every such call is one's. -/
  inside : ∀ i j k, s.fwd i = some (j, k) → n.src j k = i ∧ (n.server j).null k = false ∧
    (s.srv j).h.pc k ≠ .idle ∧ (s.srv j).h.pc k ≠ .ret
  owner : ∀ j k, (s.srv j).h.pc k ≠ .idle → (s.srv j).h.pc k ≠ .ret → s.fwd (n.src j k) = some (j, k)

omit [DecidableEq ι] in
theorem init_inv (n : Servers ι) : Inv n (init : St ι) := by
  refine ⟨fun j => ⟨SendPath.init_inv _ (), SendPath.init_flagged ()⟩, ?_, ?_⟩
  · intro i j k h
    cases h
  · intro j k h
    exact absurd rfl h

omit [DecidableEq ι] in
/-- No server's loop calls its own server. -/
theorem off_loop (n : Servers ι) (j : ι) (k : Nat) : (n.server j).onLoop k = false := by
  have : n.tid j ≠ n.tid (n.src j k) := fun h => n.others j k (n.threads h).symm
  simpa [Servers.server, Cfg.onLoop] using this

omit [DecidableEq ι] in
/-- A server's part of a step. -/
theorem server_step (hi : Inv n s) (j : ι) {f : SendPath.Ev} {t : SendPath.St Unit}
    (ha : SendPath.acceptedStep (s.srv j) f = true) (h : SendPath.step (n.server j) (s.srv j) f = some t) :
    SendPath.Inv (n.server j) t ∧ SendPath.Flagged (n.server j) t := by
  obtain ⟨h1, h2⟩ := hi.server j
  exact ⟨SendPath.step_inv h1 (SendPath.apart_of_off (off_loop n j) h1 f) h,
    SendPath.step_flagged h1 h2 (SendPath.flagKept_of_off (off_loop n j) h1 f) ha h⟩

theorem update_server {P : ι → SendPath.St Unit → Prop} (hi : ∀ j, P j (s.srv j)) {t : SendPath.St Unit} (ht : P i t)
    (j : ι) : P j (Function.update s.srv i t j) := by
  by_cases h : j = i
  · subst h
    rwa [Function.update_self]
  · rw [Function.update_of_ne h]
    exact hi j

theorem loop_inv (hi : Inv n s) {f : SendPath.Ev} (he : isCall f = false) {t : SendPath.St Unit}
    (ha : SendPath.acceptedStep (s.srv i) f = true) (h : SendPath.step (n.server i) (s.srv i) f = some t) :
    Inv n { s with srv := Function.update s.srv i t } := by
  have hpc : ∀ j, (Function.update s.srv i t j).h.pc = (s.srv j).h.pc := fun j => by
    by_cases hj : j = i
    · subst hj
      rw [Function.update_self]
      exact loop_pc he h
    · rw [Function.update_of_ne hj]
  refine ⟨update_server (P := fun j t => SendPath.Inv (n.server j) t ∧ SendPath.Flagged (n.server j) t) hi.server
    (server_step hi i ha h), ?_, ?_⟩
  · intro l j k hf
    show _ ∧ _ ∧ (Function.update s.srv i t j).h.pc k ≠ .idle ∧ (Function.update s.srv i t j).h.pc k ≠ .ret
    rw [hpc]
    exact hi.inside l j k hf
  · intro j k h1 h2
    have h1 : (Function.update s.srv i t j).h.pc k ≠ .idle := h1
    have h2 : (Function.update s.srv i t j).h.pc k ≠ .ret := h2
    rw [hpc] at h1 h2
    exact hi.owner j k h1 h2

/-- Loop i makes a step of the call that it is inside, or begins it. -/
theorem called_inv (hi : Inv n s) {t : SendPath.St Unit} (hsrc : n.src j k = i)
    (hfwd : s.fwd i = none ∨ s.fwd i = some (j, k)) (hn : (n.server j).null k = false ∨ t.h.pc k = .ret)
    (ht : SendPath.Inv (n.server j) t ∧ SendPath.Flagged (n.server j) t)
    (hothers : ∀ u, u ≠ k → t.h.pc u = (s.srv j).h.pc u)
    (hbegun : t.h.pc k ≠ .idle) : Inv n (called s i j k t) := by
  have hself : (called s i j k t).srv j = t := Function.update_self ..
  have hother : ∀ l, l ≠ j → (called s i j k t).srv l = s.srv l := fun l hl => Function.update_of_ne hl ..
  have hfself : (called s i j k t).fwd i = if t.h.pc k = .ret then none else some (j, k) := Function.update_self ..
  have hfother : ∀ l, l ≠ i → (called s i j k t).fwd l = s.fwd l := fun l hl => Function.update_of_ne hl ..
  refine ⟨update_server (P := fun j t => SendPath.Inv (n.server j) t ∧ SendPath.Flagged (n.server j) t)
    hi.server ht, ?_, ?_⟩
  · intro l j' k' hf
    by_cases hl : l = i
    · subst hl
      rw [hfself] at hf
      split at hf
      · cases hf
      · rename_i hr
        cases hf
        rw [hself]
        exact ⟨hsrc, hn.resolve_right hr, hbegun, hr⟩
    · rw [hfother l hl] at hf
      obtain ⟨h1, h2, h3⟩ := hi.inside l j' k' hf
      refine ⟨h1, h2, ?_⟩
      by_cases hj : j' = j
      · subst hj
        have hk : k' ≠ k := fun e => hl (by rw [← h1, e, hsrc])
        rw [hself, hothers k' hk]
        exact h3
      · rw [hother j' hj]
        exact h3
  · intro j' k' h1 h2
    -- another call is not loop i's
    have hne : s.fwd (n.src j' k') = some (j', k') → (j', k') ≠ (j, k) → n.src j' k' ≠ i := fun hf hjk e => by
      rw [e] at hf
      rcases hfwd with h | h
      · rw [h] at hf
        cases hf
      · rw [h] at hf
        exact hjk (Option.some.inj hf).symm
    by_cases hj : j' = j
    · subst hj
      rw [hself] at h1 h2
      by_cases hk : k' = k
      · subst hk
        rw [hsrc, hfself, if_neg h2]
      · rw [hothers k' hk] at h1 h2
        have hf := hi.owner j' k' h1 h2
        rw [hfother _ (hne hf fun e => hk (Prod.mk.inj e).2)]
        exact hf
    · rw [hother j' hj] at h1 h2
      have hf := hi.owner j' k' h1 h2
      rw [hfother _ (hne hf fun e => hj (Prod.mk.inj e).1)]
      exact hf

theorem step_inv (hi : Inv n s) (ha : Accepted s e) (h : step n s e = some s') : Inv n s' := by
  cases e with
  | loop i f =>
    simp only [step] at h
    split at h
    · rename_i hc
      obtain ⟨t, ht, rfl⟩ := Option.map_eq_some_iff.mp h
      exact loop_inv hi hc.2 ha ht
    · cases h
  | forward j k =>
    simp only [step] at h
    split at h
    · rename_i hc
      obtain ⟨t, ht, rfl⟩ := Option.map_eq_some_iff.mp h
      obtain ⟨-, hpc, -⟩ := call_begins (off_loop n j k) ht
      refine called_inv hi rfl (.inl hc.1) ?_ (server_step hi j rfl ht) (fun u hu => ?_) ?_
      · rw [hpc, Handoff.setPc_same]
        cases (n.server j).null k with
        | true => exact .inr rfl
        | false => exact .inl rfl
      · rw [hpc, Handoff.setPc_ne _ _ hu]
      · rw [hpc, Handoff.setPc_same]
        split <;> simp
    · cases h
  | caller i =>
    obtain ⟨⟨j, k⟩, hf, h⟩ := Option.bind_eq_some_iff.mp h
    obtain ⟨t, ht, rfl⟩ := Option.map_eq_some_iff.mp h
    obtain ⟨hsrc, hn, -⟩ := hi.inside i j k hf
    have hm := caller_moved ht
    exact called_inv hi hsrc (.inr hf) (.inl hn) (server_step hi j rfl ht) hm.others hm.begun

theorem reach_inv (h : Reach (step n) Accepted init s) : Inv n s :=
  h.invariant (init_inv n) fun _ _ _ hi ha hs => step_inv hi ha hs

/-! ## What has begun comes to an end -/

/-- How far loop i's forward is from its return. -/
def owing (s : St ι) (i : ι) : Nat :=
  match s.fwd i with
  | none => 0
  | some (j, k) => rank ((s.srv j).h.pc k)

def measure [Fintype ι] (s : St ι) : Nat := ∑ j, load (s.srv j) + ∑ i, owing s i

theorem load_update [Fintype ι] (s : St ι) (j : ι) (t : SendPath.St Unit) :
    ∑ l, load (Function.update s.srv j t l) + load (s.srv j) = ∑ l, load (s.srv l) + load t := by
  rw [← sum_update (fun l => load (s.srv l)) j (load t)]
  congr 1
  refine Finset.sum_congr rfl fun l _ => ?_
  exact Function.apply_update (fun _ => load) s.srv j t l

theorem loop_owing {t : SendPath.St Unit} (hpc : t.h.pc = (s.srv i).h.pc) (l : ι) :
    owing { s with srv := Function.update s.srv i t } l = owing s l := by
  unfold owing
  cases hf : s.fwd l with
  | none => rfl
  | some p =>
    by_cases hp : p.1 = i
    · subst hp
      simp only [Function.update_self, hpc]
    · simp only [Function.update_of_ne hp]

theorem called_owing (hi : Inv n s) {t : SendPath.St Unit} (hf : s.fwd i = some (j, k)) (hm : Moved (s.srv j) t k) :
    owing (called s i j k t) = Function.update (owing s) i (rank (t.h.pc k)) := by
  funext l
  by_cases hl : l = i
  · subst hl
    rw [Function.update_self]
    have hfwd : (called s l j k t).fwd l = if t.h.pc k = .ret then none else some (j, k) := Function.update_self ..
    unfold owing
    rw [hfwd]
    by_cases hr : t.h.pc k = .ret
    · rw [if_pos hr, hr]
      rfl
    · rw [if_neg hr]
      show rank ((Function.update s.srv j t j).h.pc k) = _
      rw [Function.update_self]
  · rw [Function.update_of_ne hl]
    have hfwd : (called s i j k t).fwd l = s.fwd l := Function.update_of_ne hl ..
    unfold owing
    rw [hfwd]
    cases hfl : s.fwd l with
    | none => rfl
    | some p =>
      obtain ⟨j', k'⟩ := p
      show rank ((Function.update s.srv j t j').h.pc k') = rank ((s.srv j').h.pc k')
      by_cases hj : j' = j
      · subst hj
        have hk : k' ≠ k := fun e => hl (by rw [← (hi.inside l j' k' hfl).1, e, (hi.inside i j' k hf).1])
        rw [Function.update_self, hm.others k' hk]
      · rw [Function.update_of_ne hj]

theorem work_lowers [Fintype ι] (hi : Inv n s) (h : work n s e = some s') : measure s' < measure s := by
  unfold work at h
  split at h
  · rename_i hg
    cases e with
    | loop i f =>
      simp only [step] at h
      split at h
      · rename_i hc
        obtain ⟨t, ht, rfl⟩ := Option.map_eq_some_iff.mp h
        have hload := load_update s i t
        have hlt := loop_lowers rfl hc.2 hg ht
        have how : ∑ l, owing { s with srv := Function.update s.srv i t } l = ∑ l, owing s l :=
          Finset.sum_congr rfl fun l _ => loop_owing (loop_pc hc.2 ht) l
        unfold measure
        rw [how]
        show ∑ l, load (Function.update s.srv i t l) + _ < _
        omega
      · cases h
    | forward j k => cases hg
    | caller i =>
      obtain ⟨⟨j, k⟩, hf, h⟩ := Option.bind_eq_some_iff.mp h
      obtain ⟨t, ht, rfl⟩ := Option.map_eq_some_iff.mp h
      have hm : Moved (s.srv j) t k := caller_moved ht
      have hload := load_update s j t
      have how := sum_update (owing s) i (rank (t.h.pc k))
      rw [← called_owing hi hf hm] at how
      have howi : owing s i = rank ((s.srv j).h.pc k) := by
        unfold owing
        rw [hf]
      have hlt := hm.lowers
      unfold measure
      show ∑ l, load (Function.update s.srv j t l) + ∑ l, owing (called s i j k t) l < _
      omega
  · cases h

/-- A frame of the wrapper goes on also when malloc and uv_write succeed. -/
theorem loop_accepts {cfg : Cfg Unit} {s : SendPath.St Unit} {malloc accepted : Bool}
    (h : (SendPath.step cfg s (.loop malloc accepted)).isSome = true) :
    (SendPath.step cfg s (.loop true true)).isSome = true := by
  simp only [SendPath.step, SendPath.loopStep] at h ⊢
  cases hst : s.stack with
  | nil => rw [hst] at h; cases h
  | cons f r =>
    rw [hst] at h
    cases f with
    | user => cases h
    | sync k a => cases a <;> rfl
    | _ => rfl

theorem goes_on (hi : Inv n s) (hwf : WellFounded (flip n.Forwards)) (hf : s.fwd i = some (j, k)) :
    ∃ e s', work n s e = some s' ∧ Accepted s e := by
  -- a loop that is in no forward, with one that waits for it
  have hr : ∀ i j, (s.fwd i).map Prod.fst = some j → n.Forwards i j := fun i j h => by
    obtain ⟨⟨j', k'⟩, hf, rfl⟩ := Option.map_eq_some_iff.mp h
    obtain ⟨h1, h2, -⟩ := hi.inside i j' k' hf
    exact ⟨k', h1, h2⟩
  obtain ⟨l, m, hl, hm⟩ := exists_free hwf hr (show (s.fwd i).map Prod.fst = some j by rw [hf]; rfl)
  obtain ⟨⟨m', k'⟩, hlm, rfl⟩ := Option.map_eq_some_iff.mp hl
  have hfree : s.fwd m' = none := Option.map_eq_none_iff.mp hm
  obtain ⟨-, -, h3, h4⟩ := hi.inside l m' k' hlm
  obtain ⟨f, hg, hs⟩ := SendPath.goes_on (hi.server m').1 (hi.server m').2 (.inl ⟨h3, h4⟩)
  have hloop : ∀ f : SendPath.Ev, f.goesOn = true → isCall f = false → SendPath.acceptedStep (s.srv m') f = true →
      (SendPath.step (n.server m') (s.srv m') f).isSome = true → ∃ e s', work n s e = some s' ∧ Accepted s e :=
    fun f hg hc ha hs => by
      obtain ⟨t, ht⟩ := Option.isSome_iff_exists.mp hs
      refine ⟨.loop m' f, { s with srv := Function.update s.srv m' t }, ?_, ha⟩
      unfold work
      rw [if_pos (show (Ev.loop m' f).goesOn = true from hg)]
      simp only [step]
      rw [if_pos ⟨hfree, hc⟩, ht]
      rfl
  cases f with
  | callback => cases hg
  | call u => cases hg
  | ret => exact hloop .ret rfl rfl rfl hs
  | asyncSend => exact hloop .asyncSend rfl rfl rfl hs
  | written u => exact hloop (.written u) rfl rfl rfl hs
  | loop malloc accepted =>
    refine hloop (.loop true true) rfl rfl ?_ (loop_accepts hs)
    simp only [SendPath.acceptedStep]
    split <;> rfl
  | caller u =>
    -- a caller on the free loop's server, which need not be loop l's
    obtain ⟨t, ht⟩ := Option.isSome_iff_exists.mp hs
    have hu : (s.srv m').h.pc u ≠ .idle ∧ (s.srv m').h.pc u ≠ .ret := by
      constructor <;> intro hu <;> simp only [SendPath.step, SendPath.callerStep, hu] at ht <;> cases ht
    have hfu := hi.owner m' u hu.1 hu.2
    refine ⟨.caller (n.src m' u), called s (n.src m' u) m' u t, ?_, trivial⟩
    show step n s (.caller (n.src m' u)) = _
    simp only [step, hfu, Option.bind_some, ht, Option.map_some]

theorem drains [Fintype ι] (hi : Inv n s) (hwf : WellFounded (flip n.Forwards)) :
    ∃ es t, run (work n) s es = some t ∧ ∀ i, t.fwd i = none := by
  refine run_until measure (I := Inv n) (Q := fun t => ∀ i, t.fwd i = none) (fun s hi hq => ?_) hi
  obtain ⟨i, hf⟩ := Classical.not_forall.mp hq
  obtain ⟨⟨j, k⟩, hf⟩ := Option.ne_none_iff_exists'.mp hf
  obtain ⟨e, s', h, ha⟩ := goes_on hi hwf hf
  refine ⟨e, s', h, step_inv hi ha ?_, work_lowers hi h⟩
  unfold work at h
  split at h
  · exact h
  · cases h

/-! ## A cycle of forwards -/

/-- Loops that can each forward to one of them. -/
structure Closed (n : Servers ι) (S : Set ι) (next : ι → ι) (call : ι → Nat) : Prop where
  next_mem : ∀ i ∈ S, next i ∈ S
  src : ∀ i ∈ S, n.src (next i) (call i) = i
  sent : ∀ i ∈ S, (n.server (next i)).null (call i) = false

/-- The loops of P are inside their forwards, before the mutex; the others have done nothing. -/
structure Entered (S : Set ι) (next : ι → ι) (call : ι → Nat) (P : Finset ι) (s : St ι) : Prop where
  inside : ∀ i ∈ S, i ∈ P → s.fwd i = some (next i, call i)
  outside : ∀ i ∈ S, i ∉ P → s.fwd i = none ∧ (s.srv i).stack = [] ∧ (s.srv (next i)).h.pc (call i) = .idle
  unposted : ∀ j, (s.srv j).h.sem = 0 ∧ ∀ k, (s.srv j).h.pc k ≠ .woken

variable {S : Set ι} {next : ι → ι} {call : ι → Nat} {P : Finset ι}

theorem call_possible {cfg : Cfg Unit} {s : SendPath.St Unit} (hl : cfg.onLoop k = false) (hp : s.h.pc k = .idle) :
    ∃ t, SendPath.step cfg s (.call k) = some t := by
  have h0 : (SendPath.storeAddr cfg s k).h = s.h := by
    unfold SendPath.storeAddr
    split <;> rfl
  simp only [SendPath.step, SendPath.enter, SendPath.dispatch, hl, Bool.false_eq_true, if_false, h0, if_pos hp]
  split <;> exact ⟨_, rfl⟩

theorem enter_one (hc : Closed n S next call) (hr : Reach (step n) Accepted init s) (hs : Entered S next call P s)
    (hi : i ∈ S) (hp : i ∉ P) : ∃ s', Reach (step n) Accepted init s' ∧ Entered S next call (insert i P) s' := by
  obtain ⟨hf, hst, hpc⟩ := hs.outside i hi hp
  have hne : next i ≠ i := by
    have := n.others (next i) (call i)
    rw [hc.src i hi] at this
    exact this.symm
  -- a callback of loop i, which forwards
  let s1 : St ι := { s with srv := Function.update s.srv i { s.srv i with stack := [.user] } }
  have h1 : step n s (.loop i .callback) = some s1 := by
    simp only [step]
    rw [if_pos ⟨hf, rfl⟩]
    simp only [SendPath.step, if_pos hst, Option.map_some]
    rfl
  have hi1 : s1.srv i = { s.srv i with stack := [.user] } := Function.update_self ..
  have ho1 : ∀ j, j ≠ i → s1.srv j = s.srv j := fun j hj => Function.update_of_ne hj ..
  have hpc1 : ∀ j, (s1.srv j).h = (s.srv j).h := fun j => by
    by_cases hj : j = i
    · subst hj
      rw [hi1]
    · rw [ho1 j hj]
  obtain ⟨t, ht⟩ := call_possible (off_loop n (next i) (call i)) (show (s1.srv (next i)).h.pc (call i) = .idle by
    rw [hpc1]
    exact hpc)
  obtain ⟨-, hth, htst⟩ := call_begins (off_loop n (next i) (call i)) ht
  rw [hc.sent i hi, if_neg Bool.false_ne_true] at hth
  have h2 : step n s1 (.forward (next i) (call i)) = some (called s1 i (next i) (call i) t) := by
    simp only [step, hc.src i hi]
    rw [if_pos ⟨hf, by rw [hi1]; rfl⟩, ht]
    rfl
  refine ⟨_, .step (.forward (next i) (call i)) (.step (.loop i .callback) hr rfl h1) trivial h2, ?_⟩
  have hwant : t.h.pc (call i) ≠ .ret := by
    rw [hth, Handoff.setPc_same]
    simp
  have hj : (called s1 i (next i) (call i) t).srv (next i) = t := Function.update_self ..
  have ho : ∀ j, j ≠ next i → (called s1 i (next i) (call i) t).srv j = s1.srv j := fun j hj => Function.update_of_ne hj ..
  have hfi : (called s1 i (next i) (call i) t).fwd i = some (next i, call i) := by
    show Function.update s1.fwd i _ i = _
    rw [Function.update_self, if_neg hwant]
  have hfo : ∀ l, l ≠ i → (called s1 i (next i) (call i) t).fwd l = s.fwd l := fun l hl => Function.update_of_ne hl ..
  constructor
  · intro l hl hlp
    rcases Finset.mem_insert.mp hlp with rfl | hlp
    · exact hfi
    · have hli : l ≠ i := fun e => hp (e ▸ hlp)
      rw [hfo l hli]
      exact hs.inside l hl hlp
  · intro l hl hlp
    have hli : l ≠ i := fun e => hlp (e ▸ Finset.mem_insert_self i P)
    obtain ⟨h1, h2, h3⟩ := hs.outside l hl fun h => hlp (Finset.mem_insert_of_mem h)
    refine ⟨by rw [hfo l hli]; exact h1, ?_, ?_⟩
    · by_cases hln : l = next i
      · rw [hln, hj, htst, ho1 _ hne, ← hln]
        exact h2
      · rw [ho l hln, ho1 l hli]
        exact h2
    · by_cases hln : next l = next i
      · have hk : call l ≠ call i := fun e => hli (by rw [← hc.src l hl, hln, e, hc.src i hi])
        rw [hln, hj, hth, Handoff.setPc_ne _ _ hk, hpc1, ← hln]
        exact h3
      · rw [ho _ hln, hpc1]
        exact h3
  · intro j
    by_cases hjn : j = next i
    · rw [hjn, hj, hth]
      refine ⟨(congrArg Handoff.sem (hpc1 (next i))).trans (hs.unposted _).1, fun k => ?_⟩
      rw [Handoff.setPc_pc]
      split
      · simp
      · rw [hpc1]
        exact (hs.unposted _).2 k
    · rw [ho j hjn, hpc1]
      exact hs.unposted j

structure Blocked (S : Set ι) (s : St ι) : Prop where
  inside : ∀ i ∈ S, ∃ j ∈ S, ∃ k, s.fwd i = some (j, k)
  unposted : ∀ j ∈ S, (s.srv j).h.sem = 0 ∧ ∀ k, (s.srv j).h.pc k ≠ .woken

theorem step_blocked (hb : Blocked S s) (h : step n s e = some s') : Blocked S s' := by
  have hout : ∀ i, s.fwd i = none → i ∉ S := fun i hi hm => by
    obtain ⟨j, -, k, hf⟩ := hb.inside i hm
    rw [hi] at hf
    cases hf
  cases e with
  | loop i f =>
    simp only [step] at h
    split at h
    · rename_i hc
      obtain ⟨t, -, rfl⟩ := Option.map_eq_some_iff.mp h
      refine ⟨hb.inside, fun j hj => ?_⟩
      have hji : j ≠ i := fun e => hout i hc.1 (e ▸ hj)
      show (Function.update s.srv i t j).h.sem = 0 ∧ ∀ k, (Function.update s.srv i t j).h.pc k ≠ .woken
      rw [Function.update_of_ne hji]
      exact hb.unposted j hj
    · cases h
  | forward j k =>
    simp only [step] at h
    split at h
    · rename_i hc
      obtain ⟨t, ht, rfl⟩ := Option.map_eq_some_iff.mp h
      obtain ⟨-, hth, -⟩ := call_begins (off_loop n j k) ht
      refine ⟨fun i hi => ?_, fun l hl => ?_⟩
      · have hne : i ≠ n.src j k := fun e => hout _ hc.1 (e ▸ hi)
        show ∃ j' ∈ S, ∃ k', Function.update s.fwd (n.src j k) _ i = some (j', k')
        rw [Function.update_of_ne hne]
        exact hb.inside i hi
      · show (Function.update s.srv j t l).h.sem = 0 ∧ ∀ k, (Function.update s.srv j t l).h.pc k ≠ .woken
        by_cases hlj : l = j
        · subst hlj
          rw [Function.update_self, hth]
          refine ⟨(hb.unposted l hl).1, fun u => ?_⟩
          rw [Handoff.setPc_pc]
          split
          · split <;> simp
          · exact (hb.unposted l hl).2 u
        · rw [Function.update_of_ne hlj]
          exact hb.unposted l hl
    · cases h
  | caller i =>
    obtain ⟨⟨j, k⟩, hf, h⟩ := Option.bind_eq_some_iff.mp h
    obtain ⟨t, ht, rfl⟩ := Option.map_eq_some_iff.mp h
    have hm : Moved (s.srv j) t k := caller_moved ht
    refine ⟨fun l hl => ?_, fun l hl => ?_⟩
    · show ∃ j' ∈ S, ∃ k', Function.update s.fwd i _ l = some (j', k')
      by_cases hli : l = i
      · subst hli
        obtain ⟨j', hj', k', hf'⟩ := hb.inside l hl
        rw [hf] at hf'
        cases hf'
        obtain ⟨h0, hw⟩ := hb.unposted j hj'
        rw [Function.update_self, if_neg (hm.stays h0 (hw k)).2.2]
        exact ⟨j, hj', k, rfl⟩
      · rw [Function.update_of_ne hli]
        exact hb.inside l hl
    · show (Function.update s.srv j t l).h.sem = 0 ∧ ∀ k, (Function.update s.srv j t l).h.pc k ≠ .woken
      by_cases hlj : l = j
      · subst hlj
        obtain ⟨h0, hw⟩ := hb.unposted l hl
        obtain ⟨h1, h2, -⟩ := hm.stays h0 (hw k)
        rw [Function.update_self]
        refine ⟨h1, fun u => ?_⟩
        by_cases hu : u = k
        · subst hu
          exact h2
        · rw [hm.others u hu]
          exact hw u
      · rw [Function.update_of_ne hlj]
        exact hb.unposted l hl

theorem run_blocked (hb : Blocked S s) {es : List (Ev ι)} {t : St ι} (h : run (step n) s es = some t) : Blocked S t := by
  induction es generalizing s with
  | nil =>
    cases h
    exact hb
  | cons e es ih =>
    obtain ⟨u, he, hr⟩ := Option.bind_eq_some_iff.mp h
    exact ih (step_blocked hb he) hr

/-- All loops on a cycle can get into forwards that nothing ends. -/
theorem cycle_blocks [Fintype ι] (h : Relation.TransGen n.Forwards i i) :
    ∃ s, Reach (step n) Accepted init s ∧ ∀ es t, run (step n) s es = some t → t.fwd i ≠ none := by
  classical
  obtain ⟨S, hi, hS⟩ := closed_of_cycle h
  have hex : ∀ x, ∃ y k, x ∈ S → y ∈ S ∧ n.src y k = x ∧ (n.server y).null k = false := fun x => by
    by_cases hx : x ∈ S
    · obtain ⟨y, hy, k, h1, h2⟩ := hS x hx
      exact ⟨y, k, fun _ => ⟨hy, h1, h2⟩⟩
    · exact ⟨x, 0, fun h => absurd h hx⟩
  choose next call hnext using hex
  have hc : Closed n S next call :=
    ⟨fun x hx => (hnext x hx).1, fun x hx => (hnext x hx).2.1, fun x hx => (hnext x hx).2.2⟩
  -- one loop after another
  have hall : ∀ P : Finset ι, (∀ x ∈ P, x ∈ S) → ∃ s, Reach (step n) Accepted init s ∧ Entered S next call P s := by
    intro P
    induction P using Finset.induction_on with
    | empty =>
      intro _
      exact ⟨init, .init, ⟨fun _ _ h => absurd h (Finset.notMem_empty _), fun _ _ _ => ⟨rfl, rfl, rfl⟩,
        fun _ => ⟨rfl, fun _ h => by cases h⟩⟩⟩
    | insert x P hx ih =>
      intro hP
      obtain ⟨s, hr, hs⟩ := ih fun y hy => hP y (Finset.mem_insert_of_mem hy)
      exact enter_one hc hr hs (hP x (Finset.mem_insert_self x P)) hx
  obtain ⟨s, hr, hs⟩ := hall (Finset.univ.filter (· ∈ S)) fun x hx => (Finset.mem_filter.mp hx).2
  have hb : Blocked S s :=
    ⟨fun x hx => ⟨next x, hc.next_mem x hx, call x, hs.inside x hx (Finset.mem_filter.mpr ⟨Finset.mem_univ x, hx⟩)⟩,
      fun j _ => hs.unposted j⟩
  refine ⟨s, hr, fun es t ht hn => ?_⟩
  obtain ⟨j, -, k, hf⟩ := (run_blocked hb ht).inside i hi
  rw [hn] at hf
  cases hf

/-! ## When forwarding is safe -/

theorem run_work {es : List (Ev ι)} {t : St ι} (h : run (work n) s es = some t) : run (step n) s es = some t := by
  induction es generalizing s with
  | nil => exact h
  | cons e es ih =>
    obtain ⟨u, he, hr⟩ := Option.bind_eq_some_iff.mp h
    unfold work at he
    split at he
    · simp only [run, he, Option.bind_some]
      exact ih hr
    · cases he

theorem completes_iff [Fintype ι] (n : Servers ι) :
    (∀ s, Reach (step n) Accepted init s → ∃ es t, run (work n) s es = some t ∧ ∀ i, t.fwd i = none) ↔
      ∀ i, ¬ Relation.TransGen n.Forwards i i := by
  constructor
  · intro h i hcycle
    obtain ⟨s, hr, hs⟩ := cycle_blocks hcycle
    obtain ⟨es, t, ht, hf⟩ := h s hr
    exact hs es t (run_work ht) (hf i)
  · intro h s hr
    exact drains (reach_inv hr) (wf_of_acyclic h)

end UvWrapper.Net.ForwardGraph
