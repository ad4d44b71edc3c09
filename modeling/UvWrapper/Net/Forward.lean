/-
  UvWrapper.Net.Forward — two TCP servers on two loop threads, each forwarding what
  it reads to a connection of the other with tcp_server_send_data.

  The send function compares the caller with the thread of the target's loop only, so
  a callback of the other loop takes the blocking path: it waits in uv_sem_wait for
  a post that the target's loop makes, and its own loop stands still meanwhile.

  Proved: as long as no on_read forwards while the other loop is inside its own forward with
  its post still to be made, never are both loops blocked (`never_both_blocked`). Two reads at
  once block both (`both_blocked`).
-/

import UvWrapper.Net.SendPath

namespace UvWrapper.Net.Forward

open UvWrapper.Lib.Trace UvWrapper.Net.SendPath

/-! ## Two servers -/

structure Data where
  conn : Nat
  base : Nat
  size : Nat

/-- Server `i`: all its calls are made on the other loop's thread. -/
def server (tid : Bool → Nat) (data : Bool → Nat → Data) (i : Bool) : Cfg Unit :=
  ⟨tid i, fun k => ⟨tid !i, (data i k).conn, (data i k).base, (data i k).size, ()⟩, false⟩

structure St where
  srv : Bool → SendPath.St Unit
  /-- The call on the other server that the loop's on_read is inside. -/
  fwd : Bool → Option Nat

def init : St := ⟨fun _ => SendPath.init (), fun _ => none⟩

inductive Ev where
  /-- A step of loop `i`, outside any forward. -/
  | loop (i : Bool) (e : SendPath.Ev)
  /-- on_read of loop `i` calls tcp_server_send_data, call `k` of the other server. -/
  | forward (i : Bool) (k : Nat)
  /-- The next step of that call. -/
  | caller (i : Bool)
  deriving DecidableEq, Repr

variable (cfg : Bool → Cfg Unit)

def called (s : St) (i : Bool) (k : Nat) (t : SendPath.St Unit) : St :=
  ⟨Function.update s.srv (!i) t, Function.update s.fwd i (if t.h.pc k = .ret then none else some k)⟩

def isCall : SendPath.Ev → Bool
  | .call _ | .caller _ => true
  | _ => false

def step (s : St) : Ev → Option St
  | .loop i e =>
    if s.fwd i = none ∧ isCall e = false then
      (SendPath.step (cfg i) (s.srv i) e).map fun t => { s with srv := Function.update s.srv i t }
    else none
  | .forward i k =>
    if s.fwd i = none ∧ (s.srv i).stack = [.user] then
      (SendPath.step (cfg !i) (s.srv !i) (.call k)).map (called s i k)
    else none
  | .caller i =>
    (s.fwd i).bind fun k => (SendPath.step (cfg !i) (s.srv !i) (.caller k)).map (called s i k)

/-- Call `k` is in uv_mutex_lock or in uv_sem_wait, and cannot go on. -/
def blocked (t : SendPath.St Unit) (k : Nat) : Prop :=
  (t.h.pc k = .want ∧ t.h.mutex ≠ none) ∨ (t.h.pc k = .wait ∧ t.h.sem = 0)

def BothBlocked (s : St) : Prop := ∀ i, ∃ k, s.fwd i = some k ∧ blocked (s.srv !i) k

/-! ## Forwards one at a time -/

/-- Call `k` needs nothing of the loop any more: its post is made. -/
def posted (t : SendPath.St Unit) (k : Nat) : Bool :=
  match t.h.pc k with
  | .wait => decide (0 < t.h.sem)
  | .woken | .ret => true
  | _ => false

/-- Loop `i` is inside a forward whose post is still to be made. -/
def unposted (s : St) (i : Bool) : Bool :=
  match s.fwd i with
  | some k => !posted (s.srv !i) k
  | none => false

/-- on_read forwards only while the other loop can serve it. -/
def alone (s : St) : Ev → Bool
  | .forward i _ => !unposted s !i
  | _ => true

variable {cfg} {s s' : St}

theorem not_posted_of_blocked {t : SendPath.St Unit} {k : Nat} (h : blocked t k) : posted t k = false := by
  rcases h with ⟨h, -⟩ | ⟨h, hs⟩
  · simp [posted, h]
  · simp [posted, h, hs]

/-- A caller whose post is made stays so. -/
theorem caller_posted {c : Cfg Unit} {t t' : SendPath.St Unit} {k : Nat} (h : SendPath.step c t (.caller k) = some t')
    (hp : posted t k = true) : posted t' k = true := by
  unfold posted at hp
  simp only [SendPath.step, callerStep] at h
  cases hk : t.h.pc k with
  | wait =>
    rw [hk] at h hp
    simp only at h
    split at h <;> cases h
    simp [posted, Lib.Handoff.wake]
  | woken => rw [hk] at h; cases h; simp [posted, Lib.Handoff.unlock]
  | ret => rw [hk] at h; cases h
  | _ => rw [hk] at hp; cases hp

/-- Not both loops are inside a forward with its post to be made. -/
def Apart (s : St) : Prop := ¬ ∀ i, unposted s i = true

theorem called_other (s : St) (i : Bool) (k : Nat) (t : SendPath.St Unit) :
    unposted (called s i k t) (!i) = unposted s (!i) := by
  cases i <;> simp [unposted, called, Function.update]

theorem called_self (s : St) (i : Bool) (k : Nat) (t : SendPath.St Unit) :
    unposted (called s i k t) i = !posted t k := by
  simp only [unposted, called, Function.update_self]
  by_cases h : t.h.pc k = .ret
  · simp [h, posted]
  · simp [h]

theorem step_apart (hi : Apart s) {e : Ev} (hg : alone s e = true) (h : step cfg s e = some s') : Apart s' := by
  intro hall
  cases e with
  | loop i e =>
    simp only [step] at h
    split at h
    · rename_i hc
      cases ht : SendPath.step (cfg i) (s.srv i) e with
      | none => rw [ht] at h; cases h
      | some t =>
        rw [ht] at h
        cases h
        -- this loop is in no forward of its own
        have := hall i
        simp [unposted, hc.1] at this
    · cases h
  | forward i k =>
    simp only [step] at h
    split at h
    · cases ht : SendPath.step (cfg !i) (s.srv !i) (.call k) with
      | none => rw [ht] at h; cases h
      | some t =>
        rw [ht] at h
        cases h
        have := hall !i
        rw [called_other] at this
        simp [alone, this] at hg
    · cases h
  | caller i =>
    simp only [step] at h
    cases hf : s.fwd i with
    | none => rw [hf] at h; cases h
    | some k =>
      rw [hf, Option.bind_some] at h
      cases ht : SendPath.step (cfg !i) (s.srv !i) (.caller k) with
      | none => rw [ht] at h; cases h
      | some t =>
        rw [ht] at h
        cases h
        refine hi fun j => ?_
        have hother : unposted s (!i) = true := by have := hall !i; rwa [called_other] at this
        have hself : unposted s i = true := by
          cases hp : posted (s.srv !i) k with
          | false => simp [unposted, hf, hp]
          | true =>
            have := hall i
            rw [called_self, caller_posted ht hp] at this
            cases this
        cases i <;> cases j <;> assumption

theorem never_both_blocked (tid : Bool → Nat) (data : Bool → Nat → Data) {s : St}
    (hr : Reach (step (server tid data)) (fun s e => alone s e = true) init s) : ¬ BothBlocked s := by
  have hi : Apart s := hr.invariant (fun h => by cases h true) fun _ _ _ hi hg h => step_apart hi hg h
  refine fun hb => hi fun i => ?_
  obtain ⟨k, hf, hk⟩ := hb i
  simp [unposted, hf, not_posted_of_blocked hk]

def threads (i : Bool) : Nat := if i then 1 else 2

def oneEach (_ : Bool) (_ : Nat) : Data := ⟨1, 100, 5⟩

/-- Loop 1 forwards, is served and returns; then loop 2 forwards. -/
theorem one_then_the_other :
    ∃ s, Reach (step (server threads oneEach)) (fun s e => alone s e = true) init s ∧
      (s.fwd true = none ∧ s.fwd false = some 0) ∧ ¬ BothBlocked s := by
  obtain ⟨s, hr, h⟩ := reach_of_runIf (step (server threads oneEach)) alone init
    (fun s => s.fwd true = none ∧ s.fwd false = some 0)
    ([.loop true .callback, .loop false .callback, .forward true 0, .caller true, .caller true, .caller true,
      .caller true, .caller true, .loop false .ret, .loop false .asyncSend, .loop false (.loop true true),
      .loop false (.written 0), .loop false .callback, .forward false 0, .caller true, .caller true, .caller false])
    ⟨_, rfl, by decide⟩
  exact ⟨s, hr, h, never_both_blocked threads oneEach hr⟩

/-- Both read at once: each waits for a post the other's loop would have to make. -/
theorem both_blocked :
    ∃ s, Reach (step (server threads oneEach)) Free init s ∧ BothBlocked s := by
  obtain ⟨s, hr, ⟨hf, hw, hs⟩, hf', hw', hs'⟩ := reach_of_run (step (server threads oneEach)) init
    (fun s => (s.fwd true = some 0 ∧ (s.srv false).h.pc 0 = .wait ∧ (s.srv false).h.sem = 0) ∧
      s.fwd false = some 0 ∧ (s.srv true).h.pc 0 = .wait ∧ (s.srv true).h.sem = 0)
    ([.loop true .callback, .loop false .callback, .forward true 0, .forward false 0, .caller true, .caller true,
      .caller true, .caller true, .caller true, .caller false, .caller false, .caller false, .caller false,
      .caller false]) ⟨_, rfl, by decide⟩
  refine ⟨s, hr, fun i => ⟨0, ?_⟩⟩
  cases i with
  | true => exact ⟨hf, .inr ⟨hw, hs⟩⟩
  | false => exact ⟨hf', .inr ⟨hw', hs'⟩⟩

end UvWrapper.Net.Forward
