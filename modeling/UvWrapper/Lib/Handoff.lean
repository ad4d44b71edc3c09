/-
  UvWrapper.Lib.Handoff — handing one job at a time to a worker: callers take a
  mutex, fill in a slot stage by stage, raise a coalescing notification and wait on
  a semaphore; the worker takes the notification and later posts.

  `σ` are the stages of the critical section. The caller's side is `call`, `lock`,
  `goto`, `notify`, `wake`, `unlock`; the worker's is `take` and `post`. The worker
  says how many posts it still owes for notifications it has taken (`owed`), and how
  many it dropped (`lost`).

  `Inv h owed lost`: exactly the mutex's holder is past `lock`, and notification,
  owed, lost and posted add up to the holder's wait. Every operation keeps it, so:
  - `sem_idle`: with the mutex free the semaphore is 0;
  - `wait_cases`: a waiting caller's post is pending, owed, made or lost, and it is
    exactly one of them.
-/

import Mathlib.Logic.Function.Basic

namespace UvWrapper.Lib

/-- Where a caller is: not called yet, at the mutex, in the critical section before
    stage `a`, at the semaphore, past it, returned. -/
inductive Pc (σ : Type) where
  | idle
  | want
  | crit (a : σ)
  | wait
  | woken
  | ret
  deriving DecidableEq, Repr

namespace Pc

variable {σ : Type}

/-- Past `lock` and not past `unlock`. -/
def inside : Pc σ → Bool
  | .crit _ | .wait | .woken => true
  | _ => false

@[simp] theorem inside_idle : (idle : Pc σ).inside = false := rfl
@[simp] theorem inside_want : (want : Pc σ).inside = false := rfl
@[simp] theorem inside_crit (a : σ) : (crit a).inside = true := rfl
@[simp] theorem inside_wait : (wait : Pc σ).inside = true := rfl
@[simp] theorem inside_woken : (woken : Pc σ).inside = true := rfl
@[simp] theorem inside_ret : (ret : Pc σ).inside = false := rfl

def isWait : Pc σ → Bool
  | .wait => true
  | _ => false

theorem isWait_iff {p : Pc σ} : p.isWait = true ↔ p = .wait := by cases p <;> simp [isWait]

end Pc

structure Handoff (τ σ : Type) where
  mutex : Option τ
  sem : Nat
  pending : Bool
  pc : τ → Pc σ

namespace Handoff

variable {τ σ : Type}

def init : Handoff τ σ := ⟨none, 0, false, fun _ => .idle⟩

/-! ## The invariant -/

/-- One when the mutex's holder is at the semaphore. -/
def waiting (h : Handoff τ σ) : Nat :=
  match h.mutex with
  | some t => if (h.pc t).isWait then 1 else 0
  | none => 0

structure Inv (h : Handoff τ σ) (owed lost : Nat) : Prop where
  holder : ∀ t, (h.pc t).inside = true ↔ h.mutex = some t
  count : h.pending.toNat + owed + h.sem + lost = h.waiting

variable {h : Handoff τ σ} {owed lost : Nat}

theorem init_inv : Inv (init : Handoff τ σ) 0 0 := ⟨fun t => by simp [init], rfl⟩

theorem waiting_of_wait {t : τ} (hi : Inv h owed lost) (hw : h.pc t = .wait) : h.waiting = 1 := by
  have : h.mutex = some t := (hi.holder t).mp (by simp [hw])
  simp [waiting, this, hw, Pc.isWait]

theorem waiting_eq_zero {t : τ} (hi : Inv h owed lost) (hin : (h.pc t).inside = true) (hw : h.pc t ≠ .wait) :
    h.waiting = 0 := by
  have : h.mutex = some t := (hi.holder t).mp hin
  simp only [waiting, this]
  rw [if_neg fun h' => hw (Pc.isWait_iff.mp h')]

theorem waiting_le (h : Handoff τ σ) : h.waiting ≤ 1 := by
  unfold waiting
  split
  · split <;> omega
  · omega

/-- Whoever is past `lock` is the only one. -/
theorem Inv.unique (hi : Inv h owed lost) {t u : τ} (ht : (h.pc t).inside = true) (hu : (h.pc u).inside = true) :
    t = u := by
  have h1 := (hi.holder t).mp ht
  have h2 := (hi.holder u).mp hu
  rw [h1] at h2
  exact Option.some.inj h2

/-- With the mutex free the semaphore is 0 and nothing is on its way. -/
theorem Inv.sem_idle (hi : Inv h owed lost) (hm : h.mutex = none) :
    h.sem = 0 ∧ h.pending = false ∧ owed = 0 ∧ lost = 0 := by
  have hc := hi.count
  simp only [waiting, hm] at hc
  have hp : h.pending = false := by cases hp : h.pending <;> simp_all
  exact ⟨by omega, hp, by omega, by omega⟩

/-- A waiting caller's post is in exactly one place. -/
theorem Inv.wait_cases (hi : Inv h owed lost) {t : τ} (hw : h.pc t = .wait) :
    h.pending.toNat + owed + h.sem + lost = 1 := by rw [hi.count, waiting_of_wait hi hw]

/-- A caller in the critical section before its notification: nothing is on its way. -/
theorem Inv.crit_quiet (hi : Inv h owed lost) {t : τ} (hin : (h.pc t).inside = true) (hw : h.pc t ≠ .wait) :
    h.pending = false ∧ owed = 0 ∧ h.sem = 0 ∧ lost = 0 := by
  have hc := hi.count
  rw [waiting_eq_zero hi hin hw] at hc
  have hp : h.pending = false := by cases hp : h.pending <;> simp_all
  exact ⟨hp, by omega, by omega, by omega⟩

/-! ## The worker's operations -/

def take (h : Handoff τ σ) : Handoff τ σ := { h with pending := false }

def post (h : Handoff τ σ) : Handoff τ σ := { h with sem := h.sem + 1 }

@[simp] theorem take_sem (h : Handoff τ σ) : h.take.sem = h.sem := rfl
@[simp] theorem take_pending (h : Handoff τ σ) : h.take.pending = false := rfl
@[simp] theorem post_sem (h : Handoff τ σ) : h.post.sem = h.sem + 1 := rfl
@[simp] theorem post_pending (h : Handoff τ σ) : h.post.pending = h.pending := rfl

/-- The worker takes the notification and owes a post for it. -/
theorem take_inv (hi : Inv h owed lost) (hp : h.pending = true) : Inv h.take (owed + 1) lost := by
  refine ⟨hi.holder, ?_⟩
  have hc := hi.count
  have hw : h.take.waiting = h.waiting := rfl
  rw [hw, ← hc, hp]
  simp only [take_pending, take_sem, Bool.toNat_false, Bool.toNat_true]
  omega

theorem post_inv (hi : Inv h (owed + 1) lost) : Inv h.post owed lost := by
  refine ⟨hi.holder, ?_⟩
  have hc := hi.count
  have hw : h.post.waiting = h.waiting := rfl
  rw [hw, ← hc]
  simp only [post_pending, post_sem]
  omega

/-- An owed post that is never made. -/
theorem drop_inv (hi : Inv h (owed + 1) lost) : Inv h owed (lost + 1) :=
  ⟨hi.holder, by have := hi.count; omega⟩

/-- Anything on its way is on its way to the mutex's holder, who waits for it, and is
    the only thing on its way. -/
theorem Inv.wait_of_pos (hi : Inv h owed lost) (hp : 0 < h.pending.toNat + owed + h.sem + lost) :
    (∃ t, h.pc t = .wait) ∧ h.pending.toNat + owed + h.sem + lost = 1 := by
  have hc := hi.count
  have hle := waiting_le h
  have h1 : h.waiting = 1 := by omega
  refine ⟨?_, by omega⟩
  unfold waiting at h1
  split at h1
  · rename_i t _
    split at h1
    · rename_i hw; exact ⟨t, Pc.isWait_iff.mp hw⟩
    · cases h1
  · cases h1

/-- While a post is owed, the mutex's holder is waiting for it and nothing else is
    on its way. -/
theorem Inv.owed_wait (hi : Inv h (owed + 1) lost) :
    (∃ t, h.pc t = .wait) ∧ h.pending = false ∧ owed = 0 ∧ h.sem = 0 ∧ lost = 0 := by
  obtain ⟨hw, h1⟩ := hi.wait_of_pos (by omega)
  have hp : h.pending = false := by
    cases hp : h.pending
    · rfl
    · rw [hp, Bool.toNat_true] at h1; omega
  exact ⟨hw, hp, by omega, by omega, by omega⟩

/-! ## The caller's operations -/

variable [DecidableEq τ]

def setPc (h : Handoff τ σ) (t : τ) (p : Pc σ) : Handoff τ σ := { h with pc := Function.update h.pc t p }

@[simp] theorem setPc_mutex (h : Handoff τ σ) (t : τ) (p : Pc σ) : (h.setPc t p).mutex = h.mutex := rfl
@[simp] theorem setPc_sem (h : Handoff τ σ) (t : τ) (p : Pc σ) : (h.setPc t p).sem = h.sem := rfl
@[simp] theorem setPc_pending (h : Handoff τ σ) (t : τ) (p : Pc σ) : (h.setPc t p).pending = h.pending := rfl
@[simp] theorem setPc_same (h : Handoff τ σ) (t : τ) (p : Pc σ) : (h.setPc t p).pc t = p := by simp [setPc]
theorem setPc_ne (h : Handoff τ σ) {t u : τ} (p : Pc σ) (hu : u ≠ t) : (h.setPc t p).pc u = h.pc u := by
  simp [setPc, hu]
theorem setPc_pc (h : Handoff τ σ) (t u : τ) (p : Pc σ) : (h.setPc t p).pc u = if u = t then p else h.pc u := by
  simp [setPc, Function.update_apply]

def call (h : Handoff τ σ) (t : τ) : Handoff τ σ := h.setPc t .want

def skip (h : Handoff τ σ) (t : τ) : Handoff τ σ := h.setPc t .ret

def lock (h : Handoff τ σ) (t : τ) (a : σ) : Handoff τ σ := { h.setPc t (.crit a) with mutex := some t }

def goto (h : Handoff τ σ) (t : τ) (a : σ) : Handoff τ σ := h.setPc t (.crit a)

def notify (h : Handoff τ σ) (t : τ) : Handoff τ σ := { h.setPc t .wait with pending := true }

def wake (h : Handoff τ σ) (t : τ) : Handoff τ σ := { h.setPc t .woken with sem := h.sem - 1 }

def unlock (h : Handoff τ σ) (t : τ) : Handoff τ σ := { h.setPc t .ret with mutex := none }

theorem setPc_outside (hi : Inv h owed lost) {t : τ} {p : Pc σ} (ho : (h.pc t).inside = false)
    (hp : p.inside = false) : Inv (h.setPc t p) owed lost := by
  refine ⟨fun u => ?_, ?_⟩
  · rw [setPc_pc]
    split
    · rename_i e
      have := hi.holder u
      rw [e] at this ⊢
      simp only [hp, setPc_mutex, Bool.false_eq_true, false_iff]
      simpa [ho] using this
    · exact hi.holder u
  · have hw : (h.setPc t p).waiting = h.waiting := by
      simp only [waiting, setPc_mutex]
      cases hm : h.mutex with
      | none => rfl
      | some u =>
        have hne : u ≠ t := by
          intro heq
          subst heq
          have := (hi.holder u).mpr hm
          rw [ho] at this
          cases this
        simp only [setPc_ne h p hne]
    rw [hw]; exact hi.count

theorem call_inv (hi : Inv h owed lost) {t : τ} (hp : h.pc t = .idle) : Inv (h.call t) owed lost :=
  setPc_outside hi (by simp [hp]) rfl

theorem skip_inv (hi : Inv h owed lost) {t : τ} (hp : h.pc t = .idle) : Inv (h.skip t) owed lost :=
  setPc_outside hi (by simp [hp]) rfl

theorem lock_inv (hi : Inv h owed lost) {t : τ} {a : σ} (hm : h.mutex = none) : Inv (h.lock t a) owed lost := by
  refine ⟨fun u => ?_, ?_⟩
  · show ((h.setPc t (.crit a)).pc u).inside = true ↔ some t = some u
    rw [setPc_pc]
    split
    · rename_i e; simp [e]
    · rename_i e
      have := hi.holder u
      rw [hm] at this
      simpa [Ne.symm e] using this
  · obtain ⟨h1, h2, h3, h4⟩ := hi.sem_idle hm
    simp [lock, waiting, h1, h2, h3, h4, Pc.isWait]

/-- A step of the mutex's holder inside the critical section. -/
theorem inside_holder (hi : Inv h owed lost) {t : τ} {p : Pc σ} (hin : (h.pc t).inside = true)
    (hp : p.inside = true) (u : τ) : ((h.setPc t p).pc u).inside = true ↔ h.mutex = some u := by
  rw [setPc_pc]
  split
  · rename_i e
    subst e
    simpa [hp] using (hi.holder u).mp hin
  · exact hi.holder u

theorem goto_inv (hi : Inv h owed lost) {t : τ} {a b : σ} (hp : h.pc t = .crit a) : Inv (h.goto t b) owed lost := by
  have hin : (h.pc t).inside = true := by simp [hp]
  have hm := (hi.holder t).mp hin
  refine ⟨inside_holder hi hin rfl, ?_⟩
  obtain ⟨h1, h2, h3, h4⟩ := hi.crit_quiet hin (by simp [hp])
  simp [goto, waiting, hm, h1, h2, h3, h4, Pc.isWait]

theorem notify_inv (hi : Inv h owed lost) {t : τ} {a : σ} (hp : h.pc t = .crit a) : Inv (h.notify t) owed lost := by
  have hin : (h.pc t).inside = true := by simp [hp]
  have hm := (hi.holder t).mp hin
  refine ⟨inside_holder hi hin rfl, ?_⟩
  obtain ⟨-, h2, h3, h4⟩ := hi.crit_quiet hin (by simp [hp])
  simp [notify, waiting, hm, h2, h3, h4, Pc.isWait]

theorem wake_inv (hi : Inv h owed lost) {t : τ} (hp : h.pc t = .wait) (hs : 0 < h.sem) :
    Inv (h.wake t) owed lost := by
  have hin : (h.pc t).inside = true := by simp [hp]
  have hm := (hi.holder t).mp hin
  refine ⟨inside_holder hi hin rfl, ?_⟩
  have hc := hi.wait_cases hp
  have hw : (h.wake t).waiting = 0 := by simp [wake, waiting, hm, Pc.isWait]
  rw [hw]
  show h.pending.toNat + owed + (h.sem - 1) + lost = 0
  omega

theorem unlock_inv (hi : Inv h owed lost) {t : τ} (hp : h.pc t = .woken) : Inv (h.unlock t) owed lost := by
  have hin : (h.pc t).inside = true := by simp [hp]
  have hm := (hi.holder t).mp hin
  refine ⟨fun u => ?_, ?_⟩
  · show ((h.setPc t .ret).pc u).inside = true ↔ none = some u
    rw [setPc_pc]
    split
    · simp
    · rename_i e
      have := hi.holder u
      rw [hm] at this
      simpa [Ne.symm e] using this
  · obtain ⟨h1, h2, h3, h4⟩ := hi.crit_quiet hin (by simp [hp])
    simp [unlock, waiting, h1, h2, h3, h4]

end Handoff

end UvWrapper.Lib
