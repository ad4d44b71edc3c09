/-
  UvWrapper.Lib.Trace — runs of a partial, labelled step function, and what holds
  along them.

  `step s e = none` says that event `e` cannot happen in `s`. `Reach step ok s0`
  are the states of the runs from `s0` whose every step meets `ok` (a condition on
  the state before the step and its event); `Reach step Free s0` are all reachable
  states.

  - `Reach.invariant`: what holds at the start and is kept by every step that meets
    `ok` holds in every such state.
  - `run_induction`: the same for a property of a run's events and its last state.
  - `run_until`, `run_until_by`: a run (of some events only) that reaches a state of `Q`, from a
    measure that can always go down.
  - `always_iff`: when the steps that meet `ok` keep `P`, and a step that does not
    breaks `P` at once, a run keeps `P` in every state if and only if all its steps
    meet `ok`.
  - `After`: the order of two entries of a log that only grows at its end.
-/

import Mathlib.Data.List.Infix
import Mathlib.Data.List.Nodup

namespace UvWrapper.Lib.Trace

variable {σ ε : Type} {step : σ → ε → Option σ} {ok : σ → ε → Prop} {s0 : σ}

inductive Reach (step : σ → ε → Option σ) (ok : σ → ε → Prop) (s0 : σ) : σ → Prop
  | init : Reach step ok s0 s0
  | step {s s' : σ} (e : ε) : Reach step ok s0 s → ok s e → step s e = some s' → Reach step ok s0 s'

/-- No condition on the steps. -/
def Free : σ → ε → Prop := fun _ _ => True

def run (step : σ → ε → Option σ) : σ → List ε → Option σ
  | s, [] => some s
  | s, e :: es => (step s e).bind (run step · es)

/-- `run`, but stuck as soon as a step does not meet `ok`. -/
def runIf (step : σ → ε → Option σ) (ok : σ → ε → Bool) : σ → List ε → Option σ
  | s, [] => some s
  | s, e :: es => if ok s e then (step s e).bind (runIf step ok · es) else none

/-! ## Invariants -/

theorem Reach.invariant {P : σ → Prop} (h0 : P s0)
    (hs : ∀ s e s', P s → ok s e → step s e = some s' → P s') {s : σ} (h : Reach step ok s0 s) : P s := by
  induction h with
  | init => exact h0
  | step e _ hok he ih => exact hs _ e _ ih hok he

/-! ## Runs -/

theorem run_append (s : σ) (es fs : List ε) : run step s (es ++ fs) = (run step s es).bind (run step · fs) := by
  induction es generalizing s with
  | nil => rfl
  | cons e es ih =>
    simp only [List.cons_append, run]
    cases step s e with
    | none => rfl
    | some t => exact ih t

theorem run_snoc {s t : σ} {es : List ε} (h : run step s es = some t) (e : ε) :
    run step s (es ++ [e]) = step t e := by
  rw [run_append, h]
  show (step t e).bind some = step t e
  cases step t e <;> rfl

/-- What holds of the empty run and is carried on by each event holds of every run and its last state. -/
theorem run_induction {P : List ε → σ → Prop} (h0 : P [] s0)
    (hs : ∀ es s e s', run step s0 es = some s → P es s → step s e = some s' → P (es ++ [e]) s') :
    ∀ {es : List ε} {s : σ}, run step s0 es = some s → P es s := by
  intro es
  induction es using List.reverseRecOn with
  | nil => intro s h; cases h; exact h0
  | append_singleton es e ih =>
    intro s h
    rw [run_append] at h
    cases hr : run step s0 es with
    | none => rw [hr] at h; cases h
    | some t =>
      have he : step t e = some s := by rw [← run_snoc hr e, run_append, hr]; rw [hr] at h; exact h
      exact hs es t e s hr (ih hr) he

theorem reach_run {s t : σ} (hr : Reach step Free s0 s) :
    ∀ {es : List ε}, run step s es = some t → Reach step Free s0 t := by
  intro es
  induction es generalizing s with
  | nil => intro h; cases h; exact hr
  | cons e es ih =>
    intro h
    simp only [run] at h
    cases he : step s e with
    | none => rw [he] at h; cases h
    | some u => rw [he] at h; exact ih (.step e hr trivial he) h

theorem reach_runIf {okb : σ → ε → Bool} {s t : σ} (hr : Reach step (fun s e => okb s e = true) s0 s) :
    ∀ {es : List ε}, runIf step okb s es = some t → Reach step (fun s e => okb s e = true) s0 t := by
  intro es
  induction es generalizing s with
  | nil => intro h; cases h; exact hr
  | cons e es ih =>
    intro h
    simp only [runIf] at h
    split at h
    · rename_i hok
      cases he : step s e with
      | none => rw [he] at h; cases h
      | some u => rw [he] at h; exact ih (.step e hr hok he) h
    · cases h

/-- A run that can be computed, and a property of its last state. -/
theorem reach_of_run (step : σ → ε → Option σ) (s0 : σ) (Q : σ → Prop) (es : List ε)
    (h : ∃ s, run step s0 es = some s ∧ Q s) : ∃ s, Reach step Free s0 s ∧ Q s := by
  obtain ⟨s, hr, hq⟩ := h
  exact ⟨s, reach_run .init hr, hq⟩

theorem reach_of_runIf (step : σ → ε → Option σ) (okb : σ → ε → Bool) (s0 : σ) (Q : σ → Prop) (es : List ε)
    (h : ∃ s, runIf step okb s0 es = some s ∧ Q s) : ∃ s, Reach step (fun s e => okb s e = true) s0 s ∧ Q s := by
  obtain ⟨s, hr, hq⟩ := h
  exact ⟨s, reach_runIf .init hr, hq⟩

/-- Where a step of `K` always leads closer to `Q`, a run of such steps gets there. -/
theorem run_until_by {K : ε → Prop} {I Q : σ → Prop} (μ : σ → Nat)
    (hs : ∀ s, I s → ¬ Q s → ∃ e s', K e ∧ step s e = some s' ∧ I s' ∧ μ s' < μ s) {s : σ} (hi : I s) :
    ∃ es t, (∀ e ∈ es, K e) ∧ run step s es = some t ∧ I t ∧ Q t := by
  induction hn : μ s using Nat.strongRecOn generalizing s with
  | ind n ih =>
    by_cases hq : Q s
    · exact ⟨[], s, by simp, rfl, hi, hq⟩
    · obtain ⟨e, s', hk, he, hi', hlt⟩ := hs s hi hq
      obtain ⟨es, t, hes, hr, ht⟩ := ih (μ s') (hn ▸ hlt) hi' rfl
      exact ⟨e :: es, t, List.forall_mem_cons.mpr ⟨hk, hes⟩, by simp only [run, he]; exact hr, ht⟩

theorem run_until {I Q : σ → Prop} (μ : σ → Nat)
    (hs : ∀ s, I s → ¬ Q s → ∃ e s', step s e = some s' ∧ I s' ∧ μ s' < μ s) {s : σ} (hi : I s) :
    ∃ es t, run step s es = some t ∧ Q t := by
  obtain ⟨es, t, -, hr, -, hq⟩ := run_until_by (K := fun _ => True) μ (fun s hi hq => by
    obtain ⟨e, s', he, h⟩ := hs s hi hq
    exact ⟨e, s', trivial, he, h⟩) hi
  exact ⟨es, t, hr, hq⟩

/-! ## A property that fails at the first step against the condition -/

/-- Every state along the run `es` from `s0` has `P`. -/
def Always (step : σ → ε → Option σ) (P : σ → Prop) (s0 : σ) (es : List ε) : Prop :=
  ∀ pre s, pre <+: es → run step s0 pre = some s → P s

/-- Every step along the run `es` from `s0` meets `ok`. -/
def Steps (step : σ → ε → Option σ) (ok : σ → ε → Prop) (s0 : σ) (es : List ε) : Prop :=
  ∀ pre e s s', pre ++ [e] <+: es → run step s0 pre = some s → step s e = some s' → ok s e

/-- A guarded run that can be computed to its end meets the condition at every step. -/
theorem steps_of_runIf (okb : σ → ε → Bool) {es : List ε} {s t : σ} (h : runIf step okb s es = some t) :
    Steps step (fun s e => okb s e = true) s es := by
  induction es generalizing s with
  | nil => exact fun _ _ _ _ hp => absurd (List.prefix_nil.mp hp) (by simp)
  | cons f es ih =>
    simp only [runIf] at h
    split at h
    · rename_i hf
      cases hs : step s f with
      | none => rw [hs] at h; cases h
      | some u =>
        rw [hs] at h
        intro pre e v v' hp hr he
        cases pre with
        | nil =>
          obtain ⟨rfl, -⟩ := List.cons_prefix_cons.mp hp
          cases hr
          exact hf
        | cons g pre =>
          obtain ⟨rfl, hp'⟩ := List.cons_prefix_cons.mp hp
          simp only [run, hs] at hr
          exact ih h pre e v v' hp' hr he
    · cases h

theorem Steps.reach {es : List ε} (hs : Steps step ok s0 es) :
    ∀ {pre : List ε} {s : σ}, pre <+: es → run step s0 pre = some s → Reach step ok s0 s := by
  intro pre
  induction pre using List.reverseRecOn with
  | nil => intro s _ h; cases h; exact .init
  | append_singleton pre e ih =>
    intro s hp h
    have hp' : pre <+: es := (List.prefix_append pre [e]).trans hp
    rw [run_append] at h
    cases hr : run step s0 pre with
    | none => rw [hr] at h; cases h
    | some t =>
      have he : step t e = some s := by rw [← run_snoc hr e, run_append, hr]; rw [hr] at h; exact h
      exact .step e (ih hp' hr) (hs pre e t s hp hr he) he

theorem always_iff {P : σ → Prop} (hP : ∀ s, Reach step ok s0 s → P s)
    (hbreak : ∀ s e s', Reach step ok s0 s → step s e = some s' → ¬ ok s e → ¬ P s') (es : List ε) :
    Always step P s0 es ↔ Steps step ok s0 es := by
  constructor
  · intro ha
    -- the longest prefix whose steps all meet `ok`, one step at a time
    suffices ∀ pre, pre <+: es → Steps step ok s0 pre from this es (List.prefix_refl es)
    intro pre
    induction pre using List.reverseRecOn with
    | nil =>
      intro _ p e s s' hp
      exact absurd (List.prefix_nil.mp hp) (by simp)
    | append_singleton pre e ih =>
      intro hp
      have ih := ih ((List.prefix_append pre [e]).trans hp)
      intro p f s s' hpf hr he
      rcases List.prefix_concat_iff.mp hpf with heq | hpre
      · obtain ⟨rfl, hfe⟩ := List.append_inj' heq rfl
        cases hfe
        apply Classical.byContradiction
        intro hn
        have hreach := ih.reach (List.prefix_refl _) hr
        exact hbreak s e s' hreach he hn (ha (p ++ [e]) s' hp (by rw [run_snoc hr, he]))
      · exact ih p f s s' hpre hr he
  · intro hs pre s hp hr
    exact hP s (hs.reach hp hr)

/-! ## A log that grows at its end -/

theorem mem_snoc {α : Type} {l : List α} {a b : α} : b ∈ l ++ [a] ↔ b ∈ l ∨ b = a := by simp

theorem count_snoc {α : Type} [DecidableEq α] (l : List α) (a b : α) :
    (l ++ [a]).count b = l.count b + if a = b then 1 else 0 := by
  rw [List.count_append, List.count_singleton]
  simp

theorem nodup_snoc {α : Type} {l : List α} {x : α} (h : l.Nodup) (hx : x ∉ l) : (l ++ [x]).Nodup :=
  List.concat_eq_append ▸ h.concat hx

/-- Somewhere in the log `y` comes after an `x`. -/
def After {α : Type} (l : List α) (x y : α) : Prop := ∃ pre post, l = pre ++ x :: post ∧ y ∈ post

theorem After.mem {α : Type} {l : List α} {x y : α} (h : After l x y) : x ∈ l ∧ y ∈ l := by
  obtain ⟨pre, post, rfl, hy⟩ := h
  exact ⟨List.mem_append_right _ List.mem_cons_self, List.mem_append_right _ (List.mem_cons_of_mem _ hy)⟩

theorem after_snoc {α : Type} {l : List α} {x y m : α} : After (l ++ [m]) x y ↔ After l x y ∨ (y = m ∧ x ∈ l) := by
  constructor
  · intro ⟨pre, post, h, hy⟩
    induction post using List.reverseRecOn with
    | nil => cases hy
    | append_singleton post z _ =>
      rw [← List.cons_append, ← List.append_assoc] at h
      obtain ⟨hl, hm⟩ := List.append_inj' h rfl
      cases hm
      rcases List.mem_append.mp hy with hy | hy
      · exact .inl ⟨pre, post, hl, hy⟩
      · exact .inr ⟨List.mem_singleton.mp hy, by rw [hl]; simp⟩
  · intro h
    rcases h with ⟨pre, post, rfl, hy⟩ | ⟨rfl, hx⟩
    · exact ⟨pre, post ++ [m], by simp, List.mem_append_left _ hy⟩
    · obtain ⟨pre, post, rfl⟩ := List.mem_iff_append.mp hx
      exact ⟨pre, post ++ [y], by simp, by simp⟩

end UvWrapper.Lib.Trace
