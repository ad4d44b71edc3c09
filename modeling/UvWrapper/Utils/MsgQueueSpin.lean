/-
  UvWrapper.Utils.MsgQueueSpin — msg_thread when its queue is gone (see
  `UvWrapper.Utils.MsgQueueDestroy`).

  Only EIDRM, which a msgrcv that waits at the removal gets, breaks the loop: EINVAL, which every
  later msgrcv gets, goes back to the test of is_running, and so does the second msgrcv of E2BIG.

  Proved: msg_thread leaves its loop after finitely many steps if and only if, when the queue is
  removed, is_running is cleared or msg_thread waits in its first msgrcv (`leaves_iff`). A queue
  that is created again while on_msg runs makes msg_thread spin (`spins_on`). msg_queue_destroy,
  which clears is_running first, always gets to the end of its join (`join_leaves`).
-/

import UvWrapper.Utils.MsgQueueDestroy

namespace UvWrapper.Utils.MsgQueueDestroy

open UvWrapper.Lib.Trace
open UvWrapper.Utils.MsgQueue (Call)

variable {calls : Nat → Call} {onMsg : Bool} {s s' : St} {e : Ev} {k k0 : Kernel} {o : Outcome} {id : Nat}

/-! ## The loop after the removal -/

/-- The steps msg_thread still has to go, as long as nothing sends it round again. -/
def rank (s : St) : Nat :=
  match s.base.thread, s.loop with
  | .received _, _ => 4
  | .onMsg _, _ => 3
  | .free _, _ | .msgrcvNoError, _ | .msgrcv, .msgrcv => 2
  | .msgrcv, .test | .msgrcv, .waiting => 1
  | .msgrcv, .ended => 0

/-- msg_thread without a queue: round its loop, or out of it, or to the end of what it has in its hands. -/
theorem threadStep_gone (hg : gone s = true) (h : threadStep onMsg s = some s') :
    (s.base.thread = .msgrcv ∧ ∃ l, s' = { s with loop := l } ∧
      ((s.loop = .test ∧ l = if s.isRunning then .msgrcv else .ended) ∨ (s.loop = .msgrcv ∧ l = .test) ∨
        (s.loop = .waiting ∧ l = .ended))) ∨
    (s.base.thread ≠ .msgrcv ∧ ∃ b, s' = { s with base := b, loop := .test } ∧ rank s' < rank s) := by
  unfold threadStep at h
  split at h
  · rename_i ht
    left
    refine ⟨ht, ?_⟩
    split at h
    · rename_i hl
      cases h
      exact ⟨_, rfl, .inl ⟨hl, rfl⟩⟩
    · rename_i hl
      rw [if_pos hg] at h
      cases h
      exact ⟨.test, rfl, .inr (.inl ⟨hl, rfl⟩)⟩
    · rename_i hl
      rw [if_pos hg] at h
      cases h
      exact ⟨.ended, rfl, .inr (.inr ⟨hl, rfl⟩)⟩
    · cases h
  · rename_i ht
    right
    rw [if_pos hg] at h
    obtain ⟨c, hc, rfl⟩ := body_spec h
    simp only [MsgQueue.interrupt, ht] at hc
    cases hc
    exact ⟨by simp [ht], _, rfl, by simp [rank, ht]⟩
  · rename_i ht _
    right
    obtain ⟨c, hc, rfl⟩ := body_spec h
    refine ⟨ht, c, rfl, ?_⟩
    unfold MsgQueue.threadStep at hc
    split at hc
    · rename_i m hm
      split at hc
      · cases hc; simp [rank, hm]
      · split at hc <;> cases hc <;> simp [rank, hm]
    · rename_i m hm
      cases hc; simp [rank, hm]
    · rename_i m hm
      cases hc; simp [rank, hm]
    · cases hc

theorem threadStep_isSome (hg : gone s = true) (he : ended s = false) : (threadStep onMsg s).isSome = true := by
  have hne : s.base.thread = .msgrcv → s.loop ≠ .ended := fun ht hl => by
    rw [ended_iff.mpr ⟨ht, hl⟩] at he; cases he
  unfold threadStep
  split
  · rename_i ht
    split
    · rfl
    · rw [if_pos hg]; rfl
    · rw [if_pos hg]; rfl
    · rename_i hl
      exact absurd hl (hne ht)
  · rename_i ht
    rw [if_pos hg]
    simp [body, MsgQueue.interrupt, ht]
  · rename_i h1 h2
    unfold body MsgQueue.threadStep
    cases ht : s.base.thread with
    | msgrcv => exact absurd ht h1
    | msgrcvNoError => exact absurd ht h2
    | received m => simp only; split <;> (try split) <;> rfl
    | onMsg m => rfl
    | free m => rfl

/-- msg_thread takes finitely many steps from here, and is never stuck before it has left its loop. -/
def Leaves (calls : Nat → Call) (onMsg : Bool) (s : St) : Prop :=
  ∃ n, ∀ es t, run (step calls onMsg) s es = some t →
    es.count .thread ≤ n ∧ (ended t = false → (step calls onMsg t .thread).isSome = true)

structure Leaving (s : St) : Prop where
  id : s.msgId < s.kernel.next
  removed : gone s = true
  out : s.isRunning = false ∨ (s.base.thread = .msgrcv ∧ (s.loop = .waiting ∨ s.loop = .ended))

theorem rank_loop {l : Loop} (ht : s.base.thread = .msgrcv)
    (hl : l = .test ∧ s.loop = .msgrcv ∨ l = .ended ∧ s.loop ≠ .ended) :
    rank { s with loop := l } < rank s := by
  rcases hl with ⟨rfl, hl⟩ | ⟨rfl, hl⟩
  · simp [rank, ht, hl]
  · cases h : s.loop with
    | ended => exact absurd h hl
    | _ => simp [rank, ht, h]

/-- Around msg_thread nothing takes it back. -/
theorem leaving_frame (hl : Leaving s) (h : step calls onMsg s e = some s') (he : e ≠ .thread) :
    Leaving s' ∧ rank s' = rank s := by
  have hr : Reach (step calls onMsg) Free s s' := .step e .init trivial h
  have hg := gone_reach hl.id hl.removed hr
  have hid : s'.msgId < s'.kernel.next := by
    obtain ⟨hm, hk⟩ := reach_later hr
    exact hm ▸ Nat.lt_of_lt_of_le hl.id hk.next
  cases e with
  | sender f =>
    simp only [step] at h
    split at h
    · rename_i hf
      obtain ⟨b, hb, rfl⟩ := Option.map_eq_some_iff.mp h
      have ht := (MsgQueue.moved hb).thread (sends_bySender hf)
      exact ⟨⟨hid, hg, hl.out.imp_right fun h => ⟨ht.trans h.1, h.2⟩⟩, by simp only [rank, ht]⟩
    · cases h
  | thread => exact absurd rfl he
  | interrupt => simp [step, interrupt, hl.removed] at h
  | destroy =>
    simp only [step, destroyStep] at h
    split at h
    · cases h; exact ⟨⟨hid, hg, .inl rfl⟩, rfl⟩
    · cases h; exact ⟨⟨hid, hg, hl.out⟩, rfl⟩
    · split at h <;> cases h
      exact ⟨⟨hid, hg, hl.out⟩, rfl⟩
    · cases h
  | create o => cases h; exact ⟨⟨hid, hg, hl.out⟩, rfl⟩

theorem leaving_thread (hl : Leaving s) (h : threadStep onMsg s = some s') : Leaving s' ∧ rank s' < rank s := by
  rcases threadStep_gone hl.removed h with ⟨ht, l, rfl, hl'⟩ | ⟨ht, b, rfl, hb⟩
  · rcases hl' with ⟨ho, rfl⟩ | ⟨ho, rfl⟩ | ⟨ho, rfl⟩
    · have hr : s.isRunning = false := hl.out.resolve_right fun h => by
        rcases h.2 with h | h <;> rw [ho] at h <;> cases h
      rw [if_neg (by rw [hr]; simp)]
      exact ⟨⟨hl.id, hl.removed, .inl hr⟩, rank_loop ht (.inr ⟨rfl, by rw [ho]; simp⟩)⟩
    · have hr : s.isRunning = false := hl.out.resolve_right fun h => by
        rcases h.2 with h | h <;> rw [ho] at h <;> cases h
      exact ⟨⟨hl.id, hl.removed, .inl hr⟩, rank_loop ht (.inl ⟨rfl, ho⟩)⟩
    · exact ⟨⟨hl.id, hl.removed, .inr ⟨ht, .inr rfl⟩⟩, rank_loop ht (.inr ⟨rfl, by rw [ho]; simp⟩)⟩
  · have hr : s.isRunning = false := hl.out.resolve_right fun h => ht h.1
    exact ⟨⟨hl.id, hl.removed, .inl hr⟩, hb⟩

theorem leaves_of_leaving (hl : Leaving s) : Leaves calls onMsg s := by
  refine ⟨rank s, fun es t hr => ?_⟩
  have hmeas : Leaving t ∧ es.count .thread + rank t ≤ rank s := by
    refine run_induction (P := fun es t => Leaving t ∧ es.count .thread + rank t ≤ rank s) ?_ ?_ hr
    · exact ⟨hl, by simp⟩
    · intro es u e v _ ⟨hu, hn⟩ h
      rw [count_snoc]
      by_cases he : e = .thread
      · subst he
        obtain ⟨hv, hlt⟩ := leaving_thread hu h
        exact ⟨hv, by simp only [if_true]; omega⟩
      · obtain ⟨hv, heq⟩ := leaving_frame hu h he
        exact ⟨hv, by simp only [he, if_false]; omega⟩
  exact ⟨by omega, fun he => threadStep_isSome hmeas.1.removed he⟩

/-- After msg_queue_destroy's msgctl, whoever removed the queue: its pthread_join comes to an end. -/
theorem join_leaves (hs : msgQueueCreate k0 o = (k, some id)) (hr : Reach (step calls onMsg) Free (start k id) s)
    (hd : s.destroyer = .join) : Leaves calls onMsg s := by
  have hi : Inv s := reach_inv (start_inv hs) hr
  exact leaves_of_leaving ⟨hi.id, hi.removed (.inl hd), .inl (hi.cleared (by rw [hd]; simp))⟩

/-- msg_thread runs, and does not wait, where there is no queue. -/
structure Spin (s : St) : Prop where
  removed : gone s = true
  running : s.isRunning = true
  inside : ¬ (s.base.thread = .msgrcv ∧ (s.loop = .waiting ∨ s.loop = .ended))

/-- EINVAL leads back to the test, and the test to the next msgrcv. -/
theorem spin_thread (onMsg : Bool) (hs : Spin s) : ∃ s', threadStep onMsg s = some s' ∧ Spin s' := by
  have he : ended s = false := by
    by_cases he : ended s = true
    · obtain ⟨ht, hl⟩ := ended_iff.mp he
      exact absurd ⟨ht, .inr hl⟩ hs.inside
    · simpa using he
  have hsome : (threadStep onMsg s).isSome = true := threadStep_isSome hs.removed he
  obtain ⟨s', h⟩ := Option.isSome_iff_exists.mp hsome
  refine ⟨s', h, ?_⟩
  rcases threadStep_gone hs.removed h with ⟨ht, l, rfl, hl⟩ | ⟨ht, b, rfl, -⟩
  · rcases hl with ⟨ho, rfl⟩ | ⟨ho, rfl⟩ | ⟨ho, rfl⟩
    · exact ⟨hs.removed, hs.running, fun h => by simp [hs.running] at h⟩
    · exact ⟨hs.removed, hs.running, fun h => by simp at h⟩
    · exact absurd ⟨ht, .inl ho⟩ hs.inside
  · exact ⟨hs.removed, hs.running, fun h => by simp at h⟩

theorem spin_run (calls : Nat → Call) (onMsg : Bool) (hs : Spin s) (n : Nat) :
    ∃ t, run (step calls onMsg) s (List.replicate n .thread) = some t := by
  induction n generalizing s with
  | zero => exact ⟨s, rfl⟩
  | succ n ih =>
    obtain ⟨s', h, hs'⟩ := spin_thread onMsg hs
    obtain ⟨t, ht⟩ := ih hs'
    exact ⟨t, by simp only [List.replicate_succ, run, step, h]; exact ht⟩

theorem not_leaves_of_spin (hs : Spin s) : ¬ Leaves calls onMsg s := by
  intro ⟨n, h⟩
  obtain ⟨t, ht⟩ := spin_run calls onMsg hs (n + 1)
  have := (h _ t ht).1
  rw [List.count_replicate_self] at this
  omega

theorem leaves_iff (hs : msgQueueCreate k0 o = (k, some id)) (hr : Reach (step calls onMsg) Free (start k id) s)
    (h : step calls onMsg s e = some s') (hg : gone s = false) (hg' : gone s' = true) :
    Leaves calls onMsg s' ↔ s.isRunning = false ∨ (s.base.thread = .msgrcv ∧ s.loop = .waiting) := by
  have hi : Inv s := reach_inv (start_inv hs) hr
  obtain ⟨hb, hl, hrun⟩ := removal_spec h hg hg'
  constructor
  · intro hleave
    by_cases hc : s.isRunning = false ∨ (s.base.thread = .msgrcv ∧ s.loop = .waiting)
    · exact hc
    · obtain ⟨hrunning, hnot⟩ := not_or.mp hc
      refine absurd hleave (not_leaves_of_spin ⟨hg', by rw [hrun]; simpa using hrunning, fun ⟨ht, hw⟩ => ?_⟩)
      rw [hb] at ht
      rw [hl] at hw
      rcases hw with hw | hw
      · exact hnot ⟨ht, hw⟩
      · rcases hi.left (ended_iff.mpr ⟨ht, hw⟩) with h | h
        · exact hrunning h
        · rw [hg] at h; cases h
  · intro hc
    refine leaves_of_leaving ⟨(step_inv hi h).id, hg', ?_⟩
    rw [hb, hl, hrun]
    exact hc.imp_right fun h => ⟨h.1, .inl h.2⟩

/-- msg_queue_destroy while on_msg runs. -/
theorem destroyed_leaves : ∃ s s' : St, Reach (step oneCall true) Free created s ∧ s.base.thread ≠ .msgrcv ∧
    step oneCall true s .destroy = some s' ∧ gone s' = true ∧ Leaves oneCall true s' := by
  obtain ⟨s, hr, hg, ht, hrun, s', h, hg'⟩ := reach_of_run (step oneCall true) created
    (fun s => gone s = false ∧ s.base.thread ≠ .msgrcv ∧ s.isRunning = false ∧
      ∃ s', step oneCall true s .destroy = some s' ∧ gone s' = true)
    (sendOne ++ [.thread, .thread, .thread, .destroy]) ⟨_, rfl, rfl, by decide, rfl, _, rfl, rfl⟩
  exact ⟨s, s', hr, ht, h, hg', (leaves_iff created_eq hr h hg hg').mpr (.inl hrun)⟩

/-- Another msg_queue_create with the same key while on_msg runs. -/
theorem spins_on : ∃ s s' : St, Reach (step oneCall true) Free created s ∧
    step oneCall true s (.create allWell) = some s' ∧ gone s = false ∧ gone s' = true ∧ ¬ Leaves oneCall true s' := by
  obtain ⟨s, hr, hg, s', h, hg', hrun, ht⟩ := reach_of_run (step oneCall true) created
    (fun s => gone s = false ∧ ∃ s', step oneCall true s (.create allWell) = some s' ∧ gone s' = true ∧
      s'.isRunning = true ∧ s'.base.thread ≠ .msgrcv)
    (sendOne ++ [.thread, .thread, .thread]) ⟨_, rfl, rfl, _, rfl, rfl, rfl, by decide⟩
  exact ⟨s, s', hr, h, hg, hg', not_leaves_of_spin ⟨hg', hrun, fun h => ht h.1⟩⟩

end UvWrapper.Utils.MsgQueueDestroy
