/-
  UvWrapper.Utils.MsgQueueDestroy — the end of a message queue (msg_queue.c): msg_queue_create,
  msg_queue_destroy and the loop of msg_thread around what `UvWrapper.Utils.MsgQueue` follows.

  The kernel's queue goes with msgctl(IPC_RMID), by msg_queue_destroy or by another
  msg_queue_create with the same key; ids are not used twice. The key is not IPC_PRIVATE (0), for
  which every msgget makes another queue; the component's COMPONENT is 0. A msgrcv that waits then
  fails with EIDRM, also when a message came that it had not taken yet; a msgrcv or msgsnd that is
  called later fails with EINVAL. on_msg returns.

  Proved: a queue that is removed keeps the messages in it (`queue_kept`); a run to the end of
  msg_queue_destroy removes it in one step (`done_removed`). When msg_queue_destroy returns, every
  copy that was sent has been freed once if and only if no message of msg_send's was in the queue
  at that step, and the second msgrcv had dropped none (`freed_iff`); one that was in the queue
  stays allocated (`queued_leaks`).
-/

import UvWrapper.Utils.MsgQueueProofs

namespace UvWrapper.Utils.MsgQueueDestroy

open UvWrapper.Lib.Trace
open UvWrapper.Utils.MsgQueue (Call Sent Entry)

/-! ## The queues of one key -/

structure Kernel where
  /-- The id of the queue that the key names. -/
  current : Option Nat
  next : Nat
  fresh : ∀ i, current = some i → i < next

/-- `msgget(key, IPC_CREAT)`, with IPC_EXCL or without. `ok`: the kernel has no other reason to refuse. -/
def msgget (k : Kernel) (excl ok : Bool) : Kernel × Option Nat :=
  match k.current with
  | some i => (k, if ok && !excl then some i else none)
  | none =>
    if ok then (⟨some k.next, k.next + 1, fun i h => by cases h; exact Nat.lt_succ_self _⟩, some k.next)
    else (k, none)

def msgctlRmid (k : Kernel) (id : Nat) : Kernel :=
  if k.current = some id then { k with current := none, fresh := fun i h => by cases h } else k

/-- What malloc and the three msggets say to a msg_queue_create. -/
structure Outcome where
  malloc : Bool
  first : Bool
  second : Bool
  third : Bool
  deriving DecidableEq

/-- `msg_queue_create`, up to its msg_queue_t: the id in it. -/
def msgQueueCreate (k : Kernel) (o : Outcome) : Kernel × Option Nat :=
  if o.malloc then
    match msgget k true o.first with
    | (k1, some id) => (k1, some id)
    | (k1, none) =>
      match msgget k1 false o.second with
      | (k2, none) => (k2, none)
      -- delete old msg, create new msg
      | (k2, some id) => msgget (msgctlRmid k2 id) false o.third
  else (k, none)

/-! ## State -/

/-- Where msg_thread is in its loop, with no message in its hands. -/
inductive Loop where
  /-- while (args->is_running). -/
  | test
  | msgrcv
  /-- In msgrcv, with nothing to receive. -/
  | waiting
  | ended
  deriving DecidableEq, Repr

inductive Destroyer where
  | idle
  | rmid
  | join
  | done
  deriving DecidableEq, Repr

structure St where
  /-- A removed queue takes and gives no message: its messages stay here. -/
  base : MsgQueue.St
  kernel : Kernel
  msgId : Nat
  isRunning : Bool
  loop : Loop
  destroyer : Destroyer

def start (k : Kernel) (id : Nat) : St := ⟨MsgQueue.init, k, id, true, .test, .idle⟩

def gone (s : St) : Bool := s.kernel.current != some s.msgId

def ended (s : St) : Bool := s.base.thread == .msgrcv && s.loop == .ended

/-! ## Steps -/

variable (calls : Nat → Call) (onMsg : Bool)

/-- What the senders do, as far as a removed queue lets them. -/
def sends (s : St) : MsgQueue.Ev → Bool
  | .call _ | .malloc _ _ => true
  | .send _ accepted => !(accepted && gone s)
  | .foreign _ => !gone s
  | _ => false

inductive Errno where
  | eidrm
  | einval
  | eintr
  deriving DecidableEq, Repr

/-- msg_thread after a msgrcv that failed, for another reason than E2BIG. -/
def failed (s : St) : Errno → St
  | .eidrm => { s with loop := .ended }
  | _ => { s with loop := .test }

/-- What msg_thread does with what it has or receives; its loop is next. -/
def body (s : St) (b : Option MsgQueue.St) : Option St := b.map fun b => { s with base := b, loop := .test }

def threadStep (s : St) : Option St :=
  match s.base.thread with
  | .msgrcv =>
    match s.loop with
    | .test => some { s with loop := if s.isRunning then .msgrcv else .ended }
    | .msgrcv =>
      if gone s then some (failed s .einval)
      else if s.base.queue = [] then some { s with loop := .waiting }
      else body s (MsgQueue.receive s.base)
    | .waiting => if gone s then some (failed s .eidrm) else body s (MsgQueue.receive s.base)
    | .ended => none
  | .msgrcvNoError => body s (if gone s then MsgQueue.interrupt s.base else MsgQueue.receive s.base)
  | _ => body s (MsgQueue.threadStep onMsg s.base)

def interrupt (s : St) : Option St :=
  if gone s then none
  else match s.base.thread, s.loop with
  | .msgrcv, .waiting => some (failed s .eintr)
  | .msgrcvNoError, _ => body s (MsgQueue.interrupt s.base)
  | _, _ => none

def destroyStep (s : St) : Option St :=
  match s.destroyer with
  | .idle => some { s with isRunning := false, destroyer := .rmid }
  | .rmid => some { s with kernel := msgctlRmid s.kernel s.msgId, destroyer := .join }
  | .join => if ended s then some { s with destroyer := .done } else none
  | .done => none

inductive Ev where
  | sender (e : MsgQueue.Ev)
  | thread
  | interrupt
  | destroy
  /-- Another msg_queue_create with the same key. -/
  | create (o : Outcome)
  deriving DecidableEq

def step (s : St) : Ev → Option St
  | .sender e => if sends s e then (MsgQueue.step calls onMsg s.base e).map fun b => { s with base := b } else none
  | .thread => threadStep onMsg s
  | .interrupt => interrupt s
  | .destroy => destroyStep s
  | .create o => some { s with kernel := (msgQueueCreate s.kernel o).1 }

/-! ## The kernel's ids -/

/-- Some msggets and msgctls later: what the key names is what it named, or newer. -/
structure Later (k k' : Kernel) : Prop where
  next : k.next ≤ k'.next
  current : ∀ i, k'.current = some i → k.current = some i ∨ k.next ≤ i

theorem Later.refl (k : Kernel) : Later k k := ⟨Nat.le_refl _, fun _ h => .inl h⟩

theorem Later.trans {k k' k'' : Kernel} (h : Later k k') (h' : Later k' k'') : Later k k'' := by
  refine ⟨Nat.le_trans h.next h'.next, fun i hi => ?_⟩
  rcases h'.current i hi with hi | hi
  · exact h.current i hi
  · exact .inr (Nat.le_trans h.next hi)

theorem msgget_later {k : Kernel} {excl ok : Bool} {r : Kernel × Option Nat} (h : msgget k excl ok = r) :
    Later k r.1 := by
  rw [← h]
  unfold msgget
  split
  · exact .refl k
  · split
    · refine ⟨Nat.le_succ _, fun i hi => .inr ?_⟩
      cases hi
      exact Nat.le_refl _
    · exact .refl k

theorem msgget_current {k k' : Kernel} {excl ok : Bool} {id : Nat} (h : msgget k excl ok = (k', some id)) :
    k'.current = some id := by
  unfold msgget at h
  split at h
  · rename_i i hi
    split at h
    · cases h
      exact hi
    · cases h
  · split at h
    · cases h
      rfl
    · cases h

theorem msgctlRmid_later (k : Kernel) (id : Nat) : Later k (msgctlRmid k id) := by
  unfold msgctlRmid
  split
  · exact ⟨Nat.le_refl _, fun i hi => by cases hi⟩
  · exact .refl k

theorem msgQueueCreate_later (k : Kernel) (o : Outcome) : Later k (msgQueueCreate k o).1 := by
  unfold msgQueueCreate
  split
  · split
    · rename_i k1 id h1
      exact msgget_later h1
    · rename_i k1 h1
      have hk1 : Later k k1 := msgget_later h1
      split
      · rename_i k2 h2
        exact hk1.trans (msgget_later h2)
      · rename_i k2 id h2
        have hk2 : Later k1 k2 := msgget_later h2
        exact hk1.trans (hk2.trans ((msgctlRmid_later k2 id).trans (msgget_later rfl)))
  · exact .refl k

/-- A msg_queue_create that succeeds has made the queue that the key names. -/
theorem msgQueueCreate_current {k k' : Kernel} {o : Outcome} {id : Nat} (h : msgQueueCreate k o = (k', some id)) :
    k'.current = some id := by
  unfold msgQueueCreate at h
  split at h
  · split at h
    · rename_i k1 i h1
      cases h
      exact msgget_current h1
    · split at h
      · cases h
      · exact msgget_current h
  · cases h

/-! ## What a step leaves alone -/

variable {calls onMsg} {s s' t : St} {e : Ev} {k k0 : Kernel} {o : Outcome} {id : Nat}

/-- From `a` to `b` in at most one step of `UvWrapper.Utils.MsgQueue`. -/
def Moves (calls : Nat → Call) (onMsg removed : Bool) (a b : MsgQueue.St) : Prop :=
  b = a ∨ ∃ f, MsgQueue.step calls onMsg a f = some b ∧ (removed = true → MsgQueue.quiet f = true)

theorem body_spec {b : Option MsgQueue.St} (h : body s b = some s') :
    ∃ c, b = some c ∧ s' = { s with base := c, loop := .test } := by
  obtain ⟨c, hc, rfl⟩ := Option.map_eq_some_iff.mp h
  exact ⟨c, hc, rfl⟩

/-- msg_thread moves its own program counter, and what it has in its hands. -/
theorem threadStep_spec (calls : Nat → Call) (h : threadStep onMsg s = some s') :
    ∃ b l, s' = { s with base := b, loop := l } ∧ Moves calls onMsg (gone s) s.base b := by
  have hbody : ∀ {b : Option MsgQueue.St} (f : MsgQueue.Ev), b = MsgQueue.step calls onMsg s.base f →
      (gone s = true → MsgQueue.quiet f = true) → body s b = some s' →
      ∃ b l, s' = { s with base := b, loop := l } ∧ Moves calls onMsg (gone s) s.base b := by
    intro b f hb hq h
    obtain ⟨c, hc, rfl⟩ := body_spec h
    exact ⟨c, .test, rfl, .inr ⟨f, hb ▸ hc, hq⟩⟩
  have hloop : ∀ {l : Loop}, some { s with loop := l } = some s' →
      ∃ b l, s' = { s with base := b, loop := l } ∧ Moves calls onMsg (gone s) s.base b := by
    intro l h
    cases h
    exact ⟨s.base, l, rfl, .inl rfl⟩
  unfold threadStep at h
  split at h
  · split at h
    · exact hloop h
    · split at h
      · exact hloop h
      · rename_i hg
        split at h
        · exact hloop h
        · exact hbody .receive rfl (fun h => absurd h hg) h
    · split at h
      · exact hloop h
      · rename_i hg
        exact hbody .receive rfl (fun h => absurd h hg) h
    · cases h
  · split at h
    · exact hbody .interrupt rfl (fun _ => rfl) h
    · rename_i hg
      exact hbody .receive rfl (fun h => absurd h hg) h
  · exact hbody .thread rfl (fun _ => rfl) h

theorem interrupt_spec (calls : Nat → Call) (onMsg : Bool) (h : interrupt s = some s') :
    ∃ b l, s' = { s with base := b, loop := l } ∧ Moves calls onMsg (gone s) s.base b := by
  unfold interrupt at h
  split at h
  · cases h
  · split at h
    · cases h
      exact ⟨s.base, .test, rfl, .inl rfl⟩
    · obtain ⟨c, hc, rfl⟩ := body_spec h
      exact ⟨c, .test, rfl, .inr ⟨.interrupt, hc, fun _ => rfl⟩⟩
    · cases h

theorem sends_bySender {f : MsgQueue.Ev} (h : sends s f = true) : MsgQueue.bySender f = true := by
  cases f with
  | receive | interrupt | thread => cases h
  | _ => rfl

theorem sends_quiet {f : MsgQueue.Ev} (h : sends s f = true) (hg : gone s = true) : MsgQueue.quiet f = true := by
  unfold sends at h
  split at h <;> simp_all [MsgQueue.quiet]

/-- A step is msg_thread's or a sender's, or one around them. -/
theorem step_spec (h : step calls onMsg s e = some s') :
    (∃ b l, s' = { s with base := b, loop := l } ∧ Moves calls onMsg (gone s) s.base b) ∨
      ∃ c r d, s' = { s with kernel := c, isRunning := r, destroyer := d } ∧ Later s.kernel c ∧
        (r = s.isRunning ∨ c = s.kernel) := by
  cases e with
  | sender f =>
    simp only [step] at h
    split at h
    · rename_i hf
      obtain ⟨b, hb, rfl⟩ := Option.map_eq_some_iff.mp h
      exact .inl ⟨b, s.loop, rfl, .inr ⟨f, hb, sends_quiet hf⟩⟩
    · cases h
  | thread => exact .inl (threadStep_spec calls h)
  | interrupt => exact .inl (interrupt_spec calls onMsg h)
  | destroy =>
    right
    simp only [step, destroyStep] at h
    split at h
    · cases h
      exact ⟨s.kernel, false, .rmid, rfl, .refl _, .inr rfl⟩
    · cases h
      exact ⟨_, s.isRunning, .join, rfl, msgctlRmid_later _ _, .inl rfl⟩
    · split at h
      · cases h
        exact ⟨s.kernel, s.isRunning, .done, rfl, .refl _, .inl rfl⟩
      · cases h
    · cases h
  | create o =>
    simp only [step] at h
    cases h
    exact .inr ⟨_, s.isRunning, s.destroyer, rfl, msgQueueCreate_later _ _, .inl rfl⟩

/-- The queue goes in one step, which moves nothing else. -/
theorem removal_spec (h : step calls onMsg s e = some s') (hg : gone s = false) (hg' : gone s' = true) :
    s'.base = s.base ∧ s'.loop = s.loop ∧ s'.isRunning = s.isRunning := by
  rcases step_spec h with ⟨b, l, rfl, -⟩ | ⟨c, r, d, rfl, -, hr⟩
  · have : gone s = true := hg'
    rw [hg] at this; cases this
  · refine ⟨rfl, rfl, hr.resolve_right fun hc => ?_⟩
    have : gone s = true := by rw [← hg']; simp [gone, hc]
    rw [hg] at this; cases this

/-! ## Along a run -/

theorem reach_later (hr : Reach (step calls onMsg) Free s t) : t.msgId = s.msgId ∧ Later s.kernel t.kernel := by
  induction hr with
  | init => exact ⟨rfl, .refl _⟩
  | step e _ _ he ih =>
    rcases step_spec he with ⟨b, l, rfl, -⟩ | ⟨c, r, d, rfl, hc, -⟩
    · exact ih
    · exact ⟨ih.1, ih.2.trans hc⟩

theorem gone_later {k k' : Kernel} {id : Nat} (hl : Later k k') (hid : id < k.next) (hg : k.current ≠ some id) :
    k'.current ≠ some id := fun h => by
  rcases hl.current id h with h | h
  · exact hg h
  · omega

/-- A queue that is removed does not come back. -/
theorem gone_reach (hid : s.msgId < s.kernel.next) (hg : gone s = true) (hr : Reach (step calls onMsg) Free s t) :
    gone t = true := by
  obtain ⟨hm, hl⟩ := reach_later hr
  unfold gone at hg ⊢
  rw [bne_iff_ne] at hg ⊢
  rw [hm]
  exact gone_later hl hid hg

theorem base_reach (hb : Reach (MsgQueue.step calls onMsg) Free MsgQueue.init s.base)
    (hr : Reach (step calls onMsg) Free s t) : Reach (MsgQueue.step calls onMsg) Free MsgQueue.init t.base := by
  induction hr with
  | init => exact hb
  | step e _ _ he ih =>
    rcases step_spec he with ⟨b, l, rfl, hm⟩ | ⟨c, r, d, rfl, -⟩
    · rcases hm with rfl | ⟨f, hf, -⟩
      · exact ih
      · exact .step f ih trivial hf
    · exact ih

/-- Nobody takes a message out of a removed queue. -/
theorem queue_kept (hid : s.msgId < s.kernel.next) (hg : gone s = true) (hr : Reach (step calls onMsg) Free s t) :
    t.base.queue = s.base.queue ∧ t.base.dropped = s.base.dropped := by
  induction hr with
  | init => exact ⟨rfl, rfl⟩
  | @step u _ e hu _ he ih =>
    rcases step_spec he with ⟨b, l, rfl, hm⟩ | ⟨c, r, d, rfl, -⟩
    · rcases hm with rfl | ⟨f, hf, hq⟩
      · exact ih
      · have hquiet := hq (gone_reach hid hg hu)
        have hdropped := (MsgQueue.moved hf).dropped.resolve_right fun h => by
          rw [h.2] at hquiet
          cases hquiet
        exact ⟨((MsgQueue.moved hf).queue hquiet).trans ih.1, hdropped.trans ih.2⟩
    · exact ih

/-! ## The invariant -/

structure Inv (s : St) : Prop where
  id : s.msgId < s.kernel.next
  cleared : s.destroyer ≠ .idle → s.isRunning = false
  removed : s.destroyer = .join ∨ s.destroyer = .done → gone s = true
  done : s.destroyer = .done → ended s = true
  left : ended s = true → s.isRunning = false ∨ gone s = true

theorem ended_iff : ended s = true ↔ s.base.thread = .msgrcv ∧ s.loop = .ended := by simp [ended]

theorem start_inv (hs : msgQueueCreate k0 o = (k, some id)) : Inv (start k id) := by
  refine ⟨k.fresh id (msgQueueCreate_current hs), fun h => absurd rfl h, fun h => ?_, fun h => ?_, fun h => ?_⟩
  · rcases h with h | h <;> cases h
  · cases h
  · cases h

theorem ended_stuck (h : ended s = true) : threadStep onMsg s = none := by
  obtain ⟨ht, hl⟩ := ended_iff.mp h
  simp only [threadStep, ht, hl]

/-- msg_thread leaves its loop by the test of is_running or by EIDRM. -/
theorem threadStep_ended (h : threadStep onMsg s = some s') (he : ended s' = true) :
    s.isRunning = false ∨ gone s = true := by
  by_cases hg : gone s = true
  · exact .inr hg
  · have hbody : ∀ {b : Option MsgQueue.St}, body s b = some s' → s.isRunning = false ∨ gone s = true := by
      intro b h
      obtain ⟨c, -, rfl⟩ := body_spec h
      cases (ended_iff.mp he).2
    unfold threadStep at h
    split at h
    · split at h
      · cases h
        by_cases hr : s.isRunning = true
        · have hl := (ended_iff.mp he).2
          simp [hr] at hl
        · exact .inl (by simpa using hr)
      · rw [if_neg hg] at h
        split at h
        · cases h
          cases (ended_iff.mp he).2
        · exact hbody h
      · rw [if_neg hg] at h
        exact hbody h
      · cases h
    · exact hbody h
    · exact hbody h

theorem destroy_inv (hi : Inv s) (h : destroyStep s = some s') : Inv s' := by
  unfold destroyStep at h
  split at h
  · cases h
    exact ⟨hi.id, fun _ => rfl, by simp, by simp, fun _ => .inl rfl⟩
  · rename_i hd
    cases h
    have hg : (msgctlRmid s.kernel s.msgId).current ≠ some s.msgId := by
      unfold msgctlRmid
      split
      · simp
      · assumption
    have hg' : gone { s with kernel := msgctlRmid s.kernel s.msgId, destroyer := .join } = true := bne_iff_ne.mpr hg
    exact ⟨Nat.lt_of_lt_of_le hi.id (msgctlRmid_later _ _).next, fun _ => hi.cleared (by rw [hd]; simp), fun _ => hg',
      by simp, fun _ => .inr hg'⟩
  · rename_i hd
    split at h
    · rename_i he
      cases h
      exact ⟨hi.id, fun _ => hi.cleared (by rw [hd]; simp), fun _ => hi.removed (.inl hd), fun _ => he, hi.left⟩
    · cases h
  · cases h

theorem step_inv (hi : Inv s) (h : step calls onMsg s e = some s') : Inv s' := by
  cases e with
  | sender f =>
    simp only [step] at h
    split at h
    · rename_i hf
      obtain ⟨b, hb, rfl⟩ := Option.map_eq_some_iff.mp h
      have ht := (MsgQueue.moved hb).thread (sends_bySender hf)
      have he : ended { s with base := b } = ended s := by simp only [ended, ht]
      exact ⟨hi.id, hi.cleared, hi.removed, fun h => he.trans (hi.done h), fun h => hi.left (he.symm.trans h)⟩
    · cases h
  | thread =>
    obtain ⟨b, l, hs, -⟩ := threadStep_spec calls h
    have hd : s.destroyer ≠ .done := fun hd => by
      rw [show step calls onMsg s .thread = none from ended_stuck (hi.done hd)] at h
      cases h
    have hl := threadStep_ended h
    cases hs
    exact ⟨hi.id, hi.cleared, hi.removed, fun h => absurd h hd, hl⟩
  | interrupt =>
    simp only [step] at h
    have hg : ¬ gone s = true := fun hg => by simp [interrupt, hg] at h
    have hend : ∀ h' : ended s' = true, False := fun he => by
      unfold interrupt at h
      rw [if_neg hg] at h
      split at h
      · cases h
        cases (ended_iff.mp he).2
      · obtain ⟨c, -, rfl⟩ := body_spec h
        cases (ended_iff.mp he).2
      · cases h
    obtain ⟨b, l, rfl, -⟩ := interrupt_spec calls onMsg h
    exact ⟨hi.id, hi.cleared, fun h => absurd (hi.removed h) hg, fun h => absurd (hi.removed (.inr h)) hg,
      fun h => (hend h).elim⟩
  | destroy => exact destroy_inv hi h
  | create o =>
    cases h
    have hl := msgQueueCreate_later s.kernel o
    have hg : gone s = true → gone { s with kernel := (msgQueueCreate s.kernel o).1 } = true := fun hg =>
      bne_iff_ne.mpr (gone_later hl hi.id (bne_iff_ne.mp hg))
    exact ⟨Nat.lt_of_lt_of_le hi.id hl.next, hi.cleared, fun h => hg (hi.removed h), hi.done,
      fun h => (hi.left h).imp_right hg⟩

theorem reach_inv (hi : Inv s) (hr : Reach (step calls onMsg) Free s t) : Inv t :=
  hr.invariant hi fun _ _ _ hi _ h => step_inv hi h

/-- Every run to the end of msg_queue_destroy has one step that removes the queue. -/
theorem done_removed (hs : msgQueueCreate k0 o = (k, some id)) (hr : Reach (step calls onMsg) Free (start k id) t)
    (hd : t.destroyer = .done) :
    ∃ s e s', Reach (step calls onMsg) Free (start k id) s ∧ step calls onMsg s e = some s' ∧ gone s = false ∧
      gone s' = true ∧ Reach (step calls onMsg) Free s' t := by
  have hg : gone t = true := (reach_inv (start_inv hs) hr).removed (.inr hd)
  clear hd
  induction hr with
  | init =>
    have : gone (start k id) = false := by simp [gone, start, msgQueueCreate_current hs]
    rw [this] at hg; cases hg
  | @step u v e hu _ he ih =>
    by_cases hgu : gone u = true
    · obtain ⟨s, f, s', h1, h2, h3, h4, h5⟩ := ih hgu
      exact ⟨s, f, s', h1, h2, h3, h4, .step e h5 trivial he⟩
    · exact ⟨u, e, v, hu, he, by simpa using hgu, hg, .init⟩

/-! ## The copies -/

/-- A call whose message the kernel has taken made a copy. -/
theorem accepted_copied {a : MsgQueue.St} (hr : Reach (MsgQueue.step calls onMsg) Free MsgQueue.init a) :
    ∀ j ∈ a.accepted, j ∈ a.copied := by
  induction hr with
  | init => exact fun j hj => by cases hj
  | step f hr _ h ih =>
    intro j hj
    refine (MsgQueue.moved h).copied j ?_
    rcases (MsgQueue.moved h).accepted j hj with hj | ⟨p, hp⟩
    · exact ih j hj
    · exact (MsgQueue.reach_inv hr).fate.copied j p (by rw [hp]; rfl)

/-- With nothing in msg_thread's hands: what the kernel took is freed, in the queue, or dropped. -/
theorem accepted_freed {a : MsgQueue.St} (hr : Reach (MsgQueue.step calls onMsg) Free MsgQueue.init a)
    (ht : a.thread = .msgrcv) :
    (∀ j ∈ a.accepted, a.freed.count j = 1) ↔ a.queue.filterMap Entry.sent? = [] ∧ a.dropped = [] := by
  obtain ⟨-, hf, hh⟩ := MsgQueue.reach_inv hr
  have hun : MsgQueue.unhandled a = a.queue.filterMap Entry.sent? := by simp [MsgQueue.unhandled, ht]
  have hheld : MsgQueue.held a = a.dropped ++ a.queue.filterMap Entry.sent? := by
    simp [MsgQueue.held, MsgQueue.travelling, ht, MsgQueue.ThreadPc.sent?]
  rw [and_comm, ← List.append_eq_nil_iff, ← hheld]
  constructor
  · intro h
    refine List.eq_nil_iff_forall_not_mem.mpr fun m hm => ?_
    have hmem := List.mem_map_of_mem (f := Sent.call) hm
    have hacc : m.call ∈ a.accepted := by
      rw [hh.all.mem_iff, hun, ← hheld]
      exact List.mem_append_right _ hmem
    have hfr : m.call ∈ a.freed := List.count_pos_iff.mp (by rw [h m.call hacc]; exact Nat.one_pos)
    exact ((hf.fate m.call (hf.freedCopied _ hfr)).mp hfr).2 hmem
  · intro h j hj
    have hret : (a.send j).buf? = none := by rw [hh.accepted j hj]; rfl
    have hfr : j ∈ a.freed := (hf.fate j (accepted_copied hr j hj)).mpr ⟨hret, by rw [h]; simp⟩
    exact List.count_eq_one_of_mem hf.freedOnce hfr

theorem freed_iff (hs : msgQueueCreate k0 o = (k, some id)) (hr : Reach (step calls onMsg) Free (start k id) s)
    (h : step calls onMsg s e = some s') (hg : gone s = false) (hg' : gone s' = true)
    (ht : Reach (step calls onMsg) Free s' t) (hd : t.destroyer = .done) :
    (∀ j ∈ t.base.accepted, t.base.freed.count j = 1) ↔
      s.base.queue.filterMap Entry.sent? = [] ∧ s.base.dropped = [] := by
  have hi : Inv s' := step_inv (reach_inv (start_inv hs) hr) h
  have hb : Reach (MsgQueue.step calls onMsg) Free MsgQueue.init t.base :=
    base_reach (base_reach (s := start k id) .init (.step e hr trivial h)) ht
  have hend : t.base.thread = .msgrcv := (ended_iff.mp ((reach_inv hi ht).done hd)).1
  obtain ⟨hq, hdr⟩ := queue_kept hi.id hg' ht
  rw [accepted_freed hb hend, hq, hdr, (removal_spec h hg hg').1]

/-! ## Two runs -/

def noQueue : Kernel := ⟨none, 0, fun i h => by cases h⟩

def allWell : Outcome := ⟨true, true, true, true⟩

def oneCall : Nat → Call := fun _ => ⟨0, some [1, 2, 3], 1⟩

def sendOne : List Ev :=
  [.sender (.call 0), .sender (.malloc 0 (some 16)), .sender (.send 0 true), .sender (.send 0 true)]

def created : St := start (msgQueueCreate noQueue allWell).1 0

theorem created_eq : msgQueueCreate noQueue allWell = ((msgQueueCreate noQueue allWell).1, some 0) := rfl

/-- The message is received and handled, then the queue is destroyed while msg_thread waits. -/
theorem handled_freed : ∃ t : St, Reach (step oneCall true) Free created t ∧ t.destroyer = .done ∧ t.base.accepted = [0] ∧
    ∀ j ∈ t.base.accepted, t.base.freed.count j = 1 := by
  obtain ⟨s, hr, hg, hq, s', h, hg', t, hrun, hd, ha⟩ := reach_of_run (step oneCall true) created
    (fun s => gone s = false ∧ (s.base.queue.filterMap Entry.sent? = [] ∧ s.base.dropped = []) ∧
      ∃ s', step oneCall true s .destroy = some s' ∧ gone s' = true ∧
        ∃ t, run (step oneCall true) s' [.thread, .destroy] = some t ∧ t.destroyer = .done ∧ t.base.accepted = [0])
    (sendOne ++ [.thread, .thread, .thread, .thread, .thread, .thread, .thread, .destroy])
    ⟨_, rfl, rfl, ⟨rfl, rfl⟩, _, rfl, rfl, _, rfl, rfl, rfl⟩
  have ht : Reach (step oneCall true) Free s' t := reach_run .init hrun
  exact ⟨t, reach_run (.step _ hr trivial h) hrun, hd, ha, (freed_iff created_eq hr h hg hg' ht hd).mpr hq⟩

/-- The queue is destroyed with a message in it, which nobody can get at any more. -/
theorem queued_leaks : ∃ t : St, Reach (step oneCall true) Free created t ∧ t.destroyer = .done ∧ ended t = true ∧
    0 ∈ t.base.accepted ∧ (t.base.heap 16).isSome = true ∧ t.base.freed = [] ∧
    ¬ ∀ j ∈ t.base.accepted, t.base.freed.count j = 1 :=
  reach_of_run (step oneCall true) created _ (sendOne ++ [.destroy, .destroy, .thread, .destroy]) ⟨_, rfl, by decide⟩

end UvWrapper.Utils.MsgQueueDestroy
