/-
  UvWrapper.Net.SendPathProofs — the send path's invariant, kept by every step that
  leaves the slots of other calls alone (see `UvWrapper.Net.SendPath`).
-/

import UvWrapper.Net.SendPath
import Mathlib.Data.List.Perm.Basic

namespace UvWrapper.Net.SendPath

open UvWrapper.Lib

variable {δ : Type} (cfg : Cfg δ)

/-! ## The invariant -/

def Submitted (s : St δ) (k : Nat) : Prop := k ∈ s.submits.map Submit.call

/-- The slots an off-thread call has stored when it comes to stage `a`. -/
def Stored (s : St δ) (k : Nat) : Stage → Prop
  | .flag | .buf => True
  | .asyncData => (s.slot (cfg.conn k)).buf = some k
  | .notify => (s.slot (cfg.conn k)).buf = some k ∧ s.asyncData = some (cfg.conn k)

def CallerOk (s : St δ) (k : Nat) : Pc Stage → Prop
  | .idle => cfg.onLoop k = false → ¬ Submitted s k
  | .want => cfg.onLoop k = false ∧ cfg.null k = false ∧ k ∈ s.live ∧ ¬ Submitted s k
  | .crit a => cfg.onLoop k = false ∧ cfg.null k = false ∧ k ∈ s.live ∧ ¬ Submitted s k ∧ Stored cfg s k a
  | .wait => cfg.onLoop k = false ∧ cfg.null k = false ∧ (0 < s.h.sem → Failed s k ∨ Completed s k)
  | .woken => cfg.onLoop k = false ∧ cfg.null k = false ∧ (Failed s k ∨ Completed s k)
  | .ret => cfg.onLoop k = false ∧ (cfg.null k = true ∨ Failed s k ∨ Completed s k)

def LoopOk (s : St δ) (k : Nat) : LoopPc → Prop
  | .idle => cfg.onLoop k = true → ¬ Submitted s k
  | .active => cfg.onLoop k = true ∧ cfg.null k = false
  | .ret => cfg.onLoop k = true ∧ (cfg.null k = true ∨ Failed s k ∨ Submitted s k)

/-- A notification is on its way for call `k`: its buffer is in place and nothing is
    submitted for it. -/
def Ready (s : St δ) (k : Nat) : Prop :=
  s.h.pc k = .wait ∧ (s.slot (cfg.conn k)).buf = some k ∧ k ∈ s.live ∧ ¬ Submitted s k

/-- What holds of a frame, by whether its call is made on the loop's thread. -/
def FrameOk (s : St δ) : Frame → Prop
  | .user => True
  | .sync k a => cfg.onLoop k = true ∧ s.loop k = .active ∧ k ∈ s.live ∧ ¬ Submitted s k ∧
      (a = .buf → (s.slot (cfg.conn k)).asyncSendFlag = false)
  | .sendData k c => c = cfg.conn k ∧
      if cfg.onLoop k then
        s.loop k = .active ∧ k ∈ s.live ∧ ¬ Submitted s k ∧ (s.slot c).asyncSendFlag = false
      else Ready cfg s k
  | .sendFailed k c => c = cfg.conn k ∧ Failed s k ∧
      if cfg.onLoop k then s.loop k = .active ∧ (s.slot c).asyncSendFlag = false else s.h.pc k = .wait
  | .sent k c => c = cfg.conn k ∧ Completed s k ∧
      if cfg.onLoop k then (s.slot c).asyncSendFlag = false else s.h.pc k = .wait

def ReqOk (s : St δ) (r : Req) : Prop :=
  r.conn = cfg.conn r.call ∧ Submitted s r.call ∧
    if cfg.onLoop r.call then (s.slot r.conn).asyncSendFlag = false else s.h.pc r.call = .wait

/-- A frame that owes the post of an off-thread call. -/
def offFrame : Frame → Bool
  | .sendData k _ | .sendFailed k _ | .sent k _ => !cfg.onLoop k
  | _ => false

def owed (s : St δ) : Nat :=
  s.stack.countP (offFrame cfg) + s.inflight.countP fun r => !cfg.onLoop r.call

def Frame.call? : Frame → Option Nat
  | .sync k _ | .sendData k _ | .sendFailed k _ => some k
  | _ => none

def Frame.sending : Frame → Bool
  | .sendData _ _ => true
  | _ => false

structure Inv (s : St δ) : Prop where
  hand : s.h.Inv (owed cfg s) s.lost
  callers : ∀ k, CallerOk cfg s k (s.h.pc k)
  loops : ∀ k, LoopOk cfg s k (s.loop k)
  pend : s.h.pending = true → Ready cfg s s.notifier ∧ s.asyncData = some (cfg.conn s.notifier)
  frames : ∀ f ∈ s.stack, FrameOk cfg s f
  nodup : (s.stack.filterMap Frame.call?).Nodup
  below : ∀ f ∈ s.stack.tail, f.sending = false
  top : ∀ k c r, s.stack = .sendData k c :: r → (s.slot c).buf = some k
  reqs : ∀ r ∈ s.inflight, ReqOk cfg s r
  liveAddr : ∀ k ∈ s.live, s.sendAddr = cfg.dest k
  submitOk : ∀ e ∈ s.submits, e.conn = cfg.conn e.call ∧ e.buf = some (cfg.buf e.call) ∧ e.dest = cfg.dest e.call
  submitOnce : (s.submits.map (·.call)).Nodup
  completedOk : ∀ r ∈ s.completed, Submitted s r.call

theorem init_inv (addr : δ) : Inv cfg (init addr) := by
  constructor <;> simp [init, Handoff.init, Submitted, owed, CallerOk, LoopOk]
  exact Handoff.init_inv

variable {cfg} {s s' : St δ}

/-! ## Frames and requests from one state to the next -/

theorem FrameOk.keep {f : Frame} (h : FrameOk cfg s f) (hloop : ∀ k, f.call? = some k → s'.loop k = s.loop k)
    (hlive : ∀ k, f.call? = some k → k ∈ s.live → k ∈ s'.live)
    (hsub : ∀ k, f.call? = some k → Submitted s' k → Submitted s k)
    (hflag : ∀ c, loopFrame cfg c f = true → (s.slot c).asyncSendFlag = false → (s'.slot c).asyncSendFlag = false)
    (hbuf : ∀ k c, f = .sendData k c → cfg.onLoop k = false →
      (s.slot (cfg.conn k)).buf = some k → (s'.slot (cfg.conn k)).buf = some k)
    (hwait : offFrame cfg f = true → ∀ k, s.h.pc k = .wait → s'.h.pc k = .wait)
    (hfail : ∀ k, Failed s k → Failed s' k) (hcomp : ∀ k, Completed s k → Completed s' k) : FrameOk cfg s' f := by
  cases f with
  | user => trivial
  | sync k a =>
    obtain ⟨h1, h2, h3, h4, h5⟩ := h
    refine ⟨h1, (hloop k rfl).trans h2, hlive k rfl h3, fun h => h4 (hsub k rfl h), fun ha => ?_⟩
    subst ha
    exact hflag _ (by simp [loopFrame]) (h5 rfl)
  | sendData k c =>
    obtain ⟨h1, h2⟩ := h
    refine ⟨h1, ?_⟩
    by_cases hl : cfg.onLoop k = true
    · rw [if_pos hl] at h2 ⊢
      exact ⟨(hloop k rfl).trans h2.1, hlive k rfl h2.2.1, fun h => h2.2.2.1 (hsub k rfl h),
        hflag c (by simp [loopFrame, hl]) h2.2.2.2⟩
    · rw [if_neg hl] at h2 ⊢
      have hl' : cfg.onLoop k = false := by simpa using hl
      exact ⟨hwait (by simp [offFrame, hl']) k h2.1, hbuf k c rfl hl' h2.2.1, hlive k rfl h2.2.2.1,
        fun h => h2.2.2.2 (hsub k rfl h)⟩
  | sendFailed k c =>
    obtain ⟨h1, h2, h3⟩ := h
    refine ⟨h1, hfail k h2, ?_⟩
    by_cases hl : cfg.onLoop k = true
    · rw [if_pos hl] at h3 ⊢
      exact ⟨(hloop k rfl).trans h3.1, hflag c (by simp [loopFrame, hl]) h3.2⟩
    · rw [if_neg hl] at h3 ⊢
      exact hwait (by simpa [offFrame] using hl) k h3
  | sent k c =>
    obtain ⟨h1, h2, h3⟩ := h
    refine ⟨h1, hcomp k h2, ?_⟩
    by_cases hl : cfg.onLoop k = true
    · rw [if_pos hl] at h3 ⊢
      exact hflag c (by simp [loopFrame, hl]) h3
    · rw [if_neg hl] at h3 ⊢
      exact hwait (by simpa [offFrame] using hl) k h3

theorem ReqOk.keep {r : Req} (h : ReqOk cfg s r) (hsub : ∀ k, Submitted s k → Submitted s' k)
    (hflag : cfg.onLoop r.call = true → (s.slot r.conn).asyncSendFlag = false → (s'.slot r.conn).asyncSendFlag = false)
    (hwait : cfg.onLoop r.call = false → ∀ k, s.h.pc k = .wait → s'.h.pc k = .wait) : ReqOk cfg s' r := by
  obtain ⟨h1, h2, h3⟩ := h
  refine ⟨h1, hsub _ h2, ?_⟩
  by_cases hl : cfg.onLoop r.call = true
  · rw [if_pos hl] at h3 ⊢; exact hflag hl h3
  · rw [if_neg hl] at h3 ⊢; exact hwait (by simpa using hl) _ h3

theorem CallerOk.keep {k : Nat} {p : Pc Stage} (h : CallerOk cfg s k p)
    (hlive : p = .want ∨ (∃ a, p = .crit a) → k ∈ s.live → k ∈ s'.live)
    (hsub : p ≠ .wait → p ≠ .woken → p ≠ .ret → cfg.onLoop k = false → Submitted s' k → Submitted s k)
    (hst : ∀ a, p = .crit a → Stored cfg s k a → Stored cfg s' k a)
    (hsem : p = .wait → 0 < s'.h.sem → 0 < s.h.sem ∨ Failed s' k ∨ Completed s' k)
    (hfail : Failed s k → Failed s' k) (hcomp : Completed s k → Completed s' k) : CallerOk cfg s' k p := by
  have hset : Failed s k ∨ Completed s k → Failed s' k ∨ Completed s' k := Or.imp hfail hcomp
  cases p with
  | idle => exact fun ho hs => h ho (hsub (by simp) (by simp) (by simp) ho hs)
  | want => exact ⟨h.1, h.2.1, hlive (.inl rfl) h.2.2.1, fun hs => h.2.2.2 (hsub (by simp) (by simp) (by simp) h.1 hs)⟩
  | crit a =>
    exact ⟨h.1, h.2.1, hlive (.inr ⟨a, rfl⟩) h.2.2.1, fun hs => h.2.2.2.1 (hsub (by simp) (by simp) (by simp) h.1 hs),
      hst a rfl h.2.2.2.2⟩
  | wait =>
    refine ⟨h.1, h.2.1, fun hs => ?_⟩
    rcases hsem rfl hs with hs | hs
    · exact hset (h.2.2 hs)
    · exact hs
  | woken => exact ⟨h.1, h.2.1, hset h.2.2⟩
  | ret => exact ⟨h.1, h.2.imp id hset⟩

theorem LoopOk.keep {k : Nat} {p : LoopPc} (h : LoopOk cfg s k p)
    (hsub : p = .idle → cfg.onLoop k = true → Submitted s' k → Submitted s k) (hfail : Failed s k → Failed s' k)
    (hsub' : Submitted s k → Submitted s' k) : LoopOk cfg s' k p := by
  cases p with
  | idle => exact fun ho hs => h ho (hsub rfl ho hs)
  | active => exact h
  | ret => exact ⟨h.1, h.2.imp id (Or.imp hfail hsub')⟩

theorem LoopOk.same {k : Nat} {p : LoopPc} (h : LoopOk cfg s k p) (hs : s'.submits = s.submits)
    (hf : s'.failed = s.failed) : LoopOk cfg s' k p :=
  h.keep (fun _ _ h => by rwa [Submitted, hs] at h) (fun h => by rwa [Failed, hf]) fun h => by rwa [Submitted, hs]

theorem ReqOk.same {r : Req} (h : ReqOk cfg s r) (hs : s'.submits = s.submits) (hslot : s'.slot = s.slot)
    (hp : s'.h.pc = s.h.pc) : ReqOk cfg s' r :=
  h.keep (fun _ h => by rwa [Submitted, hs]) (fun _ h => by rwa [hslot]) fun _ _ h => by rwa [hp]

theorem Stored.keep {k : Nat} {a : Stage} (h : Stored cfg s k a)
    (hs : a ≠ .flag → a ≠ .buf → (s.slot (cfg.conn k)).buf = some k → (s'.slot (cfg.conn k)).buf = some k)
    (hd : s'.asyncData = s.asyncData) : Stored cfg s' k a := by
  cases a with
  | flag => trivial
  | buf => trivial
  | asyncData => exact hs (by simp) (by simp) h
  | notify => exact ⟨hs (by simp) (by simp) h.1, hd.trans h.2⟩

theorem CallerOk.same {k : Nat} {p : Pc Stage} (h : CallerOk cfg s k p) (hl : s'.live = s.live)
    (hs : s'.submits = s.submits) (hslot : s'.slot = s.slot) (hd : s'.asyncData = s.asyncData)
    (hsem : s'.h.sem = s.h.sem) (hf : s'.failed = s.failed) (hc : s'.completed = s.completed) : CallerOk cfg s' k p :=
  h.keep (fun _ h => by rwa [hl]) (fun _ _ _ _ h => by rwa [Submitted, hs] at h)
    (fun _ _ h => h.keep (fun _ _ h => by rwa [hslot]) hd) (fun _ h => .inl (by rwa [hsem] at h))
    (fun h => by rwa [Failed, hf]) fun h => by rwa [Completed, hc]

/-! ## Reading the invariant -/

/-- Nothing owed: no frame and no request of an off-thread call. -/
theorem owed_zero (ho : owed cfg s = 0) :
    (∀ f ∈ s.stack, offFrame cfg f = false) ∧ ∀ r ∈ s.inflight, cfg.onLoop r.call = true := by
  unfold owed at ho
  have h1 : s.stack.countP (offFrame cfg) = 0 := by omega
  have h2 : s.inflight.countP (fun r => !cfg.onLoop r.call) = 0 := by omega
  rw [List.countP_eq_zero] at h1 h2
  exact ⟨fun f hf => by simpa using h1 f hf, fun r hr => by simpa using h2 r hr⟩

theorem not_loopBusy {c : Nat} (h : loopBusy cfg s c = false) :
    (∀ f ∈ s.stack, loopFrame cfg c f = false) ∧
      ∀ r ∈ s.inflight, cfg.onLoop r.call = true → r.conn ≠ c := by
  simp only [loopBusy, Bool.or_eq_false_iff, List.any_eq_false] at h
  refine ⟨fun f hf => by simpa using h.1 f hf, fun r hr hl e => ?_⟩
  have := h.2 r hr
  simp [hl, e] at this

theorem CallerOk.off {k : Nat} {p : Pc Stage} (h : CallerOk cfg s k p) (hp : p ≠ .idle) : cfg.onLoop k = false := by
  cases p with
  | idle => exact absurd rfl hp
  | _ => exact h.1

theorem LoopOk.on {k : Nat} {p : LoopPc} (h : LoopOk cfg s k p) (hp : p ≠ .idle) : cfg.onLoop k = true := by
  cases p with
  | idle => exact absurd rfl hp
  | _ => exact h.1

/-- The holder, before its notification: nothing pends, nothing is owed, and no other
    call is inside. -/
theorem Inv.crit (hi : Inv cfg s) {k : Nat} {a : Stage} (hp : s.h.pc k = .crit a) :
    s.h.pending = false ∧ (∀ f ∈ s.stack, offFrame cfg f = false) ∧
      (∀ r ∈ s.inflight, cfg.onLoop r.call = true) ∧ ∀ u, (s.h.pc u).inside = true → u = k := by
  obtain ⟨h1, h2, -, -⟩ := hi.hand.crit_quiet (t := k) (by simp [hp]) (by simp [hp])
  obtain ⟨h3, h4⟩ := owed_zero h2
  exact ⟨h1, h3, h4, fun u hu => hi.hand.unique hu (by simp [hp])⟩

/-! ## The caller's steps -/

/-- The callers' side of the invariant when call `k` alone moves, to `p`. -/
theorem callers_move (hi : Inv cfg s) {k : Nat} {p : Pc Stage} (hk : s'.h.pc k = p) (hok : CallerOk cfg s' k p)
    (hpc : ∀ u, u ≠ k → s'.h.pc u = s.h.pc u)
    (hsame : ∀ u, u ≠ k → ∀ q, s.h.pc u = q → CallerOk cfg s u q → CallerOk cfg s' u q) :
    ∀ u, CallerOk cfg s' u (s'.h.pc u) := by
  intro u
  by_cases e : u = k
  · rw [e, hk]; exact hok
  · rw [hpc u e]; exact hsame u e _ rfl (hi.callers u)

/-- A caller moves, and only the hand-off changes: neither the notification nor the
    semaphore, and nobody comes to wait or stops waiting. -/
theorem move_inv (hi : Inv cfg s) {k : Nat} {h' : Handoff Nat Stage} (hh : h'.Inv (owed cfg s) s.lost)
    (hpend : h'.pending = s.h.pending) (hsem : h'.sem = s.h.sem) (hpc : ∀ u, u ≠ k → h'.pc u = s.h.pc u)
    (hw : s.h.pc k ≠ .wait) (hw' : h'.pc k ≠ .wait) (hok : CallerOk cfg s k (h'.pc k)) (l : List Nat) :
    Inv cfg { s with h := h', locked := l } := by
  have hwait : ∀ u, s.h.pc u = .wait → h'.pc u = .wait := fun u hu => by
    rw [hpc u (by intro heq; subst heq; exact hw hu)]; exact hu
  refine { hi with
    hand := hh
    callers := callers_move hi (k := k) rfl ?_ hpc fun u _ q _ h => ?_
    pend := fun hp => ?_
    frames := fun f hf => (hi.frames f hf).keep (fun _ _ => rfl) (fun _ _ h => h) (fun _ _ h => h)
      (fun _ _ h => h) (fun _ _ _ _ h => h) (fun _ => hwait) (fun _ h => h) (fun _ h => h)
    reqs := fun r hr => (hi.reqs r hr).keep (fun _ h => h) (fun _ h => h) (fun _ => hwait) }
  · exact hok.keep (fun _ h => h) (fun _ _ _ _ h => h) (fun _ _ h => h.keep (fun _ _ h => h) rfl) (fun h => absurd h hw')
      (fun h => h) fun h => h
  · exact h.keep (fun _ h => h) (fun _ _ _ _ h => h) (fun _ _ h => h.keep (fun _ _ h => h) rfl)
      (fun _ h => .inl (by rw [← hsem]; exact h)) (fun h => h) fun h => h
  · obtain ⟨⟨h1, h2⟩, h3⟩ := hi.pend (hpend ▸ hp)
    exact ⟨⟨hwait _ h1, h2⟩, h3⟩

theorem setFlag_apply (f : Nat → Slot) (c : Nat) (b : Bool) (d : Nat) :
    setFlag f c b d = if d = c then ⟨b, (f d).buf⟩ else f d := by
  unfold setFlag
  rw [Function.update_apply]
  split
  · rename_i e; rw [e]
  · rfl

theorem setBuf_apply (f : Nat → Slot) (c k d : Nat) :
    setBuf f c k d = if d = c then ⟨(f d).asyncSendFlag, some k⟩ else f d := by
  unfold setBuf
  rw [Function.update_apply]
  split
  · rename_i e; rw [e]
  · rfl

theorem setFlag_same (f : Nat → Slot) (c : Nat) (b : Bool) : (setFlag f c b c).asyncSendFlag = b := by
  rw [setFlag_apply, if_pos rfl]

theorem setBuf_same (f : Nat → Slot) (c k : Nat) : (setBuf f c k c).buf = some k := by rw [setBuf_apply, if_pos rfl]

@[simp] theorem setBuf_flag (f : Nat → Slot) (c k d : Nat) :
    (setBuf f c k d).asyncSendFlag = (f d).asyncSendFlag := by rw [setBuf_apply]; split <;> rfl

@[simp] theorem setFlag_buf (f : Nat → Slot) (c : Nat) (b : Bool) (d : Nat) :
    (setFlag f c b d).buf = (f d).buf := by rw [setFlag_apply]; split <;> rfl

/-- The holder's stores, up to its notification: nothing of an off-thread call is on
    the loop, so only what loop-thread calls need of the slots is to be kept. -/
theorem store_inv (hi : Inv cfg s) {k : Nat} {a b : Stage} (hp : s.h.pc k = .crit a) {sl : Nat → Slot}
    {d : Option Nat} (hst : Stored cfg { s with slot := sl, asyncData := d } k b)
    (hframe : ∀ f ∈ s.stack, ∀ c, loopFrame cfg c f = true → (s.slot c).asyncSendFlag = false →
      (sl c).asyncSendFlag = false)
    (hreq : ∀ r ∈ s.inflight, (s.slot r.conn).asyncSendFlag = false → (sl r.conn).asyncSendFlag = false)
    (htop : ∀ u c r, s.stack = .sendData u c :: r → cfg.onLoop u = true → (sl c).buf = (s.slot c).buf) :
    Inv cfg { s with slot := sl, asyncData := d, h := s.h.goto k b } := by
  obtain ⟨hpend, hoff, hon, huniq⟩ := hi.crit hp
  have hpc : ∀ u, u ≠ k → (s.h.goto k b).pc u = s.h.pc u := fun u hu => Handoff.setPc_ne _ _ hu
  have hwait : ∀ u, s.h.pc u = .wait → (s.h.goto k b).pc u = .wait := fun u hu => by
    rw [hpc u (by intro heq; subst heq; rw [hp] at hu; cases hu)]; exact hu
  obtain ⟨h1, h2, h3, h4, -⟩ : CallerOk cfg s k (.crit a) := hp ▸ hi.callers k
  refine { hi with
    hand := Handoff.goto_inv hi.hand hp
    callers := callers_move hi (k := k) (p := .crit b) (Handoff.setPc_same ..) ⟨h1, h2, h3, h4, ?_⟩ hpc
      fun u hu q hq h => ?_
    pend := fun h => by rw [show s.h.pending = true from h] at hpend; cases hpend
    frames := fun f hf => (hi.frames f hf).keep (fun _ _ => rfl) (fun _ _ h => h) (fun _ _ h => h)
      (hframe f hf) (fun u c hu ho _ => ?_) (fun _ => hwait) (fun _ h => h) (fun _ h => h)
    top := fun u c r hs => ?_
    reqs := fun r hr => (hi.reqs r hr).keep (fun _ h => h) (fun _ h => hreq r hr h) (fun _ => hwait) }
  · cases b <;> exact hst
  · cases q with
    | crit a' => exact absurd (huniq u (by rw [hq]; rfl)) hu
    | _ => exact h
  · subst hu
    have := hoff _ hf
    simp [offFrame, ho] at this
  · have hl : cfg.onLoop u = true := by
      have := hoff (.sendData u c) (by rw [hs]; exact List.mem_cons_self)
      simpa [offFrame] using this
    exact (htop u c r hs hl).trans (hi.top u c r hs)

theorem notify_inv (hi : Inv cfg s) {k : Nat} (hp : s.h.pc k = .crit .notify) :
    Inv cfg { s with h := s.h.notify k, notifier := k } := by
  obtain ⟨-, hoff, hon, huniq⟩ := hi.crit hp
  obtain ⟨h1, h2, h3, h4, hslot, hdata⟩ : CallerOk cfg s k (.crit .notify) := hp ▸ hi.callers k
  have hsem : s.h.sem = 0 := (hi.hand.crit_quiet (t := k) (by simp [hp]) (by simp [hp])).2.2.1
  have hk : (s.h.notify k).pc k = .wait := Handoff.setPc_same ..
  have hpc : ∀ u, u ≠ k → (s.h.notify k).pc u = s.h.pc u := fun u hu => Handoff.setPc_ne _ _ hu
  refine { hi with
    hand := Handoff.notify_inv hi.hand hp
    callers := callers_move hi hk ⟨h1, h2, fun h => ?_⟩ hpc fun u _ q hq h => ?_
    pend := fun _ => ⟨⟨hk, hslot, h3, h4⟩, hdata⟩
    frames := fun f hf => (hi.frames f hf).keep (fun _ _ => rfl) (fun _ _ h => h) (fun _ _ h => h)
      (fun _ _ h => h) (fun _ _ _ _ h => h) (fun ho => ?_) (fun _ h => h) (fun _ h => h)
    reqs := fun r hr => (hi.reqs r hr).keep (fun _ h => h) (fun _ h => h) (fun ho => ?_) }
  · have h' : 0 < s.h.sem := h
    omega
  · cases q <;> exact h
  · rw [hoff f hf] at ho; cases ho
  · rw [hon r hr] at ho; cases ho

theorem wake_inv (hi : Inv cfg s) {k : Nat} (hp : s.h.pc k = .wait) (hs : 0 < s.h.sem) :
    Inv cfg { s with h := s.h.wake k } := by
  have hc := hi.hand.wait_cases hp
  have ho : owed cfg s = 0 := by omega
  obtain ⟨hoff, hon⟩ := owed_zero ho
  have hpend : s.h.pending = false := by
    cases h : s.h.pending
    · rfl
    · rw [h, Bool.toNat_true] at hc; omega
  obtain ⟨h1, h2, h3⟩ : CallerOk cfg s k .wait := hp ▸ hi.callers k
  have hk : (s.h.wake k).pc k = .woken := Handoff.setPc_same ..
  have hpc : ∀ u, u ≠ k → (s.h.wake k).pc u = s.h.pc u := fun u hu => Handoff.setPc_ne _ _ hu
  refine { hi with
    hand := Handoff.wake_inv hi.hand hp hs
    callers := callers_move hi hk ⟨h1, h2, h3 hs⟩ hpc fun u hu q hq h => ?_
    pend := fun h => by rw [show s.h.pending = true from h] at hpend; cases hpend
    frames := fun f hf => (hi.frames f hf).keep (fun _ _ => rfl) (fun _ _ h => h) (fun _ _ h => h)
      (fun _ _ h => h) (fun _ _ _ _ h => h) (fun ho => ?_) (fun _ h => h) (fun _ h => h)
    reqs := fun r hr => (hi.reqs r hr).keep (fun _ h => h) (fun _ h => h) (fun ho => ?_) }
  · cases q with
    | wait => exact absurd (hi.hand.unique (by rw [hq]; rfl) (by rw [hp]; rfl)) hu
    | _ => exact h
  · rw [hoff f hf] at ho; cases ho
  · rw [hon r hr] at ho; cases ho

theorem callerStep_inv [DecidableEq δ] (hi : Inv cfg s) {k : Nat} (hg : apart cfg s (.caller k) = true)
    (h : callerStep cfg s k = some s') : Inv cfg s' := by
  have hck := hi.callers k
  have hmove : ∀ {p : Pc Stage} {h' : Handoff Nat Stage} {u : Nat}, h'.pc = (s.h.setPc k p).pc → u ≠ k →
      h'.pc u = s.h.pc u := fun e hu => by rw [e]; exact Handoff.setPc_ne _ _ hu
  unfold callerStep at h
  cases hp : s.h.pc k with
  | idle => rw [hp] at h; cases h
  | want =>
    rw [hp] at h hck
    simp only at h
    split at h
    · rename_i hm
      cases h
      have hk : (s.h.lock k .flag).pc k = .crit .flag := Handoff.setPc_same ..
      refine move_inv hi (k := k) (Handoff.lock_inv hi.hand hm) rfl rfl (fun u => hmove rfl) (by simp [hp])
        (by simp [hk]) ?_ _
      rw [hk]
      exact ⟨hck.1, hck.2.1, hck.2.2.1, hck.2.2.2, trivial⟩
    · cases h
  | crit a =>
    rw [hp] at h hck
    obtain ⟨-, -, hon, huniq⟩ := hi.crit hp
    cases a with
    | flag =>
      cases h
      have hb : loopBusy cfg s (cfg.conn k) = false := by simpa [apart, hp] using hg
      obtain ⟨hf, hr⟩ := not_loopBusy hb
      refine store_inv hi hp (d := s.asyncData) trivial (fun f hm c hc h0 => ?_) (fun r hm h0 => ?_)
        fun u c r _ _ => setFlag_buf ..
      · rw [setFlag_apply, if_neg, h0]
        intro heq
        subst heq
        rw [hf f hm] at hc; cases hc
      · rw [setFlag_apply, if_neg (hr r hm (hon r hm)), h0]
    | buf =>
      cases h
      refine store_inv hi hp (d := s.asyncData) (setBuf_same ..) (fun f _ c _ h0 => by rw [setBuf_flag]; exact h0)
        (fun r _ h0 => by rw [setBuf_flag]; exact h0) fun u c r hs hl => ?_
      -- a loop-thread call about to submit on this connection would be in the way
      rw [setBuf_apply, if_neg]
      intro heq
      subst heq
      have hm : Frame.sendData u (cfg.conn k) ∈ s.stack := by rw [hs]; exact List.mem_cons_self
      have hr : loopReady cfg s (cfg.conn k) = true :=
        List.any_eq_true.mpr ⟨_, hm, by simp [hl]⟩
      simp [apart, hp, hr] at hg
    | asyncData =>
      cases h
      obtain ⟨-, -, -, -, hst⟩ := hck
      exact store_inv hi hp ⟨hst, rfl⟩ (fun _ _ _ _ h0 => h0) (fun _ _ h0 => h0) fun _ _ _ _ _ => rfl
    | notify => cases h; exact notify_inv hi hp
  | wait =>
    rw [hp] at h
    simp only at h
    split at h
    · rename_i hs; cases h; exact wake_inv hi hp hs
    · cases h
  | woken =>
    rw [hp] at h hck
    cases h
    have hk : (s.h.unlock k).pc k = .ret := Handoff.setPc_same ..
    refine move_inv hi (k := k) (Handoff.unlock_inv hi.hand hp) rfl rfl (fun u => hmove rfl) (by simp [hp])
      (by simp [hk]) ?_ s.locked
    rw [hk]
    exact ⟨hck.1, .inr hck.2.2⟩
  | ret => rw [hp] at h; cases h

/-! ## Entering a call -/

/-- A destination is stored over equal ones. -/
theorem storeAddr_inv [DecidableEq δ] (hi : Inv cfg s) {k : Nat} (hg : apart cfg s (.call k) = true) :
    Inv cfg (storeAddr cfg s k) := by
  unfold storeAddr
  split
  · exact hi
  · rename_i hc
    refine { hi with
      callers := fun u => (hi.callers u).same rfl rfl rfl rfl rfl rfl rfl
      loops := fun u => (hi.loops u).same rfl rfl
      frames := fun f hf => (hi.frames f hf).keep (fun _ _ => rfl) (fun _ _ h => h) (fun _ _ h => h)
        (fun _ _ h => h) (fun _ _ _ _ h => h) (fun _ _ h => h) (fun _ h => h) (fun _ h => h)
      reqs := fun r hr => (hi.reqs r hr).same rfl rfl rfl
      liveAddr := fun j hj => ?_ }
    simp only [apart, Bool.or_eq_true, beq_iff_eq, List.all_eq_true] at hg
    exact ((hg.resolve_left hc) j hj).symm

theorem storeAddr_dest {k : Nat} (hn : cfg.null k = false) : (storeAddr cfg s k).sendAddr = cfg.dest k := by
  unfold storeAddr
  rw [if_neg]
  intro hc
  simp only [Cfg.null, Bool.or_eq_false_iff, beq_eq_false_iff_ne] at hn
  exact hn.1 hc

theorem live_inv (hi : Inv cfg s) {k : Nat} (hd : s.sendAddr = cfg.dest k) :
    Inv cfg { s with live := s.live ++ [k] } := by
  have hsub : ∀ j, j ∈ s.live → j ∈ s.live ++ [k] := fun j hj => List.mem_append_left _ hj
  refine { hi with
    callers := fun u => (hi.callers u).keep (fun _ => hsub u) (fun _ _ _ _ h => h) (fun _ _ h => h.keep (fun _ _ h => h) rfl)
      (fun _ h => .inl h) (fun h => h) fun h => h
    loops := fun u => (hi.loops u).same rfl rfl
    pend := fun h => ?_
    frames := fun f hf => (hi.frames f hf).keep (fun _ _ => rfl) (fun _ _ h => hsub _ h) (fun _ _ h => h)
      (fun _ _ h => h) (fun _ _ _ _ h => h) (fun _ _ h => h) (fun _ h => h) (fun _ h => h)
    reqs := fun r hr => (hi.reqs r hr).same rfl rfl rfl
    liveAddr := fun j hj => ?_ }
  · obtain ⟨⟨h1, h2, h3, h4⟩, h5⟩ := hi.pend h
    exact ⟨⟨h1, h2, hsub _ h3, h4⟩, h5⟩
  · rcases List.mem_append.mp hj with hj | hj
    · exact hi.liveAddr j hj
    · rw [List.mem_singleton.mp hj]; exact hd

/-- The call of a frame that leads to a submission is active when it is the loop's. -/
theorem FrameOk.active {f : Frame} (h : FrameOk cfg s f) {k : Nat} (hk : f.call? = some k)
    (hl : cfg.onLoop k = true) : s.loop k = .active := by
  cases f with
  | user => cases hk
  | sync j a => cases hk; exact h.2.1
  | sendData j c =>
    cases hk
    have := h.2
    rw [if_pos hl] at this
    exact this.1
  | sendFailed j c =>
    cases hk
    have := h.2.2
    rw [if_pos hl] at this
    exact this.1
  | sent j c => cases hk

/-- A loop-thread call with no frame moves. -/
theorem loop_inv (hi : Inv cfg s) {k : Nat} {p : LoopPc} (hk : ∀ f ∈ s.stack, f.call? ≠ some k)
    (hok : LoopOk cfg s k p) : Inv cfg { s with loop := Function.update s.loop k p } := by
  refine { hi with
    callers := fun u => ?_
    loops := fun u => ?_
    pend := fun h => hi.pend h
    frames := fun f hf => (hi.frames f hf).keep (fun j hj => ?_) (fun _ _ h => h) (fun _ _ h => h)
      (fun _ _ h => h) (fun _ _ _ _ h => h) (fun _ _ h => h) (fun _ h => h) (fun _ h => h)
    reqs := fun r hr => (hi.reqs r hr).same rfl rfl rfl }
  · exact (hi.callers u).same rfl rfl rfl rfl rfl rfl rfl
  · show LoopOk cfg { s with loop := Function.update s.loop k p } u (Function.update s.loop k p u)
    by_cases e : u = k
    · rw [e, Function.update_self]
      exact hok.keep (fun _ _ h => h) (fun h => h) fun h => h
    · rw [Function.update_of_ne e]
      exact (hi.loops u).same rfl rfl
  · have hne : j ≠ k := by intro heq; subst heq; exact hk f hf hj
    exact Function.update_of_ne hne _ _

/-- The stack changes, and owes what it owed. -/
theorem stack_inv (hi : Inv cfg s) {st : List Frame} (howed : st.countP (offFrame cfg) = s.stack.countP (offFrame cfg))
    (hok : ∀ f ∈ st, FrameOk cfg s f) (hn : (st.filterMap Frame.call?).Nodup) (hb : ∀ f ∈ st, f.sending = false) :
    Inv cfg { s with stack := st } := by
  have howed' : owed cfg { s with stack := st } = owed cfg s := by simp [owed, howed]
  refine { hi with
    hand := howed' ▸ hi.hand
    callers := fun u => ?_
    loops := fun u => ?_
    pend := fun h => hi.pend h
    frames := fun f hf => (hok f hf).keep (fun _ _ => rfl) (fun _ _ h => h) (fun _ _ h => h)
      (fun _ _ h => h) (fun _ _ _ _ h => h) (fun _ _ h => h) (fun _ h => h) (fun _ h => h)
    nodup := hn
    below := fun f hf => hb f (List.mem_of_mem_tail hf)
    top := fun k c r hs => ?_
    reqs := fun r hr => (hi.reqs r hr).same rfl rfl rfl }
  · exact (hi.callers u).same rfl rfl rfl rfl rfl rfl rfl
  · exact (hi.loops u).same rfl rfl
  · have hs' : st = .sendData k c :: r := hs
    have := hb (.sendData k c) (by rw [hs']; exact List.mem_cons_self)
    cases this

/-- A loop-thread call begins. -/
theorem syncCall_inv (hi : Inv cfg s) {k : Nat} {r : List Frame} (hl : cfg.onLoop k = true) (hst : s.stack = .user :: r)
    (hidle : s.loop k = .idle) (hn : cfg.null k = false) (hd : s.sendAddr = cfg.dest k) :
    Inv cfg { s with loop := Function.update s.loop k .active, live := s.live ++ [k],
                     stack := .sync k .flag :: s.stack } := by
  have hfresh : ∀ f ∈ s.stack, f.call? ≠ some k := fun f hf hk => by
    rw [(hi.frames f hf).active hk hl] at hidle; cases hidle
  have hsub : ¬ Submitted s k := by
    have := hi.loops k
    rw [hidle] at this
    exact this hl
  have h3 := loop_inv (live_inv hi hd) (p := .active) hfresh ⟨hl, hn⟩
  refine stack_inv h3 (by simp [offFrame]) (fun f hf => ?_) ?_ fun f hf => ?_
  · rcases List.mem_cons.mp hf with rfl | hf
    · exact ⟨hl, Function.update_self .., List.mem_append_right _ (List.mem_singleton.mpr rfl), hsub, fun h => by cases h⟩
    · exact h3.frames f hf
  · show (List.filterMap Frame.call? (Frame.sync k .flag :: s.stack)).Nodup
    rw [List.filterMap_cons_some (show Frame.call? (.sync k .flag) = some k from rfl), List.nodup_cons]
    refine ⟨fun hm => ?_, hi.nodup⟩
    obtain ⟨f, hf, hk⟩ := List.mem_filterMap.mp hm
    exact hfresh f hf hk
  · have hf : f ∈ Frame.sync k .flag :: s.stack := hf
    rw [hst] at hf
    rcases List.mem_cons.mp hf with rfl | hf
    · rfl
    · rcases List.mem_cons.mp hf with rfl | hf
      · rfl
      · exact hi.below f (by rw [hst]; exact hf)

/-- An off-thread call begins. -/
theorem offCall_inv (hi : Inv cfg s) {k : Nat} (hl : cfg.onLoop k = false) (hidle : s.h.pc k = .idle)
    (hn : cfg.null k = false) (hd : s.sendAddr = cfg.dest k) :
    Inv cfg { s with h := s.h.call k, live := s.live ++ [k] } := by
  have hsub : ¬ Submitted s k := by
    have := hi.callers k
    rw [hidle] at this
    exact this hl
  have h3 := live_inv hi hd
  refine move_inv h3 (k := k) (Handoff.call_inv h3.hand hidle) rfl rfl (fun u hu => Handoff.setPc_ne _ _ hu)
    (by simp [hidle]) (by simp [Handoff.call]) ?_ s.locked
  rw [show (s.h.call k).pc k = .want from Handoff.setPc_same ..]
  exact ⟨hl, hn, List.mem_append_right _ (List.mem_singleton.mpr rfl), hsub⟩

theorem dispatch_inv (hi : Inv cfg s) {k : Nat} (hd : cfg.null k = false → s.sendAddr = cfg.dest k)
    (h : dispatch cfg s k = some s') : Inv cfg s' := by
  unfold dispatch at h
  cases hl : cfg.onLoop k with
  | true =>
    simp only [hl, if_true] at h
    split at h
    · rename_i r hst
      split at h
      · rename_i hidle
        split at h <;> cases h
        · rename_i hn
          refine loop_inv hi (p := .ret) (fun f hf hk => ?_) ⟨hl, .inl hn⟩
          rw [(hi.frames f hf).active hk hl] at hidle
          cases hidle
        · rename_i hn
          have hn : cfg.null k = false := by simpa using hn
          exact syncCall_inv hi hl hst hidle hn (hd hn)
      · cases h
    · cases h
  | false =>
    simp only [hl, Bool.false_eq_true, if_false] at h
    split at h
    · rename_i hidle
      split at h <;> cases h
      · rename_i hn
        refine move_inv hi (k := k) (Handoff.skip_inv hi.hand hidle) rfl rfl (fun u hu => Handoff.setPc_ne _ _ hu)
          (by simp [hidle]) (by simp [Handoff.skip]) ?_ s.locked
        rw [show (s.h.skip k).pc k = .ret from Handoff.setPc_same ..]
        exact ⟨hl, .inl hn⟩
      · rename_i hn
        have hn : cfg.null k = false := by simpa using hn
        exact offCall_inv hi hl hidle hn (hd hn)
    · cases h

theorem enter_inv [DecidableEq δ] (hi : Inv cfg s) {k : Nat} (hg : apart cfg s (.call k) = true)
    (h : enter cfg s k = some s') : Inv cfg s' :=
  dispatch_inv (storeAddr_inv hi hg) storeAddr_dest h

/-! ## The loop's steps -/

theorem asyncSendCb_inv (hi : Inv cfg s) (h : asyncSendCb s = some s') : Inv cfg s' := by
  unfold asyncSendCb at h
  split at h
  · rename_i hg
    obtain ⟨hst, hp⟩ := hg
    obtain ⟨hready, hdata⟩ := hi.pend hp
    rw [hdata] at h
    cases h
    have hoff : cfg.onLoop s.notifier = false := by
      have := hi.callers s.notifier
      rw [hready.1] at this
      exact this.1
    have howed : owed cfg { s with h := s.h.take, stack := [.sendData s.notifier (cfg.conn s.notifier)] } =
        owed cfg s + 1 := by
      simp only [owed, hst, List.countP_cons, List.countP_nil, offFrame, hoff, Bool.not_false, if_true]
      omega
    refine { hi with
      hand := howed ▸ Handoff.take_inv hi.hand hp
      callers := fun u => (hi.callers u).keep (fun _ h => h) (fun _ _ _ _ h => h) (fun _ _ h => h.keep (fun _ _ h => h) hdata.symm)
        (fun _ h => .inl h) (fun h => h) fun h => h
      loops := fun u => (hi.loops u).same rfl rfl
      pend := fun h => by cases h
      frames := fun f hf => ?_
      nodup := by simp [Frame.call?]
      below := fun f hf => by cases hf
      top := fun k c r hs => ?_
      reqs := fun r hr => (hi.reqs r hr).same rfl rfl rfl }
    · rw [List.mem_singleton.mp hf]
      refine ⟨rfl, ?_⟩
      rw [if_neg (by simp [hoff])]
      exact hready
    · obtain ⟨h1, -⟩ := List.cons.inj (show [Frame.sendData _ _] = .sendData k c :: r from hs)
      cases h1
      show (s.slot (cfg.conn s.notifier)).buf = some s.notifier
      rw [hready.2.1]
  · cases h

/-- A loop-thread call clears its connection's flag. -/
theorem clear_inv (hi : Inv cfg s) {k : Nat} {r : List Frame} (hst : s.stack = .sync k .flag :: r) :
    Inv cfg { s with slot := setFlag s.slot (cfg.conn k) false, stack := .sync k .buf :: r } := by
  have hmem : ∀ f ∈ r, f ∈ s.stack := fun f hf => by rw [hst]; exact List.mem_cons_of_mem _ hf
  have hflag : ∀ c, (s.slot c).asyncSendFlag = false → (setFlag s.slot (cfg.conn k) false c).asyncSendFlag = false := by
    intro c h0
    rw [setFlag_apply]
    split
    · rfl
    · exact h0
  have hbuf : ∀ {c u : Nat}, (s.slot c).buf = some u → (setFlag s.slot (cfg.conn k) false c).buf = some u :=
    fun h => (setFlag_buf ..).trans h
  have howed : owed cfg { s with slot := setFlag s.slot (cfg.conn k) false, stack := .sync k .buf :: r } =
      owed cfg s := by simp [owed, hst, offFrame]
  obtain ⟨h1, h2, h3, h4, -⟩ : FrameOk cfg s (.sync k .flag) := hi.frames _ (by rw [hst]; exact List.mem_cons_self)
  refine { hi with
    hand := howed ▸ hi.hand
    callers := fun u => (hi.callers u).keep (fun _ h => h) (fun _ _ _ _ h => h) (fun _ _ h => h.keep (fun _ _ => hbuf) rfl)
      (fun _ h => .inl h) (fun h => h) fun h => h
    loops := fun u => (hi.loops u).same rfl rfl
    pend := fun h => ?_
    frames := fun f hf => ?_
    nodup := ?_
    below := fun f hf => hi.below f (by rw [hst]; exact hf)
    top := fun _ _ _ hs => by cases hs
    reqs := fun r hr => (hi.reqs r hr).keep (fun _ h => h) (fun _ h => hflag _ h) (fun _ _ h => h) }
  · obtain ⟨⟨hw, hb, hl⟩, hd⟩ := hi.pend h
    exact ⟨⟨hw, hbuf hb, hl⟩, hd⟩
  · rcases List.mem_cons.mp hf with rfl | hf
    · exact ⟨h1, h2, h3, h4, fun _ => setFlag_same ..⟩
    · exact (hi.frames f (hmem f hf)).keep (fun _ _ => rfl) (fun _ _ h => h) (fun _ _ h => h)
        (fun c _ h0 => hflag c h0) (fun _ _ _ _ => hbuf) (fun _ _ h => h) (fun _ h => h) (fun _ h => h)
  · have := hi.nodup
    rw [hst] at this
    exact this

/-- An off-thread call that has stored its buffer on the connection and has not
    submitted: its mutex, or its notification, or its frame tells. -/
theorem beforeSubmit_of (hi : Inv cfg s) {t : Nat} (hin : (s.h.pc t).inside = true)
    (hcrit : ∀ a, s.h.pc t = .crit a → a ≠ .flag ∧ a ≠ .buf)
    (hwait : s.h.pc t = .wait → s.h.pending = true ∨ ∃ c, Frame.sendData t c ∈ s.stack)
    (hwok : s.h.pc t ≠ .woken) : beforeSubmit cfg s (cfg.conn t) = true := by
  have hm := (hi.hand.holder t).mp hin
  simp only [beforeSubmit, hm, beq_self_eq_true, Bool.true_and]
  cases hp : s.h.pc t with
  | crit a =>
    obtain ⟨h1, h2⟩ := hcrit a hp
    cases a with
    | flag => exact absurd rfl h1
    | buf => exact absurd rfl h2
    | asyncData => rfl
    | notify => rfl
  | wait =>
    simp only [Bool.or_eq_true, List.any_eq_true]
    rcases hwait hp with h | ⟨c, h⟩
    · exact .inl h
    · exact .inr ⟨_, h, by simp⟩
  | woken => exact absurd hp hwok
  | _ => rw [hp] at hin; cases hin

/-- ... and stores its own buffer: no off-thread call on the connection has one there
    that is still to be submitted. -/
theorem syncBuf_inv (hi : Inv cfg s) {k : Nat} {r : List Frame} (hst : s.stack = .sync k .buf :: r)
    (hg : beforeSubmit cfg s (cfg.conn k) = false) :
    Inv cfg { s with slot := setBuf s.slot (cfg.conn k) k, stack := .sendData k (cfg.conn k) :: r } := by
  have hmem : ∀ f ∈ r, f ∈ s.stack := fun f hf => by rw [hst]; exact List.mem_cons_of_mem _ hf
  obtain ⟨h1, h2, h3, h4, h5⟩ : FrameOk cfg s (.sync k .buf) := hi.frames _ (by rw [hst]; exact List.mem_cons_self)
  have h5 := h5 rfl
  have hbuf : ∀ t, (s.h.pc t).inside = true → (∀ a, s.h.pc t = .crit a → a ≠ .flag ∧ a ≠ .buf) →
      (s.h.pc t = .wait → s.h.pending = true ∨ ∃ c, Frame.sendData t c ∈ s.stack) → s.h.pc t ≠ .woken →
      (s.slot (cfg.conn t)).buf = some t → (setBuf s.slot (cfg.conn k) k (cfg.conn t)).buf = some t := by
    intro t hin hcrit hwait hwok hb
    rw [setBuf_apply, if_neg]
    · exact hb
    · intro he
      rw [← he, beforeSubmit_of hi hin hcrit hwait hwok] at hg; cases hg
  have howed : owed cfg { s with slot := setBuf s.slot (cfg.conn k) k, stack := .sendData k (cfg.conn k) :: r } =
      owed cfg s := by simp [owed, hst, offFrame, h1]
  refine { hi with
    hand := howed ▸ hi.hand
    callers := fun u => (hi.callers u).keep (fun _ h => h) (fun _ _ _ _ h => h) (fun a hp h => ?_)
      (fun _ h => .inl h) (fun h => h) fun h => h
    loops := fun u => (hi.loops u).same rfl rfl
    pend := fun h => ?_
    frames := fun f hf => ?_
    nodup := ?_
    below := fun f hf => hi.below f (by rw [hst]; exact hf)
    top := fun u c r' hs => ?_
    reqs := fun r hr => (hi.reqs r hr).keep (fun _ h => h) (fun _ h => by rw [setBuf_flag]; exact h) (fun _ _ h => h) }
  · refine h.keep (fun ha hb => hbuf u (by simp [hp]) (fun b hb' => ?_) (fun hw => ?_) (by simp [hp])) rfl
    · rw [hp] at hb'; cases hb'; exact ⟨ha, hb⟩
    · rw [hp] at hw; cases hw
  · obtain ⟨⟨hw, hb, hl, hs⟩, hd⟩ := hi.pend h
    exact ⟨⟨hw, hbuf _ (by simp [hw]) (fun b hb' => by rw [hw] at hb'; cases hb') (fun _ => .inl h) (by simp [hw]) hb,
      hl, hs⟩, hd⟩
  · rcases List.mem_cons.mp hf with rfl | hf
    · refine ⟨rfl, ?_⟩
      rw [if_pos h1]
      exact ⟨h2, h3, h4, by rw [setBuf_flag]; exact h5⟩
    · refine (hi.frames f (hmem f hf)).keep (fun _ _ => rfl) (fun _ _ h => h) (fun _ _ h => h)
        (fun c _ h0 => by rw [setBuf_flag]; exact h0) (fun u c hu ho hb => ?_) (fun _ _ h => h) (fun _ h => h)
        (fun _ h => h)
      subst hu
      obtain ⟨-, hok⟩ := hi.frames _ (hmem _ hf)
      rw [if_neg (by simp [ho])] at hok
      exact hbuf u (by simp [hok.1]) (fun b hb => by rw [hok.1] at hb; cases hb) (fun _ => .inr ⟨c, hmem _ hf⟩)
        (by simp [hok.1]) hb
  · have := hi.nodup
    rw [hst] at this
    exact this
  · obtain ⟨hf, -⟩ := List.cons.inj (show Frame.sendData k (cfg.conn k) :: r = .sendData u c :: r' from hs)
    cases hf
    exact setBuf_same ..

/-- The frames under one that leads to a submission belong to other calls. -/
theorem Inv.under (hi : Inv cfg s) {f : Frame} {r : List Frame} {k : Nat} (hst : s.stack = f :: r)
    (hf : f.call? = some k) : ∀ g ∈ r, g.call? ≠ some k := by
  have hn := hi.nodup
  rw [hst, List.filterMap_cons_some hf, List.nodup_cons] at hn
  exact fun g hg hk => hn.1 (List.mem_filterMap.mpr ⟨g, hg, hk⟩)

theorem Inv.nodup_tail (hi : Inv cfg s) {f : Frame} {r : List Frame} (hst : s.stack = f :: r) :
    (r.filterMap Frame.call?).Nodup :=
  List.Nodup.sublist (List.Sublist.filterMap _ (by rw [hst]; exact List.sublist_cons_self f r)) hi.nodup

theorem Inv.tail_sending (hi : Inv cfg s) {f : Frame} {r : List Frame} (hst : s.stack = f :: r) :
    ∀ g ∈ r, g.sending = false := fun g hg => hi.below g (by rw [hst]; exact hg)

theorem Inv.no_top (hi : Inv cfg s) {f : Frame} {r : List Frame} (hst : s.stack = f :: r) {k c : Nat} {r' : List Frame} :
    r ≠ .sendData k c :: r' := by
  intro heq
  subst heq
  cases hi.tail_sending hst (.sendData k c) List.mem_cons_self

/-- Where the call of a `sendData` frame stands, on either thread. -/
theorem Inv.sending (hi : Inv cfg s) {k c : Nat} {r : List Frame} (hst : s.stack = .sendData k c :: r) :
    c = cfg.conn k ∧ k ∈ s.live ∧ ¬ Submitted s k ∧
      (cfg.onLoop k = true → s.loop k = .active ∧ (s.slot c).asyncSendFlag = false) ∧
      (cfg.onLoop k = false → s.h.pc k = .wait) := by
  obtain ⟨hc, h⟩ : FrameOk cfg s (.sendData k c) := hi.frames _ (by rw [hst]; exact List.mem_cons_self)
  by_cases hl : cfg.onLoop k = true
  · rw [if_pos hl] at h
    exact ⟨hc, h.2.1, h.2.2.1, fun _ => ⟨h.1, h.2.2.2⟩, fun h' => by rw [hl] at h'; cases h'⟩
  · rw [if_neg hl] at h
    exact ⟨hc, h.2.2.1, h.2.2.2, fun h' => absurd h' hl, fun _ => h.1⟩

/-- The callers that have still to store something are other calls than `k`. -/
theorem caller_ne {k : Nat} (hw : cfg.onLoop k = false → s.h.pc k = .wait) {u : Nat}
    (hp : s.h.pc u ≠ .wait) (ho : cfg.onLoop u = false) : u ≠ k := by
  intro heq
  subst heq
  exact hp (hw ho)

/-- While a frame of an off-thread call is on the stack nothing pends. -/
theorem Inv.off_quiet (hi : Inv cfg s) {f : Frame} (hf : f ∈ s.stack) (ho : offFrame cfg f = true) :
    s.h.pending = false := by
  have h1 : 0 < s.stack.countP (offFrame cfg) := List.countP_pos_iff.mpr ⟨f, hf, ho⟩
  obtain ⟨n, hn⟩ : ∃ n, owed cfg s = n + 1 := ⟨owed cfg s - 1, by unfold owed; omega⟩
  exact (Handoff.Inv.owed_wait (hn ▸ hi.hand)).2.1

theorem Inv.notifier_ne (hi : Inv cfg s) {k c : Nat} {r : List Frame} (hst : s.stack = .sendData k c :: r)
    (hp : s.h.pending = true) : s.notifier ≠ k := by
  intro e
  have hok := (hi.callers s.notifier).off (by simp [(hi.pend hp).1.1])
  have := hi.off_quiet (f := .sendData k c) (by rw [hst]; exact List.mem_cons_self) (by simp [offFrame, ← e, hok])
  rw [hp] at this; cases this

theorem submit_hand (hi : Inv cfg s) {k c : Nat} {r : List Frame} (hst : s.stack = .sendData k c :: r)
    (accepted : Bool) : (submit cfg s k c r accepted).h.Inv (owed cfg (submit cfg s k c r accepted))
      (submit cfg s k c r accepted).lost := by
  have hh := hi.hand
  cases hl : cfg.onLoop k with
  | true =>
    have e : owed cfg (submit cfg s k c r accepted) = owed cfg s := by
      cases accepted <;> simp [owed, submit, hst, offFrame, hl]
    have el : (submit cfg s k c r accepted).lost = s.lost := by simp [submit, hl]
    rw [e, el]; exact hh
  | false =>
    cases accepted with
    | true =>
      have e : owed cfg (submit cfg s k c r true) = owed cfg s := by
        simp [owed, submit, hst, offFrame, hl]; omega
      rw [e]; exact hh
    | false =>
      have e : owed cfg s = owed cfg (submit cfg s k c r false) + 1 := by
        simp [owed, submit, hst, offFrame, hl]; omega
      have el : (submit cfg s k c r false).lost = s.lost + 1 := by simp [submit, hl]
      rw [el]; exact Handoff.drop_inv (e ▸ hh)

theorem submit_inv (hi : Inv cfg s) {k c : Nat} {r : List Frame} (hst : s.stack = .sendData k c :: r)
    (accepted : Bool) : Inv cfg (submit cfg s k c r accepted) := by
  have hmem : ∀ f ∈ r, f ∈ s.stack := fun f hf => by rw [hst]; exact List.mem_cons_of_mem _ hf
  have hunder := hi.under hst (k := k) rfl
  obtain ⟨hc, hlive, hfresh, hon, hoff⟩ := hi.sending hst
  have hsub : ∀ u, Submitted (submit cfg s k c r accepted) u ↔ Submitted s u ∨ u = k := by
    intro u; simp [Submitted, submit]
  have hsub' : ∀ u, u ≠ k → Submitted (submit cfg s k c r accepted) u → Submitted s u :=
    fun u hu h => ((hsub u).mp h).resolve_right hu
  have hlv : ∀ u, u ≠ k → u ∈ s.live → u ∈ s.live.erase k := fun u hu h => (List.mem_erase_of_ne hu).mpr h
  have hloop : ∀ u, u ≠ k → loopReturn cfg s k u = s.loop u := fun u hu => by
    unfold loopReturn; split
    · exact Function.update_of_ne hu _ _
    · rfl
  refine { hi with
    hand := submit_hand hi hst accepted
    callers := fun u => (hi.callers u).keep (fun hp h => hlv u ?_ h) (fun h1 _ _ ho h => hsub' u ?_ h)
      (fun _ _ h => h.keep (fun _ _ h => h) rfl) (fun _ h => .inl h) (fun h => h) fun h => h
    loops := fun u => ?_
    pend := fun h => ?_
    frames := fun f hf => (hi.frames f (hmem f hf)).keep (fun u hu => hloop u ?_) (fun u hu h => hlv u ?_ h)
      (fun u hu h => hsub' u ?_ h) (fun _ _ h => h) (fun _ _ _ _ h => h) (fun _ _ h => h) (fun _ h => h) (fun _ h => h)
    nodup := hi.nodup_tail hst
    below := fun f hf => hi.tail_sending hst f (List.mem_of_mem_tail hf)
    top := fun u d r' hs => absurd hs (hi.no_top hst)
    reqs := fun q hq => ?_
    liveAddr := fun j hj => hi.liveAddr j (List.mem_of_mem_erase hj)
    submitOk := fun e he => ?_
    submitOnce := ?_
    completedOk := fun q hq => (hsub _).mpr (.inl (hi.completedOk q hq)) }
  · rcases hp with hp | ⟨a, hp⟩
    · exact caller_ne hoff (by simp [hp]) ((hi.callers u).off (by simp [hp]))
    · exact caller_ne hoff (by simp [hp]) ((hi.callers u).off (by simp [hp]))
  · exact caller_ne hoff h1 ho
  · by_cases e : u = k
    · subst e
      by_cases hl : cfg.onLoop u = true
      · show LoopOk cfg _ u (loopReturn cfg s u u)
        rw [show loopReturn cfg s u u = .ret by simp [loopReturn, hl]]
        exact ⟨hl, .inr (.inr ((hsub u).mpr (.inr rfl)))⟩
      · show LoopOk cfg _ u (loopReturn cfg s u u)
        rw [show loopReturn cfg s u u = s.loop u by simp [loopReturn, hl]]
        exact (hi.loops u).keep (fun _ ho => absurd ho hl) (fun h => h) fun h => (hsub u).mpr (.inl h)
    · show LoopOk cfg _ u (loopReturn cfg s k u)
      rw [hloop u e]
      exact (hi.loops u).keep (fun _ _ => hsub' u e) (fun h => h) fun h => (hsub u).mpr (.inl h)
  · obtain ⟨⟨hw, hsl, hl, hs⟩, hd⟩ := hi.pend h
    have hne := hi.notifier_ne hst h
    exact ⟨⟨hw, hsl, hlv _ hne hl, fun h => hs (hsub' _ hne h)⟩, hd⟩
  · intro heq; subst heq; exact hunder f hf hu
  · intro heq; subst heq; exact hunder f hf hu
  · intro heq; subst heq; exact hunder f hf hu
  · have hq' : q ∈ s.inflight ∨ q = ⟨k, c⟩ := by
      cases accepted with
      | true => simpa [submit] using hq
      | false => exact .inl (by simpa [submit] using hq)
    rcases hq' with hq' | rfl
    · exact (hi.reqs q hq').keep (fun _ h => (hsub _).mpr (.inl h)) (fun _ h => h) (fun _ _ h => h)
    · refine ⟨hc, (hsub k).mpr (.inr rfl), ?_⟩
      by_cases hl : cfg.onLoop k = true
      · rw [if_pos hl]; exact (hon hl).2
      · rw [if_neg hl]; exact hoff (by simpa using hl)
  · have he : e ∈ s.submits ++ [⟨k, c, derefBuf cfg s (s.slot c).buf, s.sendAddr⟩] := he
    rcases List.mem_append.mp he with he | he
    · exact hi.submitOk e he
    · rw [List.mem_singleton.mp he]
      have halive : alive s k = true := by
        cases hl : cfg.onLoop k with
        | true => simp [alive, (hon hl).1]
        | false => simp [alive, hoff hl]
      refine ⟨hc, ?_, hi.liveAddr k hlive⟩
      show derefBuf cfg s (s.slot c).buf = some (cfg.buf k)
      rw [hi.top k c r hst]
      simp [derefBuf, halive]
  · show ((s.submits ++ [(⟨k, c, derefBuf cfg s (s.slot c).buf, s.sendAddr⟩ : Submit δ)]).map Submit.call).Nodup
    rw [List.map_append, List.nodup_append]
    refine ⟨hi.submitOnce, by simp, fun a ha b hb => ?_⟩
    have hb : b = k := by simpa using hb
    intro heq
    subst heq
    exact hfresh (hb ▸ ha)

/-- `send_data`'s malloc fails: the error callback is made, the flag is looked at after it. -/
theorem mallocFail_inv (hi : Inv cfg s) {k c : Nat} {r : List Frame} (hst : s.stack = .sendData k c :: r) :
    Inv cfg { s with stack := .user :: .sendFailed k c :: r, failed := s.failed ++ [⟨k, c⟩],
                     live := s.live.erase k } := by
  have hmem : ∀ f ∈ r, f ∈ s.stack := fun f hf => by rw [hst]; exact List.mem_cons_of_mem _ hf
  have hunder := hi.under hst (k := k) rfl
  obtain ⟨hc, -, hfresh, hon, hoff⟩ := hi.sending hst
  have hlv : ∀ u, u ≠ k → u ∈ s.live → u ∈ s.live.erase k := fun u hu h => (List.mem_erase_of_ne hu).mpr h
  have hfail : ∀ u, u ∈ s.failed.map Req.call → u ∈ (s.failed ++ [(⟨k, c⟩ : Req)]).map Req.call := fun u hu => by
    rw [List.map_append]; exact List.mem_append_left _ hu
  have howed : owed cfg { s with stack := .user :: .sendFailed k c :: r, failed := s.failed ++ [⟨k, c⟩],
                                 live := s.live.erase k } = owed cfg s := by
    simp [owed, hst, List.countP_cons, offFrame]
  refine { hi with
    hand := howed ▸ hi.hand
    callers := fun u => (hi.callers u).keep (fun hp h => hlv u ?_ h) (fun _ _ _ _ h => h)
      (fun _ _ h => h.keep (fun _ _ h => h) rfl) (fun _ h => .inl h) (hfail u) fun h => h
    loops := fun u => (hi.loops u).keep (fun _ _ h => h) (hfail u) fun h => h
    pend := fun h => ?_
    frames := fun f hf => ?_
    nodup := ?_
    below := fun f hf => ?_
    top := fun _ _ _ hs => by cases hs
    reqs := fun q hq => (hi.reqs q hq).same rfl rfl rfl
    liveAddr := fun j hj => hi.liveAddr j (List.mem_of_mem_erase hj) }
  · rcases hp with hp | ⟨a, hp⟩
    · exact caller_ne hoff (by simp [hp]) ((hi.callers u).off (by simp [hp]))
    · exact caller_ne hoff (by simp [hp]) ((hi.callers u).off (by simp [hp]))
  · obtain ⟨⟨hw, hb, hl, hs⟩, hd⟩ := hi.pend h
    exact ⟨⟨hw, hb, hlv _ (hi.notifier_ne hst h) hl, hs⟩, hd⟩
  · rcases List.mem_cons.mp hf with rfl | hf
    · trivial
    · rcases List.mem_cons.mp hf with rfl | hf
      · refine ⟨hc, by simp [Failed], ?_⟩
        by_cases hl : cfg.onLoop k = true
        · rw [if_pos hl]; exact hon hl
        · rw [if_neg hl]; exact hoff (by simpa using hl)
      · have hne : ∀ u, f.call? = some u → u ≠ k := fun u hu e => hunder f hf (e ▸ hu)
        exact (hi.frames f (hmem f hf)).keep (fun _ _ => rfl) (fun u hu h => hlv u (hne u hu) h) (fun _ _ h => h)
          (fun _ _ h => h) (fun _ _ _ _ h => h) (fun _ _ h => h) hfail (fun _ h => h)
  · have := hi.nodup
    rw [hst] at this
    exact this
  · rcases List.mem_cons.mp hf with rfl | hf
    · rfl
    · exact hi.tail_sending hst f hf

/-- A frame is done: it has posted, or lost, the post it owed, or owed none. -/
theorem pop_inv (hi : Inv cfg s) {f : Frame} {r : List Frame} (hst : s.stack = f :: r) {h' : Handoff Nat Stage}
    {n : Nat} (hh : h'.Inv (owed cfg { s with stack := r }) n) (hpc : h'.pc = s.h.pc)
    (hpend : h'.pending = s.h.pending)
    (hset : ∀ u, s.h.pc u = .wait → 0 < h'.sem → Failed s u ∨ Completed s u) :
    Inv cfg { s with h := h', lost := n, stack := r } := by
  have hwait : ∀ u, s.h.pc u = .wait → h'.pc u = .wait := fun u hu => by rw [hpc]; exact hu
  refine { hi with
    hand := hh
    callers := fun u => ?_
    loops := fun u => (hi.loops u).same rfl rfl
    pend := fun h => ?_
    frames := fun g hg => (hi.frames g (by rw [hst]; exact List.mem_cons_of_mem _ hg)).keep (fun _ _ => rfl)
      (fun _ _ h => h) (fun _ _ h => h) (fun _ _ h => h) (fun _ _ _ _ h => h) (fun _ => hwait) (fun _ h => h) fun _ h => h
    nodup := hi.nodup_tail hst
    below := fun g hg => hi.tail_sending hst g (List.mem_of_mem_tail hg)
    top := fun u d r' hs => absurd hs (hi.no_top hst)
    reqs := fun q hq => (hi.reqs q hq).keep (fun _ h => h) (fun _ h => h) (fun _ => hwait) }
  · show CallerOk cfg { s with h := h', lost := n, stack := r } u (h'.pc u)
    rw [hpc]
    exact (hi.callers u).keep (fun _ h => h) (fun _ _ _ _ h => h) (fun _ _ h => h.keep (fun _ _ h => h) rfl)
      (fun hw hs => .inr (hset u hw hs)) (fun h => h) fun h => h
  · obtain ⟨⟨hw, hb, hl⟩, hd⟩ := hi.pend (hpend ▸ h)
    exact ⟨⟨hwait _ hw, hb, hl⟩, hd⟩

theorem pop_user_inv (hi : Inv cfg s) {r : List Frame} (hst : s.stack = .user :: r) :
    Inv cfg { s with stack := r } := by
  have howed : owed cfg { s with stack := r } = owed cfg s := by simp [owed, hst, offFrame]
  refine pop_inv hi hst (howed.symm ▸ hi.hand) rfl rfl fun u hw hs => ?_
  have := hi.callers u
  rw [hw] at this
  exact this.2.2 hs

/-- The frame that looks at the flag for call `k` is done. -/
theorem check_inv (hi : Inv cfg s) {f : Frame} {r : List Frame} {k c : Nat} (hst : s.stack = f :: r)
    (hf : offFrame cfg f = !cfg.onLoop k)
    (hon : cfg.onLoop k = true → (s.slot c).asyncSendFlag = false) (hoff : cfg.onLoop k = false → s.h.pc k = .wait)
    (hset : Failed s k ∨ Completed s k) : Inv cfg { checkFlag cfg s k c with stack := r } := by
  have hwaits : ∀ u, s.h.pc u = .wait → 0 < s.h.sem → Failed s u ∨ Completed s u := fun u hw hs => by
    have := hi.callers u
    rw [hw] at this
    exact this.2.2 hs
  cases hl : cfg.onLoop k with
  | true =>
    have howed : owed cfg { s with stack := r } = owed cfg s := by simp [owed, hst, hf, hl]
    have := pop_inv hi hst (howed.symm ▸ hi.hand) rfl rfl hwaits
    simpa [checkFlag, hon hl, hl] using this
  | false =>
    have howed : owed cfg s = owed cfg { s with stack := r } + 1 := by simp [owed, hst, hf, hl]; omega
    have hhand := howed ▸ hi.hand
    cases hfl : (s.slot c).asyncSendFlag with
    | true =>
      have := pop_inv hi hst (Handoff.post_inv hhand) rfl rfl fun u hu _ => by
        rw [hi.hand.unique (t := u) (u := k) (by simp [hu]) (by simp [hoff hl])]; exact hset
      simpa [checkFlag, hfl] using this
    | false =>
      have := pop_inv hi hst (Handoff.drop_inv hhand) rfl rfl hwaits
      simpa [checkFlag, hfl, hl] using this

theorem sendFailed_inv (hi : Inv cfg s) {k c : Nat} {r : List Frame} (hst : s.stack = .sendFailed k c :: r) :
    Inv cfg { checkFlag cfg s k c with stack := r, loop := loopReturn cfg s k } := by
  obtain ⟨-, hfail, hok⟩ : FrameOk cfg s (.sendFailed k c) := hi.frames _ (by rw [hst]; exact List.mem_cons_self)
  have hflag : cfg.onLoop k = true → (s.slot c).asyncSendFlag = false := fun hl => by
    rw [if_pos hl] at hok; exact hok.2
  have hwait : cfg.onLoop k = false → s.h.pc k = .wait := fun hl => by
    rw [if_neg (by simp [hl])] at hok; exact hok
  have h1 := check_inv hi hst rfl hflag hwait (.inl hfail)
  cases hl : cfg.onLoop k with
  | true =>
    have h2 := loop_inv h1 (k := k) (p := .ret) (hi.under hst rfl) ⟨hl, .inr (.inl ?_)⟩
    · simpa [checkFlag, hflag hl, hl, loopReturn] using h2
    · simpa [Failed, checkFlag, hflag hl, hl] using hfail
  | false =>
    have e : loopReturn cfg s k = (checkFlag cfg s k c).loop := by
      unfold checkFlag
      simp only [loopReturn, hl, Bool.false_eq_true, if_false]
      split <;> rfl
    rw [e]; exact h1

theorem sent_inv (hi : Inv cfg s) {k c : Nat} {r : List Frame} (hst : s.stack = .sent k c :: r) :
    Inv cfg { checkFlag cfg s k c with stack := r } := by
  obtain ⟨-, hcomp, hok⟩ : FrameOk cfg s (.sent k c) := hi.frames _ (by rw [hst]; exact List.mem_cons_self)
  refine check_inv hi hst rfl (fun hl => ?_) (fun hl => ?_) (.inr hcomp)
  · rw [if_pos hl] at hok; exact hok
  · rw [if_neg (by simp [hl])] at hok; exact hok

/-- Request `i`, which is `q`, has completed, and its callback is about to look at the flag. -/
def completing (s : St δ) (i : Nat) (q : Req) : St δ :=
  { s with inflight := s.inflight.eraseIdx i, completed := s.completed ++ [q], stack := [.sent q.call q.conn] }

theorem checkFlag_stack (s : St δ) (k c : Nat) (st : List Frame) :
    checkFlag cfg { s with stack := st } k c = { checkFlag cfg s k c with stack := st } := by
  unfold checkFlag
  cases (s.slot c).asyncSendFlag <;> cases cfg.onLoop k <;> rfl

theorem onWrite_cases {i : Nat} (h : onWrite cfg s i = some s') :
    ∃ q, s.stack = [] ∧ s.inflight[i]? = some q ∧
      (s' = { completing s i q with stack := [.user, .sent q.call q.conn] } ∨
        s' = { checkFlag cfg (completing s i q) q.call q.conn with stack := [] }) := by
  unfold onWrite at h
  split at h
  · rename_i hst
    cases hq : s.inflight[i]? with
    | none => rw [hq] at h; cases h
    | some q =>
      rw [hq] at h
      refine ⟨q, hst, rfl, ?_⟩
      simp only [Option.map_some, Option.some.injEq] at h
      split at h
      · exact .inl h.symm
      · rw [hst] at h
        exact .inr (h.symm.trans (checkFlag_stack (completing s i q) q.call q.conn []))
  · cases h

/-- The callback of a completed request owes the post that the request owed. -/
theorem completing_inv (hi : Inv cfg s) {i : Nat} {q : Req} (hst : s.stack = []) (hq : s.inflight[i]? = some q) :
    Inv cfg (completing s i q) := by
  obtain ⟨hi', hqi⟩ := List.getElem?_eq_some_iff.mp hq
  have hqm : q ∈ s.inflight := List.mem_of_getElem? hq
  obtain ⟨hc, hsub, hok⟩ := hi.reqs q hqm
  have hcomp : ∀ u, u ∈ s.completed.map Req.call → u ∈ (s.completed ++ [q]).map Req.call := fun u hu => by
    rw [List.map_append]; exact List.mem_append_left _ hu
  have howed : owed cfg (completing s i q) = owed cfg s := by
    have hperm := (List.getElem_cons_eraseIdx_perm hi').countP_eq fun r => !cfg.onLoop r.call
    rw [hqi, List.countP_cons] at hperm
    cases hl : cfg.onLoop q.call with
    | true => simpa [owed, completing, hst, offFrame, hl] using hperm
    | false =>
      simp only [hl, Bool.not_false, if_true] at hperm
      simp only [owed, completing, hst, List.countP_cons, List.countP_nil, offFrame, hl, Bool.not_false, if_true]
      omega
  refine { hi with
    hand := howed ▸ hi.hand
    callers := fun u => (hi.callers u).keep (fun _ h => h) (fun _ _ _ _ h => h)
      (fun _ _ h => h.keep (fun _ _ h => h) rfl) (fun _ h => .inl h) (fun h => h) (hcomp u)
    loops := fun u => (hi.loops u).same rfl rfl
    pend := fun h => hi.pend h
    frames := fun f hf => ?_
    nodup := List.nodup_nil
    below := fun f hf => by cases hf
    top := fun _ _ _ hs => by cases hs
    reqs := fun r hr => (hi.reqs r (List.mem_of_mem_eraseIdx hr)).keep (fun _ h => h) (fun _ h => h) (fun _ _ h => h)
    completedOk := fun r hr => ?_ }
  · rw [List.mem_singleton.mp hf]
    exact ⟨hc, by simp [Completed, completing], hok⟩
  · rcases List.mem_append.mp hr with hr | hr
    · exact hi.completedOk r hr
    · rw [List.mem_singleton.mp hr]; exact hsub

theorem onWrite_inv (hi : Inv cfg s) {i : Nat} (h : onWrite cfg s i = some s') : Inv cfg s' := by
  obtain ⟨q, hst, hq, rfl | rfl⟩ := onWrite_cases h
  · have h1 := completing_inv hi hst hq
    refine stack_inv h1 (by simp [completing, offFrame]) (fun f hf => ?_) List.nodup_nil fun f hf => ?_
    · rcases List.mem_cons.mp hf with rfl | hf
      · trivial
      · exact h1.frames f hf
    · rcases List.mem_cons.mp hf with rfl | hf
      · rfl
      · rw [List.mem_singleton.mp hf]; rfl
  · exact sent_inv (completing_inv hi hst hq) rfl

theorem loopStep_inv [DecidableEq δ] (hi : Inv cfg s) {malloc accepted : Bool}
    (hg : apart cfg s (.loop malloc accepted) = true) (h : loopStep cfg s malloc accepted = some s') : Inv cfg s' := by
  unfold loopStep at h
  split at h
  · rename_i k r hst; cases h; exact clear_inv hi hst
  · rename_i k r hst
    cases h
    exact syncBuf_inv hi hst (by simpa [apart, hst] using hg)
  · rename_i k c r hst
    split at h
    · cases h; exact submit_inv hi hst accepted
    · cases h; exact mallocFail_inv hi hst
  · rename_i k c r hst; cases h; exact sendFailed_inv hi hst
  · rename_i k c r hst; cases h; exact sent_inv hi hst
  · cases h

/-! ## Runs -/

theorem step_inv [DecidableEq δ] (hi : Inv cfg s) {e : Ev} (hg : apart cfg s e = true) (h : step cfg s e = some s') :
    Inv cfg s' := by
  cases e with
  | callback =>
    simp only [step] at h
    split at h
    · rename_i hst
      cases h
      exact stack_inv hi (by simp [hst, offFrame]) (fun f hf => by rw [List.mem_singleton.mp hf]; trivial)
        List.nodup_nil fun f hf => by rw [List.mem_singleton.mp hf]; rfl
    · cases h
  | ret =>
    simp only [step] at h
    split at h
    · rename_i r hst; cases h; exact pop_user_inv hi hst
    · cases h
  | call k => exact enter_inv hi hg h
  | caller k => exact callerStep_inv hi hg h
  | asyncSend => exact asyncSendCb_inv hi h
  | loop malloc accepted => exact loopStep_inv hi hg h
  | written i => exact onWrite_inv hi h

/-- At most one entry of a log is about call `k`. -/
theorem filter_call_cases {α : Type} {f : α → Nat} {l : List α} (honce : (l.map f).Nodup) {k : Nat} {x : α}
    (hx : ∀ e ∈ l, f e = k → e = x) :
    l.filter (fun e => f e == k) = [] ∨ l.filter (fun e => f e == k) = [x] := by
  induction l with
  | nil => exact .inl rfl
  | cons e l ih =>
    rw [List.map_cons, List.nodup_cons] at honce
    by_cases hk : f e = k
    · refine .inr ?_
      have hrest : l.filter (fun e => f e == k) = [] := by
        rw [List.filter_eq_nil_iff]
        intro e' he' hk'
        have hk' : f e' = k := by simpa using hk'
        exact honce.1 (hk ▸ hk' ▸ List.mem_map_of_mem he')
      rw [List.filter_cons_of_pos (by simp [hk]), hrest, hx e List.mem_cons_self hk]
    · rw [List.filter_cons_of_neg (by simp [hk])]
      exact ih honce.2 fun e' he' => hx e' (List.mem_cons_of_mem _ he')

/-- What calls are told of: nothing twice, nothing of another call's. -/
theorem Inv.submitsOf_cases (hi : Inv cfg s) (k : Nat) : submitsOf s k = [] ∨ submitsOf s k = [cfg.own k] := by
  refine filter_call_cases (f := Submit.call) hi.submitOnce fun e he hk => ?_
  obtain ⟨h1, h2, h3⟩ := hi.submitOk e he
  rw [hk] at h1 h2 h3
  cases e
  simp only [Cfg.own, Submit.mk.injEq]
  exact ⟨hk, h1, h2, h3⟩

theorem Inv.submitsOf_eq (hi : Inv cfg s) {k : Nat} (h : Submitted s k) : submitsOf s k = [cfg.own k] := by
  refine (hi.submitsOf_cases k).resolve_left fun h0 => ?_
  obtain ⟨e, he, hk⟩ := List.mem_map.mp h
  exact List.filter_eq_nil_iff.mp h0 e he (by simp [hk])

theorem Inv.submitted_of_completed (hi : Inv cfg s) {k : Nat} (h : Completed s k) : Submitted s k := by
  obtain ⟨r, hr, rfl⟩ := List.mem_map.mp h
  exact hi.completedOk r hr

/-- An off-thread call returns at its NULL check, after its malloc failed, or after its
    own submission completed. -/
theorem Inv.ret_completed (hi : Inv cfg s) {k : Nat} (h : s.h.pc k = .ret) :
    cfg.null k = true ∨ Failed s k ∨ Completed s k := by
  have := hi.callers k
  rw [h] at this
  exact this.2

theorem Inv.ret_submitted (hi : Inv cfg s) {k : Nat} (h : returned s k) :
    cfg.null k = true ∨ Failed s k ∨ submitsOf s k = [cfg.own k] := by
  rcases h with h | h
  · exact (hi.ret_completed h).imp_right (Or.imp_right fun h => hi.submitsOf_eq (hi.submitted_of_completed h))
  · have := hi.loops k
    rw [h] at this
    exact this.2.imp_right (Or.imp_right hi.submitsOf_eq)

end UvWrapper.Net.SendPath
