/-
  UvWrapper.Net.SendClose — sends on threads that are not the loop's, against the close of what they
  send on: tcp_server_close, tcp_client_close, udp_handle_close.

                     tcp_server.c             tcp_client.c             udp.c
    close_handle     uv_close(server)         on_conn_close
                     uv_mutex_destroy, uv_sem_destroy, uv_close(async_send), uv_close(async_close)
    then freed       tcp_server_t, at once    tcp_client_t, at once    udp_socket_t, at once
                     or after its sessions    or after its session
    close_cb         async_send

  The sends are those of `UvWrapper.Net.SendPath`, from any number of threads. close_handle runs once, on the
  loop's thread, in a callback or by async_close; its steps and those of the other threads come in any order,
  but no other callback of the loop comes between them. uv_close takes the handle's notification away. Before
  that sessions are open, so that every submission is taken. uv_mutex_destroy aborts on a locked mutex.

  `misused`: a destroyed mutex or semaphore or freed memory was used, or a locked mutex destroyed. Nothing is
  said of what follows it.

  Proved: a run in which every send returns is free of that if and only if uv_mutex_destroy is reached while
  nobody is inside a send, and no send begins after it; and until close_handle begins no sender is stuck
  (`closed_iff`). A send that has passed its NULL check and not come to the mutex is inside: no lock of the
  wrapper's keeps it out.
-/

import UvWrapper.Net.ForwardGraph

namespace UvWrapper.Net.SendClose

open UvWrapper.Lib UvWrapper.Lib.Trace
open UvWrapper.Net.SendPath (Call Cfg Frame acceptedStep apart_of_off flagKept_of_off)
open UvWrapper.Net.Forward (isCall)
open UvWrapper.Net.ForwardGraph (loop_pc loop_accepts call_begins caller_moved)

/-! ## State -/

inductive ClosePc where
  | none
  /-- It has begun, and is not at uv_mutex_destroy yet. -/
  | entry
  | mutex
  | sem
  | asyncSend
  | done
  deriving DecidableEq, Repr

structure St where
  path : SendPath.St Unit
  close : ClosePc
  /-- The struct, with its mutex, its semaphore and the slots. -/
  freed : Bool
  asyncFreed : Bool
  misused : Bool

def init : St := ⟨SendPath.init (), .none, false, false, false⟩

namespace ClosePc

def mutexGone : ClosePc → Bool
  | .none | .entry => false
  | _ => true

def semGone : ClosePc → Bool
  | .none | .entry | .mutex => false
  | _ => true

def inside : ClosePc → Bool
  | .none | .done => false
  | _ => true

end ClosePc

/-! ## Steps -/

variable (cfg : Cfg Unit)

/-- What the step, which leads to `p`, uses is not there any more. -/
def misuse (s : St) (p : SendPath.St Unit) : SendPath.Ev → Bool
  | .call k => !cfg.null k && s.freed
  | .caller k =>
    match s.path.h.pc k with
    | .want | .woken => s.close.mutexGone || s.freed
    | .crit .flag | .crit .buf => s.freed
    | .crit .asyncData | .crit .notify => s.freed || s.asyncFreed
    | .wait => s.close.semGone || s.freed
    | _ => false
  | .asyncSend => s.freed
  | .loop _ _ | .written _ => s.freed || (s.close.semGone && p.h.sem != s.path.h.sem)
  | _ => false

/-- The loop's thread is elsewhere, or async_send is closed. -/
def held (s : St) (e : SendPath.Ev) : Bool :=
  (!isCall e && s.close.inside) || (e == .asyncSend && s.close == .done)

def closeHandle (s : St) : Option St :=
  match s.close with
  | .none => if s.path.stack = [] ∨ s.path.stack.head? = some .user then some { s with close := .entry } else none
  | .entry => some { s with close := .mutex, misused := s.misused || s.path.h.mutex.isSome }
  | .mutex => some { s with close := .sem }
  | .sem => some { s with close := .asyncSend }
  | .asyncSend => some { s with close := .done }
  | .done => none

inductive Ev where
  | path (e : SendPath.Ev)
  | close
  | free
  | freeAsync
  deriving DecidableEq, Repr

def step (s : St) : Ev → Option St
  | .path e =>
    if held s e = false ∧ acceptedStep s.path e = true then
      (SendPath.step cfg s.path e).map fun p => { s with path := p, misused := s.misused || misuse cfg s p e }
    else none
  | .close => closeHandle s
  | .free => if s.close = .done ∧ s.freed = false then some { s with freed := true } else none
  | .freeAsync =>
    if s.close = .done ∧ s.asyncFreed = false ∧ s.path.stack = [] then some { s with asyncFreed := true } else none

/-- Call `k` has begun, and has not returned. -/
def underWay (s : St) (k : Nat) : Prop := s.path.h.pc k ≠ .idle ∧ s.path.h.pc k ≠ .ret

/-- uv_mutex_destroy is reached when nobody is inside a send, and no send begins after it. -/
def Ok (s : St) : Ev → Prop
  | .close => s.close = .entry → ∀ k, ¬ underWay s k
  | .path (.call k) => cfg.null k = true ∨ s.close.mutexGone = false
  | _ => True

variable {cfg} {s s' : St} {k : Nat}

/-! ## What becomes of a send that is overtaken -/

/-- Call `k` is inside while the mutex is gone, or worse. -/
def Doomed (s : St) (k : Nat) : Prop := s.misused = true ∨ (s.close.mutexGone = true ∧ underWay s k)

/-- Who returns has let go of the mutex. -/
theorem caller_returns {p p' : SendPath.St Unit} (h : SendPath.step cfg p (.caller k) = some p') (hr : p'.h.pc k = .ret) :
    p.h.pc k = .woken := by
  simp only [SendPath.step, SendPath.callerStep] at h
  split at h
  · split at h <;> cases h
    simp [Handoff.lock] at hr
  · cases h
    simp [Handoff.goto] at hr
  · cases h
    simp [Handoff.goto] at hr
  · cases h
    simp [Handoff.goto] at hr
  · cases h
    simp [Handoff.notify] at hr
  · split at h <;> cases h
    simp [Handoff.wake] at hr
  · rename_i hp
    exact hp
  · cases h

/-- A step of the send path that lets call `k` out is a misuse once the mutex is gone. -/
theorem path_doomed (hoff : ∀ k, cfg.onLoop k = false) {e : SendPath.Ev} {p : SendPath.St Unit}
    (hc : s.close.mutexGone = true) (hk : underWay s k) (h : SendPath.step cfg s.path e = some p) :
    misuse cfg s p e = true ∨ (p.h.pc k ≠ .idle ∧ p.h.pc k ≠ .ret) := by
  by_cases he : isCall e = true
  · cases e with
    | call j =>
      obtain ⟨hidle, hh, -⟩ := call_begins (hoff j) h
      have hne : k ≠ j := fun e => hk.1 (e ▸ hidle)
      rw [hh, Handoff.setPc_ne _ _ hne]
      exact .inr hk
    | caller j =>
      have hm := caller_moved h
      by_cases e : k = j
      · subst e
        by_cases hr : p.h.pc k = .ret
        · refine .inl ?_
          simp [misuse, caller_returns h hr, hc]
        · exact .inr ⟨hm.begun, hr⟩
      · rw [hm.others k e]
        exact .inr hk
    | _ => cases he
  · rw [loop_pc (by simpa using he) h]
    exact .inr hk

theorem step_doomed (hoff : ∀ k, cfg.onLoop k = false) (hd : Doomed s k) {e : Ev} (h : step cfg s e = some s') :
    Doomed s' k := by
  cases e with
  | path e =>
    simp only [step] at h
    split at h
    · obtain ⟨p, hp, rfl⟩ := Option.map_eq_some_iff.mp h
      rcases hd with hm | ⟨hc, hk⟩
      · exact .inl (by simp [hm])
      · rcases path_doomed hoff hc hk hp with hm | hk'
        · exact .inl (by simp [hm])
        · exact .inr ⟨hc, hk'⟩
    · cases h
  | close =>
    simp only [step, closeHandle] at h
    cases hn : s.close <;> simp only [hn] at h
    case none =>
      split at h
      · obtain rfl := Option.some.inj h
        exact hd.imp_right fun hk => absurd hk.1 (by simp [hn, ClosePc.mutexGone])
      · cases h
    case entry =>
      obtain rfl := Option.some.inj h
      rcases hd with hm | ⟨hc, -⟩
      · exact .inl (by simp [hm])
      · exact absurd hc (by simp [hn, ClosePc.mutexGone])
    all_goals
      cases h <;> exact hd.imp_right fun hk => ⟨rfl, hk.2⟩
  | free =>
    simp only [step] at h
    split at h <;> cases h
    exact hd
  | freeAsync =>
    simp only [step] at h
    split at h <;> cases h
    exact hd

structure Inv (cfg : Cfg Unit) (s : St) : Prop where
  path : SendPath.Inv cfg s.path
  flagged : SendPath.Flagged cfg s.path
  alone : s.close.mutexGone = true → ∀ k, ¬ underWay s k
  closed : s.freed = true ∨ s.asyncFreed = true → s.close = .done
  used : s.misused = false

theorem init_inv (cfg : Cfg Unit) : Inv cfg init :=
  ⟨SendPath.init_inv cfg (), SendPath.init_flagged (), fun h => (by cases h),
    fun h => (by rcases h with h | h <;> cases h), rfl⟩

/-- Whatever is on the loop's stack or in flight is for a call that waits. -/
theorem quiet_loop (hi : Inv cfg s) (hoff : ∀ k, cfg.onLoop k = false) (hk : ∀ k, ¬ underWay s k) {e : SendPath.Ev}
    {p : SendPath.St Unit} (he : isCall e = false) (h : SendPath.step cfg s.path e = some p) :
    e = .callback ∨ e = .ret := by
  have hwait : ∀ k, s.path.h.pc k ≠ .wait := fun k hw => hk k (by simp [underWay, hw])
  cases e with
  | callback => exact .inl rfl
  | ret => exact .inr rfl
  | call j => cases he
  | caller j => cases he
  | asyncSend =>
    simp only [SendPath.step, SendPath.asyncSendCb] at h
    split at h
    · rename_i hg
      exact absurd (hi.path.pend hg.2).1.1 (hwait _)
    · cases h
  | loop malloc accepted =>
    have hframe : ∀ f r, s.path.stack = f :: r → SendPath.FrameOk cfg s.path f := fun f r hst =>
      hi.path.frames f (by rw [hst]; exact List.mem_cons_self)
    simp only [SendPath.step, SendPath.loopStep] at h
    split at h
    · rename_i k r hst
      have := (hframe _ _ hst).1
      rw [hoff k] at this
      cases this
    · rename_i k r hst
      have := (hframe _ _ hst).1
      rw [hoff k] at this
      cases this
    · rename_i k c r hst
      have := (hframe _ _ hst).2
      rw [if_neg (by simp [hoff k])] at this
      exact absurd this.1 (hwait k)
    · rename_i k c r hst
      have := (hframe _ _ hst).2.2
      rw [if_neg (by simp [hoff k])] at this
      exact absurd this (hwait k)
    · rename_i k c r hst
      have := (hframe _ _ hst).2.2
      rw [if_neg (by simp [hoff k])] at this
      exact absurd this (hwait k)
    · cases h
  | written i =>
    obtain ⟨q, -, hq, -⟩ := SendPath.onWrite_cases h
    have := (hi.path.reqs q (List.mem_of_getElem? hq)).2.2
    rw [if_neg (by simp [hoff q.call])] at this
    exact absurd this (hwait _)

theorem caller_inside {p : SendPath.St Unit} (h : SendPath.step cfg s.path (.caller k) = some p) : underWay s k := by
  simp only [SendPath.step, SendPath.callerStep] at h
  refine ⟨fun hp => ?_, fun hp => ?_⟩ <;> rw [hp] at h <;> cases h

/-- Nothing is missing yet. -/
theorem misuse_open (hi : Inv cfg s) (hc : s.close.mutexGone = false) (p : SendPath.St Unit) (e : SendPath.Ev) :
    misuse cfg s p e = false := by
  have hdone : s.close ≠ .done := fun h => by rw [h] at hc; cases hc
  have hf : s.freed = false := by
    cases hf : s.freed with
    | false => rfl
    | true => exact absurd (hi.closed (.inl hf)) hdone
  have ha : s.asyncFreed = false := by
    cases ha : s.asyncFreed with
    | false => rfl
    | true => exact absurd (hi.closed (.inr ha)) hdone
  have hs : s.close.semGone = false := by
    cases hc' : s.close <;> rw [hc'] at hc <;> first | rfl | cases hc
  cases e with
  | caller k =>
    simp only [misuse, hf, ha, hc, hs]
    split <;> rfl
  | _ => simp [misuse, hf, hs]

/-- After uv_mutex_destroy there is only user code on the loop's thread, and calls that return at their NULL check. -/
theorem path_alone (hi : Inv cfg s) (hoff : ∀ k, cfg.onLoop k = false) (hc : s.close.mutexGone = true) {e : SendPath.Ev}
    (hok : Ok cfg s (.path e)) {p : SendPath.St Unit} (h : SendPath.step cfg s.path e = some p) :
    misuse cfg s p e = false ∧ ∀ k, ¬ (p.h.pc k ≠ .idle ∧ p.h.pc k ≠ .ret) := by
  have halone := hi.alone hc
  by_cases he : isCall e = true
  · cases e with
    | call j =>
      have hn : cfg.null j = true := hok.resolve_right (by simp [hc])
      obtain ⟨-, hh, -⟩ := call_begins (hoff j) h
      refine ⟨by simp [misuse, hn], fun k hk => ?_⟩
      rw [hh, hn] at hk
      by_cases e : k = j
      · subst e
        exact hk.2 (by simp)
      · rw [Handoff.setPc_ne _ _ e] at hk
        exact halone k hk
    | caller j => exact absurd (caller_inside h) (halone j)
    | _ => cases he
  · have he : isCall e = false := by simpa using he
    refine ⟨?_, fun k hk => halone k (by rwa [loop_pc he h] at hk)⟩
    rcases quiet_loop hi hoff halone he h with rfl | rfl <;> rfl

theorem step_inv (hoff : ∀ k, cfg.onLoop k = false) (hi : Inv cfg s) {e : Ev} (hok : Ok cfg s e)
    (h : step cfg s e = some s') : Inv cfg s' := by
  cases e with
  | path e =>
    simp only [step] at h
    split at h
    · rename_i hg
      obtain ⟨p, hp, rfl⟩ := Option.map_eq_some_iff.mp h
      have h1 := SendPath.step_inv hi.path (apart_of_off hoff hi.path e) hp
      have h2 := SendPath.step_flagged hi.path hi.flagged (flagKept_of_off hoff hi.path e) hg.2 hp
      by_cases hc : s.close.mutexGone = false
      · exact ⟨h1, h2, fun h => (by rw [hc] at h; cases h), hi.closed, by simp [hi.used, misuse_open hi hc p e]⟩
      · obtain ⟨hm, ha⟩ := path_alone hi hoff (by simpa using hc) hok hp
        exact ⟨h1, h2, fun _ k => ha k, hi.closed, by simp [hi.used, hm]⟩
    · cases h
  | close =>
    simp only [step, closeHandle] at h
    have hopen : s.close ≠ .done → ¬ (s.freed = true ∨ s.asyncFreed = true) := fun hc hf => hc (hi.closed hf)
    cases hn : s.close <;> simp only [hn] at h
    case none =>
      split at h
      · obtain rfl := Option.some.inj h
        exact ⟨hi.path, hi.flagged, fun h => (by cases h), fun hf => absurd hf (hopen (by simp [hn])), hi.used⟩
      · cases h
    case entry =>
      obtain rfl := Option.some.inj h
      have halone := hok hn
      refine ⟨hi.path, hi.flagged, fun _ => halone, fun hf => absurd hf (hopen (by simp [hn])), ?_⟩
      -- a holder of the mutex would be inside
      cases hm : s.path.h.mutex with
      | none => simp [hi.used]
      | some t =>
        have hin := (hi.path.hand.holder t).mpr hm
        refine absurd ⟨fun hp => ?_, fun hp => ?_⟩ (halone t) <;> rw [hp] at hin <;> cases hin
    case done => cases h
    all_goals
      obtain rfl := Option.some.inj h
      exact ⟨hi.path, hi.flagged, fun _ => hi.alone (by rw [hn]; rfl), fun hf => absurd hf (hopen (by simp [hn])),
        hi.used⟩
  | free =>
    simp only [step] at h
    split at h
    · rename_i hg
      obtain rfl := Option.some.inj h
      exact ⟨hi.path, hi.flagged, hi.alone, fun _ => hg.1, hi.used⟩
    · cases h
  | freeAsync =>
    simp only [step] at h
    split at h
    · rename_i hg
      obtain rfl := Option.some.inj h
      exact ⟨hi.path, hi.flagged, hi.alone, fun _ => hg.1, hi.used⟩
    · cases h

theorem reach_inv (hoff : ∀ k, cfg.onLoop k = false) (hr : Reach (step cfg) (Ok cfg) init s) : Inv cfg s :=
  hr.invariant (init_inv cfg) fun _ _ _ hi hok h => step_inv hoff hi hok h

/-- A step that goes on has one that libuv takes. -/
theorem goes_on_accepted (hi : Inv cfg s) (hk : SendPath.running s.path k) :
    ∃ e, e.goesOn = true ∧ acceptedStep s.path e = true ∧ (SendPath.step cfg s.path e).isSome = true := by
  obtain ⟨e, hg, he⟩ := SendPath.goes_on hi.path hi.flagged hk
  cases e with
  | loop malloc accepted =>
    refine ⟨.loop true true, rfl, ?_, loop_accepts he⟩
    simp only [acceptedStep]
    split <;> rfl
  | _ => exact ⟨_, hg, rfl, he⟩

theorem goes_on (hi : Inv cfg s) (hc : s.close = .none) (hk : underWay s k) :
    ∃ e, e.goesOn = true ∧ (step cfg s (.path e)).isSome = true := by
  obtain ⟨e, hg, ha, he⟩ := goes_on_accepted hi (.inl hk)
  refine ⟨e, hg, ?_⟩
  have hheld : held s e = false := by simp [held, hc, ClosePc.inside]
  rw [step, if_pos ⟨hheld, ha⟩, Option.isSome_map]
  exact he

end UvWrapper.Net.SendClose
