/-
  UvWrapper.Serial.SerialLife — the life of a serial_t (serial.c), from serial_run through one
  serial_close, and what becomes of the device's descriptor.

  Loop thread: poll events, the notification of async_close and the ends of the handles' closes
  come one after another; on_data runs inside a poll event. serial_close is called on the loop's
  thread, from on_data or between callbacks, or on another one. A poll event comes only while the
  poller is started and not closed. on_data does not look at its data after it has closed.

  uv_poll_init refuses a descriptor that epoll cannot watch, such as a regular file's, and leaves
  the poller as calloc made it; uv_poll_start then follows the NULL it has for a loop.
  uv_async_init succeeds.

  `uaf`: a step read the serial_t after it was freed. `crashed`: uv_poll_start did that. Nothing is
  said of what follows either.

  Proved: no callback reads a freed serial_t and nothing is released twice (`Inv`); the loop can
  always drain (`drains`), and then what serial_run acquired has been released once, in every run,
  if and only if serial_run gets no memory or no descriptor, or gets both of its handles and a
  descriptor that is not 0 and can be watched (`whole_iff`). Standard input's descriptor stays
  open, and so does one that a failed calloc is left with; a regular file ends the program (`leaks`).
-/

import UvWrapper.Lib.Handle
import UvWrapper.Lib.Trace

namespace UvWrapper.Serial.SerialLife

open UvWrapper.Lib UvWrapper.Lib.Trace

/-! ## State -/

inductive Res where
  | serial
  | fd
  | poller
  | asyncClose
  deriving DecidableEq, Repr

inductive Closer where
  | idle
  | notify
  | done
  deriving DecidableEq, Repr

structure St where
  acquired : List Res
  /-- What was closed or freed, in order. -/
  released : List Res
  fd : Int
  poller : Handle
  asyncClose : Handle
  polling : Bool
  closePending : Bool
  closer : Closer
  /-- on_data runs. -/
  inData : Bool
  uaf : Bool
  crashed : Bool
  deriving DecidableEq, Repr

/-- What malloc, open, the two callocs and uv_poll_init return. -/
structure Outcome where
  malloc : Bool
  fd : Int
  poller : Bool
  asyncClose : Bool
  pollInit : Bool
  deriving DecidableEq, Repr

/-- serial_run has returned NULL. -/
def failed (acquired released : List Res) (fd : Int) : St :=
  ⟨acquired, released, fd, .none, .none, false, false, .done, false, false, false⟩

def serialRun (o : Outcome) : St :=
  if !o.malloc then failed [] [] (-1)
  else if o.fd < 0 then failed [.serial] [.serial] o.fd
  else if !o.poller then failed [.serial, .fd] [.serial] o.fd
  else if !o.asyncClose then failed [.serial, .fd, .poller] [.poller, .serial] o.fd
  -- the result is not looked at, and uv_poll_start comes next
  else if !o.pollInit then { failed [.serial, .fd, .poller, .asyncClose] [] o.fd with crashed := true }
  else ⟨[.serial, .fd, .poller, .asyncClose], [], o.fd, .opened, .opened, true, false, .idle, false, false, false⟩

/-! ## Steps -/

/-- A step that reads the serial_t first. -/
def reads (s t : St) : St := if .serial ∈ s.released then { s with uaf := true } else t

variable (onData : Bool)

/-- `serial_read`, up to its on_data. `available`: what FIONREAD says, `ret`: what read returns. -/
def serialRead (s : St) (available ret : Int) : St :=
  reads s
    (if available ≤ 0 then s
    else if ret = -1 then s
    else if onData then { s with inData := true } else s)

def UV_READABLE : Nat := 1

/-- `serial_poll_ev`: it reads nothing of the serial_t itself. -/
def serialPollEv (s : St) (status : Int) (events : Nat) (available ret : Int) : St :=
  if status < 0 then s
  else if events &&& UV_READABLE ≠ 0 then serialRead onData s available ret
  else s

def closeHandle (s : St) : St :=
  reads s
    { s with asyncClose := s.asyncClose.close, polling := false, poller := s.poller.close,
             released := s.released ++ ((if 0 < s.fd then [.fd] else []) ++ [.serial]) }

def closerStep (s : St) : Option St :=
  match s.closer with
  | .idle => some (reads s { s with closer := .notify })
  | .notify => some (reads s { s with closePending := true, closer := .done })
  | .done => none

inductive Ev where
  | poll (status : Int) (events : Nat) (available ret : Int)
  /-- on_data returns; serial_read and serial_poll_ev then only return too. -/
  | ret
  | pollerClosed
  | asyncCloseClosed
  | asyncClose
  /-- serial_close on the loop's thread, and on another one. -/
  | close
  | closer
  deriving DecidableEq, Repr

def step (s : St) (e : Ev) : Option St :=
  if s.uaf || s.crashed then none
  else match e with
  | .poll status events available ret =>
    if s.inData = false ∧ s.polling = true ∧ s.poller.st = .opened then
      some (serialPollEv onData s status events available ret)
    else none
  | .ret => if s.inData = true then some { s with inData := false } else none
  | .pollerClosed =>
    if s.inData = false ∧ s.poller.st = .closing then
      some { s with poller := s.poller.finish, released := s.released ++ [.poller] }
    else none
  | .asyncCloseClosed =>
    if s.inData = false ∧ s.asyncClose.st = .closing then
      some { s with asyncClose := s.asyncClose.finish, released := s.released ++ [.asyncClose] }
    else none
  | .asyncClose =>
    if s.inData = false ∧ s.closePending = true ∧ s.asyncClose.st = .opened then
      some (closeHandle { s with closePending := false })
    else none
  | .close => if s.closer = .idle then some (closeHandle { s with closer := .done }) else none
  | .closer => closerStep s

/-! ## What the release promises -/

/-- The close is through, and the loop has nothing left to call back. -/
structure Drained (s : St) : Prop where
  closer : s.closer = .done
  pending : s.closePending = false
  inData : s.inData = false
  poller : s.poller.st ≠ .closing
  asyncClose : s.asyncClose.st ≠ .closing

structure Released (s : St) : Prop where
  uaf : s.uaf = false
  crashed : s.crashed = false
  once : ∀ r, s.released.count r ≤ s.acquired.count r
  all : Drained s → ∀ r, s.released.count r = s.acquired.count r

/-- serial_run gets no serial_t or no descriptor; or all, and a descriptor that is not 0 and can be watched. -/
def whole (o : Outcome) : Bool :=
  !o.malloc || decide (o.fd < 0) || (decide (o.fd ≠ 0) && o.poller && o.asyncClose && o.pollInit)

structure Outcome.Running (o : Outcome) : Prop where
  malloc : o.malloc = true
  fd : 0 ≤ o.fd
  poller : o.poller = true
  asyncClose : o.asyncClose = true
  pollInit : o.pollInit = true

/-! ## The invariant -/

def gone (s : St) : Res → Nat
  | .serial => if s.poller.st = .opened then 0 else 1
  | .fd => if s.poller.st = .opened then 0 else if 0 < s.fd then 1 else 0
  | .poller => if s.poller.st = .closed then 1 else 0
  | .asyncClose => if s.asyncClose.st = .closed then 1 else 0

/-- Before close_handle. -/
structure Up (s : St) : Prop where
  poller : s.poller = .opened
  asyncClose : s.asyncClose = .opened
  released : s.released = []

structure Down (s : St) : Prop where
  poller : s.poller.st = .closing ∨ s.poller.st = .closed
  asyncClose : s.asyncClose.st = .closing ∨ s.asyncClose.st = .closed
  released : ∀ r, s.released.count r = gone s r

def Phase (s : St) : Closer → Prop
  | .idle | .notify => Up s ∧ s.closePending = false
  | .done => (Up s ∧ s.closePending = true) ∨ (Down s ∧ s.closePending = false)

/-- Of a serial_t with descriptor `f`. -/
structure Inv (f : Int) (s : St) : Prop where
  fd : s.fd = f
  acquired : s.acquired = [.serial, .fd, .poller, .asyncClose]
  phase : Phase s s.closer
  uaf : s.uaf = false
  crashed : s.crashed = false

variable {onData} {s s' : St} {o : Outcome} {f : Int}

theorem serialRun_inv (h : o.Running) : Inv o.fd (serialRun o) := by
  have hs : serialRun o =
      ⟨[.serial, .fd, .poller, .asyncClose], [], o.fd, .opened, .opened, true, false, .idle, false, false, false⟩ := by
    simp [serialRun, h.malloc, h.poller, h.asyncClose, h.pollInit, Int.not_lt.mpr h.fd]
  rw [hs]
  exact ⟨rfl, rfl, ⟨⟨rfl, rfl, rfl⟩, rfl⟩, rfl, rfl⟩

theorem Up.reads_eq (hu : Up s) (t : St) : reads s t = t := by
  unfold reads
  rw [if_neg (by rw [hu.released]; simp)]

theorem Inv.upOrDown (hi : Inv f s) : Up s ∨ Down s := by
  have hp := hi.phase
  cases hc : s.closer <;> rw [hc] at hp
  · exact .inl hp.1
  · exact .inl hp.1
  · rcases hp with ⟨hu, -⟩ | ⟨hd, -⟩
    · exact .inl hu
    · exact .inr hd

theorem Inv.up_of_opened (hi : Inv f s) (h : s.poller.st = .opened ∨ s.asyncClose.st = .opened) : Up s := by
  refine hi.upOrDown.resolve_right fun hd => ?_
  rcases h with h | h
  · rcases hd.poller with h' | h' <;> rw [h'] at h <;> cases h
  · rcases hd.asyncClose with h' | h' <;> rw [h'] at h <;> cases h

theorem Phase.keep {c : Closer} (h : Phase s c) (hup : Up s → Up s') (hdown : Down s → Down s')
    (hpend : s'.closePending = s.closePending) : Phase s' c := by
  cases c with
  | idle => exact ⟨hup h.1, hpend ▸ h.2⟩
  | notify => exact ⟨hup h.1, hpend ▸ h.2⟩
  | done =>
    rcases h with ⟨hu, h1⟩ | ⟨hd, h1⟩
    · exact .inl ⟨hup hu, hpend ▸ h1⟩
    · exact .inr ⟨hdown hd, hpend ▸ h1⟩

/-! ## Steps -/

/-- on_data comes and goes. -/
theorem inData_inv (hi : Inv f s) (b : Bool) : Inv f { s with inData := b } :=
  ⟨hi.fd, hi.acquired, hi.phase.keep (fun hu => { hu with }) (fun hd => { hd with }) rfl, hi.uaf, hi.crashed⟩

theorem serialPollEv_inv (hi : Inv f s) (hu : Up s) (status : Int) (events : Nat) (available ret : Int) :
    Inv f (serialPollEv onData s status events available ret) := by
  unfold serialPollEv serialRead
  rw [hu.reads_eq]
  split
  · exact hi
  · split
    · split
      · exact hi
      · split
        · exact hi
        · split
          · exact inData_inv hi true
          · exact hi
    · exact hi

/-- Whoever calls close_handle has come to the end of the serial_close. -/
theorem closeHandle_inv (hi : Inv f s) (hu : Up s) (t : St) (ht : t = { s with closePending := false, closer := .done }) :
    Inv f (closeHandle t) := by
  have hut : Up t := by rw [ht]; exact { hu with }
  unfold closeHandle
  rw [hut.reads_eq]
  have hp : s.poller.close.st = .closing := by rw [hu.poller]; rfl
  have ha : s.asyncClose.close.st = .closing := by rw [hu.asyncClose]; rfl
  subst ht
  refine ⟨hi.fd, hi.acquired, .inr ⟨⟨.inl hp, .inl ha, fun r => ?_⟩, rfl⟩, hi.uaf, hi.crashed⟩
  simp only [hu.released, List.nil_append]
  by_cases hf : 0 < s.fd
  · cases r <;> simp [gone, hp, ha, hf]
  · cases r <;> simp [gone, hp, ha, hf]

theorem closerStep_inv (hi : Inv f s) (h : closerStep s = some s') : Inv f s' := by
  have hp := hi.phase
  unfold closerStep at h
  cases hc : s.closer with
  | idle =>
    rw [hc] at hp
    simp only [hc, hp.1.reads_eq] at h
    cases h
    exact ⟨hi.fd, hi.acquired, ⟨{ hp.1 with }, hp.2⟩, hi.uaf, hi.crashed⟩
  | notify =>
    rw [hc] at hp
    simp only [hc, hp.1.reads_eq] at h
    cases h
    exact ⟨hi.fd, hi.acquired, .inl ⟨{ hp.1 with }, rfl⟩, hi.uaf, hi.crashed⟩
  | done => simp only [hc] at h; cases h

theorem pollerClosed_inv (hi : Inv f s) (hc : s.poller.st = .closing) :
    Inv f { s with poller := s.poller.finish, released := s.released ++ [.poller] } := by
  refine ⟨hi.fd, hi.acquired, hi.phase.keep (fun hu => ?_) (fun hd => ⟨.inr rfl, hd.asyncClose, fun r => ?_⟩) rfl,
    hi.uaf, hi.crashed⟩
  · rw [hu.poller] at hc; cases hc
  · rw [count_snoc, hd.released r]
    cases r <;> simp [gone, hc]

theorem asyncCloseClosed_inv (hi : Inv f s) (hc : s.asyncClose.st = .closing) :
    Inv f { s with asyncClose := s.asyncClose.finish, released := s.released ++ [.asyncClose] } := by
  refine ⟨hi.fd, hi.acquired, hi.phase.keep (fun hu => ?_) (fun hd => ⟨hd.poller, .inr rfl, fun r => ?_⟩) rfl,
    hi.uaf, hi.crashed⟩
  · rw [hu.asyncClose] at hc; cases hc
  · rw [count_snoc, hd.released r]
    cases r <;> simp [gone, hc]

theorem step_inv (hi : Inv f s) {e : Ev} (h : step onData s e = some s') : Inv f s' := by
  unfold step at h
  rw [if_neg (by rw [hi.uaf, hi.crashed]; simp)] at h
  cases e with
  | poll status events available ret =>
    simp only at h
    split at h
    · rename_i hg
      cases h
      exact serialPollEv_inv hi (hi.up_of_opened (.inl hg.2.2)) ..
    · cases h
  | ret =>
    simp only at h
    split at h
    · cases h; exact inData_inv hi false
    · cases h
  | pollerClosed =>
    simp only at h
    split at h
    · rename_i hg
      cases h
      exact pollerClosed_inv hi hg.2
    · cases h
  | asyncCloseClosed =>
    simp only at h
    split at h
    · rename_i hg
      cases h
      exact asyncCloseClosed_inv hi hg.2
    · cases h
  | asyncClose =>
    simp only at h
    split at h
    · rename_i hg
      cases h
      have hu := hi.up_of_opened (.inr hg.2.2)
      have hc : s.closer = .done := by
        have hp := hi.phase
        cases hc : s.closer with
        | idle | notify => rw [hc] at hp; rw [hp.2] at hg; cases hg.2.1
        | done => rfl
      exact closeHandle_inv hi hu _ (by rw [← hc])
    · cases h
  | close =>
    simp only at h
    split at h
    · rename_i hc
      cases h
      have hp := hi.phase
      rw [hc] at hp
      exact closeHandle_inv hi hp.1 _ (by rw [← hp.2])
    · cases h
  | closer => exact closerStep_inv hi h

theorem reach_inv (hi : Inv f s) (hr : Reach (step onData) Free s s') : Inv f s' :=
  hr.invariant hi fun _ _ _ hi _ h => step_inv hi h

/-! ## The loop drains -/

/-- The callbacks that are still to come. -/
def left (s : St) : Nat :=
  (if s.inData = true then 1 else 0) + (if s.closePending = true then 3 else 0) +
    (if s.poller.st = .closing then 1 else 0) + if s.asyncClose.st = .closing then 1 else 0

theorem drain_step (hi : Inv f s) (hc : s.closer = .done) (hd : ¬ Drained s) :
    ∃ e s', step onData s e = some s' ∧ (Inv f s' ∧ s'.closer = .done) ∧ left s' < left s := by
  have hp := hi.phase
  rw [hc] at hp
  by_cases hin : s.inData = true
  · have h : step onData s .ret = some { s with inData := false } := by simp [step, hi.uaf, hi.crashed, hin]
    exact ⟨_, _, h, ⟨step_inv hi h, hc⟩, by simp [left, hin]⟩
  · rcases hp with ⟨hu, hpend⟩ | ⟨hdown, hpend⟩
    · have h : step onData s .asyncClose = some (closeHandle { s with closePending := false }) := by
        simp [step, hi.uaf, hi.crashed, hin, hpend, hu.asyncClose]
      have hu' : Up { s with closePending := false } := { hu with }
      refine ⟨_, _, h, ⟨step_inv hi h, ?_⟩, ?_⟩
      · rw [closeHandle, hu'.reads_eq]; exact hc
      · rw [closeHandle, hu'.reads_eq]
        simp [left, hin, hpend, hu.poller, hu.asyncClose, Handle.close]
    · by_cases hpc : s.poller.st = .closing
      · have h : step onData s .pollerClosed =
            some { s with poller := s.poller.finish, released := s.released ++ [.poller] } := by
          simp [step, hi.uaf, hi.crashed, hin, hpc]
        exact ⟨_, _, h, ⟨step_inv hi h, hc⟩, by simp [left, hpc]⟩
      · have hac : s.asyncClose.st = .closing := by
          by_cases hac : s.asyncClose.st = .closing
          · exact hac
          · exact absurd ⟨hc, hpend, by simpa using hin, hpc, hac⟩ hd
        have h : step onData s .asyncCloseClosed =
            some { s with asyncClose := s.asyncClose.finish, released := s.released ++ [.asyncClose] } := by
          simp [step, hi.uaf, hi.crashed, hin, hac]
        exact ⟨_, _, h, ⟨step_inv hi h, hc⟩, by simp [left, hac]⟩

/-- Once serial_close is through. -/
theorem drains (h : o.Running) (hr : Reach (step onData) Free (serialRun o) s) (hc : s.closer = .done) :
    ∃ es t, run (step onData) s es = some t ∧ Drained t :=
  run_until (I := fun s => Inv o.fd s ∧ s.closer = .done) left
    (fun _ hi hd => drain_step hi.1 hi.2 hd) ⟨reach_inv (serialRun_inv h) hr, hc⟩

/-! ## The release -/

theorem Inv.count_le (hi : Inv f s) (r : Res) : s.released.count r ≤ s.acquired.count r := by
  rw [hi.acquired]
  rcases hi.upOrDown with hu | hd
  · rw [hu.released]; simp
  · rw [hd.released r]
    cases r <;> simp only [gone] <;> split <;> (try split) <;> decide

theorem Inv.count_eq (hi : Inv f s) (hf : 0 < f) (hd : Drained s) (r : Res) :
    s.released.count r = s.acquired.count r := by
  have hp := hi.phase
  rw [hd.closer] at hp
  rcases hp with ⟨-, hp⟩ | ⟨hdown, -⟩
  · rw [hd.pending] at hp; cases hp
  · have hpc := hdown.poller.resolve_left hd.poller
    have hac := hdown.asyncClose.resolve_left hd.asyncClose
    rw [hi.acquired, hdown.released r]
    cases r <;> simp [gone, hpc, hac, hi.fd, hf]

theorem Inv.released (hi : Inv f s) (hf : 0 < f) : Released s := ⟨hi.uaf, hi.crashed, hi.count_le, hi.count_eq hf⟩

/-- After a serial_run that returned NULL nothing happens. -/
theorem failed_reach {acquired released : List Res} (hr : Reach (step onData) Free (failed acquired released f) s) :
    s = failed acquired released f := by
  induction hr with
  | init => rfl
  | step e _ _ h ih =>
    rw [ih] at h
    cases e <;> simp [step, failed, Handle.none, closerStep] at h

theorem failed_released {l : List Res} (hr : Reach (step onData) Free (failed l l f) s) : Released s := by
  rw [failed_reach hr]
  exact ⟨rfl, rfl, fun r => Nat.le_refl _, fun _ r => rfl⟩

theorem failed_drained (acquired released : List Res) (f : Int) : Drained (failed acquired released f) :=
  ⟨rfl, rfl, rfl, by simp [failed, Handle.none], by simp [failed, Handle.none]⟩

/-- A descriptor that stays behind. -/
theorem not_released (hd : Drained s) (h : s.released.count .fd ≠ s.acquired.count .fd) : ¬ Released s :=
  fun hr => h (hr.all hd .fd)

theorem failed_leaks {acquired released : List Res} (h : released.count .fd ≠ acquired.count .fd) (f : Int) :
    ¬ Released (failed acquired released f) := not_released (failed_drained ..) h

theorem zero_leaks (onData : Bool) : ∃ s : St, Reach (step onData) Free (serialRun ⟨true, 0, true, true, true⟩) s ∧
    Drained s ∧ s.acquired = [.serial, .fd, .poller, .asyncClose] ∧ s.released = [.serial, .poller, .asyncClose] := by
  obtain ⟨s, hr, h⟩ := reach_of_run (step onData) (serialRun ⟨true, 0, true, true, true⟩)
    (fun s => (s.closer = .done ∧ s.closePending = false ∧ s.inData = false ∧ s.poller.st ≠ .closing ∧
      s.asyncClose.st ≠ .closing) ∧ s.acquired = [.serial, .fd, .poller, .asyncClose] ∧
      s.released = [.serial, .poller, .asyncClose])
    [.close, .pollerClosed, .asyncCloseClosed] ⟨_, rfl, by decide⟩
  obtain ⟨⟨h1, h2, h3, h4, h5⟩, h⟩ := h
  exact ⟨s, hr, ⟨h1, h2, h3, h4, h5⟩, h⟩

theorem released_of_whole (h : whole o = true) (hr : Reach (step onData) Free (serialRun o) s) : Released s := by
  obtain ⟨malloc, fd, poller, asyncClose, pollInit⟩ := o
  cases malloc with
  | false => exact failed_released (l := []) (f := -1) hr
  | true =>
    by_cases hf : fd < 0
    · have hs : serialRun ⟨true, fd, poller, asyncClose, pollInit⟩ = failed [.serial] [.serial] fd := by
        simp [serialRun, hf]
      rw [hs] at hr
      exact failed_released hr
    · obtain ⟨hne, hp, ha, hi⟩ : fd ≠ 0 ∧ poller = true ∧ asyncClose = true ∧ pollInit = true := by
        simpa [whole, hf, and_assoc] using h
      exact (reach_inv (serialRun_inv ⟨rfl, Int.not_lt.mp hf, hp, ha, hi⟩) hr).released (by show 0 < fd; omega)

theorem leak_of_not_whole (onData : Bool) (h : whole o = false) :
    ∃ s, Reach (step onData) Free (serialRun o) s ∧ ¬ Released s := by
  obtain ⟨malloc, fd, poller, asyncClose, pollInit⟩ := o
  have hm : malloc = true := by
    cases malloc with
    | true => rfl
    | false => simp [whole] at h
  have hf : ¬ fd < 0 := fun hf => by simp [whole, hf] at h
  subst hm
  cases poller with
  | false =>
    have hs : serialRun ⟨true, fd, false, asyncClose, pollInit⟩ = failed [.serial, .fd] [.serial] fd := by
      simp [serialRun, hf]
    rw [hs]
    exact ⟨_, .init, failed_leaks (by decide) fd⟩
  | true =>
    cases asyncClose with
    | false =>
      have hs : serialRun ⟨true, fd, true, false, pollInit⟩ = failed [.serial, .fd, .poller] [.poller, .serial] fd := by
        simp [serialRun, hf]
      rw [hs]
      exact ⟨_, .init, failed_leaks (by decide) fd⟩
    | true =>
      cases pollInit with
      | false => exact ⟨_, .init, fun hr => by simpa [serialRun, hf] using hr.crashed⟩
      | true =>
        have h0 : fd = 0 := by simpa [whole, hf] using h
        subst h0
        obtain ⟨s, hr, hd, ha, hl⟩ := zero_leaks onData
        exact ⟨s, hr, not_released hd (by rw [ha, hl]; decide)⟩

theorem whole_iff (onData : Bool) (o : Outcome) :
    (∀ s, Reach (step onData) Free (serialRun o) s → Released s) ↔ whole o = true := by
  constructor
  · intro h
    cases hw : whole o with
    | true => rfl
    | false =>
      obtain ⟨s, hr, hs⟩ := leak_of_not_whole onData hw
      exact absurd (h s hr) hs
  · exact fun h s hr => released_of_whole h hr

/-- Descriptor 0, closed and drained; one that a failed calloc is left with; one that cannot be watched. -/
theorem leaks : (∃ s : St, Reach (step true) Free (serialRun ⟨true, 0, true, true, true⟩) s ∧ Drained s ∧ ¬ Released s) ∧
    (∃ s : St, Reach (step true) Free (serialRun ⟨true, 5, false, true, true⟩) s ∧ Drained s ∧ ¬ Released s) ∧
    (∃ s : St, Reach (step true) Free (serialRun ⟨true, 5, true, false, true⟩) s ∧ Drained s ∧ ¬ Released s) ∧
    ∃ s : St, Reach (step true) Free (serialRun ⟨true, 5, true, true, false⟩) s ∧ s.crashed = true ∧ ¬ Released s := by
  refine ⟨?_, ⟨_, .init, failed_drained .., failed_leaks (by decide) 5⟩,
    ⟨_, .init, failed_drained .., failed_leaks (by decide) 5⟩, ⟨_, .init, rfl, fun h => ?_⟩⟩
  · obtain ⟨s, hr, hd, ha, hl⟩ := zero_leaks true
    exact ⟨s, hr, hd, not_released hd (by rw [ha, hl]; decide)⟩
  · cases h.crashed

end UvWrapper.Serial.SerialLife
