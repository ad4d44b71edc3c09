/-
  UvWrapper.Serial.SerialRead — the bytes of an open serial_t (serial.c): from the other end of the
  line through the driver's queue to on_data.

      the other end --line--> queue --read: handle->buf--> on_data
                                └── tcflush (serial_set_opt)

  The device has the settings of a serial_set_opt to begin with, so that the driver passes bytes on as
  they come (`Termios.receive`). A byte comes in under the settings of that moment. Poll events come on the
  loop's thread; FIONREAD may fail, which leaves count as it was, and read may return less than there is, or
  fail. serial_set_opt may run on any thread, so that bytes come in, and are read, between its tcflush and its
  tcsetattr; several of them may be under way at once. What the driver has no room for is not in `sent`.

  Proved: in every run each byte that came in was handed to on_data, was thrown away at a named place or
  is still to be read, in the order it came, and polls that read up to a limit of the driver's (a tty gives
  at most 4095 bytes at a time) leave none (`accounted`).
  Once settings are in place and nothing is left from before, on_data gets what the other end sends, in every
  run, if and only if they are eight data bits without parity (`stream_iff`).
-/

import UvWrapper.Lib.Trace
import UvWrapper.Serial.SerialOpt

namespace UvWrapper.Serial.SerialRead

open UvWrapper.Lib UvWrapper.Lib.Termios UvWrapper.Lib.Trace UvWrapper.Serial.SerialOpt

def MAX_BUF_LEN : Nat := 4096
def UV_READABLE : Nat := 1

/-! ## State -/

inductive Part where
  | handed (bytes : List UInt8)
  /-- Read with no on_data. -/
  | unheard (bytes : List UInt8)
  | flushed (bytes : List UInt8)
  deriving DecidableEq, Repr

namespace Part

def bytes : Part → List UInt8
  | handed b | unheard b | flushed b => b

def toData : Part → List UInt8
  | handed b => b
  | unheard _ | flushed _ => []

end Part

structure St where
  onData : Bool
  settings : Termios
  /-- What the calls of serial_set_opt that have flushed are about to set. -/
  pending : List Termios
  queue : List UInt8
  parts : List Part
  /-- What the other end sent, and what came of it at this end. -/
  sent : List UInt8
  came : List UInt8

/-- After serial_run and a serial_set_opt, with nothing left from before. -/
def opened (onData : Bool) (speed databits : Int) (parity : Char) (stopbits : Int) : St :=
  ⟨onData, newtio speed databits parity stopbits, [], [], [], [], []⟩

/-! ## The code -/

/-- `fionread`: what it leaves in count when it fails. -/
def serialBytesAvailble (s : St) (fionread : Option Int) : Int :=
  match fionread with
  | none => s.queue.length
  | some count => count

/-- `ret`: what read returns, -1 as `none`. -/
def serialRead (s : St) (fionread : Option Int) (ret : Option Nat) : St :=
  let size := serialBytesAvailble s fionread
  if size ≤ 0 then s
  else match ret with
    | none => s
    | some n =>
      let buf := s.queue.take n
      let s := { s with queue := s.queue.drop n }
      if s.onData then { s with parts := s.parts ++ [.handed buf] } else { s with parts := s.parts ++ [.unheard buf] }

def serialPollEv (s : St) (status : Int) (events : Nat) (fionread : Option Int) (ret : Option Nat) : St :=
  if status < 0 then s
  else if events &&& UV_READABLE ≠ 0 then serialRead s fionread ret
  else s

/-- serial_set_opt up to its tcflush. `got`: tcgetattr returned 0. -/
def flush (s : St) (got : Bool) (speed databits : Int) (parity : Char) (stopbits : Int) : St :=
  if !got then s
  else { s with pending := s.pending ++ [newtio speed databits parity stopbits]
                queue := [], parts := s.parts ++ [.flushed s.queue] }

inductive Event where
  | arrives (b : UInt8)
  | poll (status : Int) (events : Nat) (fionread : Option Int) (ret : Option Nat)
  | setOpt (got : Bool) (speed databits : Int) (parity : Char) (stopbits : Int)
  /-- The tcsetattr of one of the calls under way. -/
  | tcsetattr (i : Nat) (ok : Bool)
  deriving DecidableEq, Repr

/-- read gives no more than it was asked for, and no more than there is. -/
def step (s : St) : Event → Option St
  | .arrives b =>
    some { s with queue := s.queue ++ [receive s.settings b], sent := s.sent ++ [b]
                  came := s.came ++ [receive s.settings b] }
  | .poll status events fionread ret =>
    if ∀ n ∈ ret, n ≤ MAX_BUF_LEN ∧ n ≤ s.queue.length then some (serialPollEv s status events fionread ret) else none
  | .setOpt got speed databits parity stopbits => some (flush s got speed databits parity stopbits)
  | .tcsetattr i ok =>
    match s.pending[i]? with
    | some t => some { s with settings := if ok then t else s.settings, pending := s.pending.eraseIdx i }
    | none => none

def St.data (s : St) : List UInt8 := s.parts.flatMap Part.toData

/-- A call of serial_set_opt that gets as far as tcflush or tcsetattr. -/
def Event.sets : Event → Bool
  | .setOpt got _ _ _ _ => got
  | .tcsetattr _ ok => ok
  | .arrives _ | .poll _ _ _ _ => false

variable {s s' : St} {e : Event} {fionread : Option Int} {ret : Option Nat} {b : Bool} {t : Termios}
  {speed databits stopbits : Int} {parity : Char}

/-! ## What a step does -/

def St.part (s : St) (bytes : List UInt8) : Part := if s.onData then .handed bytes else .unheard bytes

/-- The four things that a step does; the settings are the business of `sets` alone. -/
theorem step_cases (h : step s e = some s') :
    (∃ x, e = .arrives x ∧ s' = { s with queue := s.queue ++ [receive s.settings x], sent := s.sent ++ [x],
                                         came := s.came ++ [receive s.settings x] }) ∨
    (s' = s) ∨
    (∃ n, n ≤ MAX_BUF_LEN ∧ n ≤ s.queue.length ∧
      s' = { s with queue := s.queue.drop n, parts := s.parts ++ [s.part (s.queue.take n)] }) ∨
    (e.sets = true ∧ ∃ p, s' = { s with pending := p, queue := [], parts := s.parts ++ [.flushed s.queue] }) ∨
    (∃ p t, (e.sets = false → t = s.settings) ∧ s' = { s with pending := p, settings := t }) := by
  cases e with
  | arrives x => exact .inl ⟨x, rfl, by simpa [step] using h.symm⟩
  | poll status events fionread ret =>
    simp only [step] at h
    split at h
    · rename_i hle
      obtain rfl := (Option.some.inj h).symm
      unfold serialPollEv serialRead
      split
      · exact .inr (.inl rfl)
      split
      · dsimp only
        split
        · exact .inr (.inl rfl)
        split
        · exact .inr (.inl rfl)
        · rename_i n
          refine .inr (.inr (.inl ⟨n, (hle n rfl).1, (hle n rfl).2, ?_⟩))
          unfold St.part
          split <;> rfl
      · exact .inr (.inl rfl)
    · cases h
  | setOpt got speed databits parity stopbits =>
    obtain rfl := Option.some.inj h
    unfold flush
    split
    · exact .inr (.inl rfl)
    · exact .inr (.inr (.inr (.inl ⟨by simp_all [Event.sets], _, rfl⟩)))
  | tcsetattr i ok =>
    simp only [step] at h
    split at h
    · obtain rfl := (Option.some.inj h).symm
      refine .inr (.inr (.inr (.inr ⟨_, _, fun ho => ?_, rfl⟩)))
      have : ok = false := ho
      rw [if_neg (by simp [this])]
    · cases h

/-! ## Every byte is accounted for -/

def Fits (s : St) : Prop := ∀ bytes, .handed bytes ∈ s.parts → bytes.length ≤ MAX_BUF_LEN

structure Accounted (s : St) : Prop where
  came : s.parts.flatMap Part.bytes ++ s.queue = s.came
  fits : Fits s

theorem part_bytes (s : St) (bytes : List UInt8) : (s.part bytes).bytes = bytes := by
  unfold St.part
  split <;> rfl

theorem step_accounted (hi : Accounted s) (h : step s e = some s') : Accounted s' := by
  obtain ⟨hc, hf⟩ := hi
  obtain ⟨x, -, rfl⟩ | rfl | ⟨n, hn, -, rfl⟩ | ⟨-, p, rfl⟩ | ⟨p, t, -, rfl⟩ := step_cases h
  · refine ⟨?_, hf⟩
    show s.parts.flatMap Part.bytes ++ (s.queue ++ [_]) = s.came ++ [_]
    rw [← List.append_assoc, hc]
  · exact ⟨hc, hf⟩
  · refine ⟨?_, ?_⟩
    · show (s.parts ++ [s.part (s.queue.take n)]).flatMap Part.bytes ++ s.queue.drop n = s.came
      rw [List.flatMap_append, List.flatMap_singleton, part_bytes, List.append_assoc, List.take_append_drop, hc]
    · intro bytes hb
      rcases List.mem_append.mp hb with hb | hb
      · exact hf bytes hb
      · have hbuf : bytes = s.queue.take n := by
          have := congrArg Part.bytes (List.mem_singleton.mp hb)
          rwa [part_bytes] at this
        rw [hbuf, List.length_take]
        omega
  · refine ⟨?_, ?_⟩
    · show (s.parts ++ [Part.flushed s.queue]).flatMap Part.bytes ++ [] = s.came
      rw [List.flatMap_append, List.flatMap_singleton, List.append_nil]
      exact hc
    · intro bytes hb
      rcases List.mem_append.mp hb with hb | hb
      · exact hf bytes hb
      · cases List.mem_singleton.mp hb
  · exact ⟨hc, hf⟩

theorem reach_accounted (h : Reach step Free (opened b speed databits parity stopbits) s) : Accounted s :=
  h.invariant ⟨rfl, fun _ hb => absurd hb List.not_mem_nil⟩ fun _ _ _ hi _ he => step_accounted hi he

/-- k polls that find the descriptor readable, with nothing coming in between, read up to `r` bytes each. -/
def drain (r : Nat) : Nat → St → St
  | 0, s => s
  | k + 1, s => drain r k (serialPollEv s 0 UV_READABLE none (some (min r s.queue.length)))

variable {r : Nat}

theorem drain_came (k : Nat) (s : St) : (drain r k s).came = s.came := by
  induction k generalizing s with
  | zero => rfl
  | succ k ih =>
    rw [drain, ih]
    unfold serialPollEv serialRead
    simp only [UV_READABLE]
    repeat' split
    all_goals rfl

theorem drain_reach (hr : r ≤ MAX_BUF_LEN) (k : Nat)
    (h : Reach step Free (opened b speed databits parity stopbits) s) :
    Reach step Free (opened b speed databits parity stopbits) (drain r k s) := by
  induction k generalizing s with
  | zero => exact h
  | succ k ih =>
    refine ih (.step (.poll 0 UV_READABLE none (some (min r s.queue.length))) h trivial ?_)
    refine if_pos fun n hn => ?_
    obtain rfl := Option.mem_some.mp hn
    omega

theorem drain_queue (k : Nat) (s : St) (hk : s.queue.length ≤ r * k) : (drain r k s).queue = [] := by
  induction k generalizing s with
  | zero => exact List.eq_nil_of_length_eq_zero (Nat.le_zero.mp hk)
  | succ k ih =>
    refine ih _ ?_
    have hdrop : (s.queue.drop (min r s.queue.length)).length ≤ r * k := by
      rw [List.length_drop]
      rw [Nat.mul_succ] at hk
      omega
    unfold serialPollEv serialRead
    simp only [serialBytesAvailble]
    rw [if_neg (by decide), if_pos (by decide)]
    split
    · omega
    · split <;> exact hdrop

theorem accounted (onData : Bool) (speed databits : Int) (parity : Char) (stopbits : Int) (s : St)
    (h : Reach step Free (opened onData speed databits parity stopbits) s) :
    s.parts.flatMap Part.bytes ++ s.queue = s.came ∧ Fits s ∧
      ∀ r k, r ≤ MAX_BUF_LEN → s.queue.length ≤ r * k → (drain r k s).parts.flatMap Part.bytes = s.came := by
  refine ⟨(reach_accounted h).came, (reach_accounted h).fits, fun r k hr hk => ?_⟩
  have hc := (reach_accounted (drain_reach hr k h)).came
  rwa [drain_queue k s hk, List.append_nil, drain_came] at hc

/-- One byte is read, the second is flushed. -/
def traffic : List Event := [.arrives 65, .poll 0 UV_READABLE none (some 1), .arrives 66, .setOpt true 9600 8 'N' 1]

theorem accounted_traffic :
    ∃ s, Reach step Free (opened true 9600 8 'N' 1) s ∧ s.parts = [.handed [65], .flushed [66]] ∧
      s.parts.flatMap Part.bytes ++ s.queue = s.came ∧ Fits s ∧
      ∀ r k, r ≤ MAX_BUF_LEN → s.queue.length ≤ r * k → (drain r k s).parts.flatMap Part.bytes = s.came := by
  obtain ⟨s, hr, hp⟩ := reach_of_run step (opened true 9600 8 'N' 1)
    (fun s => s.parts = [.handed [65], .flushed [66]]) traffic ⟨_, rfl, by decide⟩
  exact ⟨s, hr, hp, accounted true 9600 8 'N' 1 s hr⟩

/-! ## Once the settings are in place -/

/-- What serial_set_opt leaves behind when nothing came in meanwhile. -/
def configured (speed databits : Int) (parity : Char) (stopbits : Int) : St :=
  opened true speed databits parity stopbits

/-- No serial_set_opt gets as far as the line. -/
def Steady : St → Event → Prop := fun _ e => e.sets = false

structure Streams (t : Termios) (s : St) : Prop where
  onData : s.onData = true
  settings : s.settings = t
  data : s.data ++ s.queue = s.sent.map (receive t)

theorem step_streams (hi : Streams t s) (he : Steady s e) (h : step s e = some s') : Streams t s' := by
  obtain ⟨ho, hs, hd⟩ := hi
  obtain ⟨x, -, rfl⟩ | rfl | ⟨n, -, -, rfl⟩ | ⟨hset, -⟩ | ⟨p, u, hu, rfl⟩ := step_cases h
  · refine ⟨ho, hs, ?_⟩
    show s.data ++ (s.queue ++ [receive s.settings x]) = (s.sent ++ [x]).map (receive t)
    rw [← List.append_assoc, hd, List.map_append, hs]
    rfl
  · exact ⟨ho, hs, hd⟩
  · refine ⟨ho, hs, ?_⟩
    show (s.parts ++ [s.part (s.queue.take n)]).flatMap Part.toData ++ s.queue.drop n = _
    have hp : s.part (s.queue.take n) = .handed (s.queue.take n) := if_pos ho
    rw [hp, List.flatMap_append, List.flatMap_singleton, List.append_assoc]
    show s.data ++ (s.queue.take n ++ s.queue.drop n) = _
    rw [List.take_append_drop, hd]
  · rw [he] at hset
    cases hset
  · exact ⟨ho, (hu he).trans hs, hd⟩

theorem reach_streams (h : Reach step Steady (configured speed databits parity stopbits) s) :
    Streams (newtio speed databits parity stopbits) s :=
  h.invariant ⟨rfl, rfl, rfl⟩ fun _ _ _ hi he hs => step_streams hi he hs

/-- One byte comes in and is read. -/
theorem reads_one (speed databits : Int) (parity : Char) (stopbits : Int) (x : UInt8) :
    ∃ s, Reach step Steady (configured speed databits parity stopbits) s ∧
      s.data = [receive (newtio speed databits parity stopbits) x] ∧ s.sent = [x] := by
  generalize ht : newtio speed databits parity stopbits = t
  let come : St := ⟨true, t, [], [receive t x], [], [x], [receive t x]⟩
  have h1 : Reach step Steady (configured speed databits parity stopbits) come :=
    .step (.arrives x) .init rfl (by simp [step, configured, opened, ht, come])
  have h2 : step come (.poll 0 UV_READABLE none (some 1)) =
      some { come with queue := [], parts := [.handed [receive t x]] } := by
    have hle : ∀ n ∈ some 1, n ≤ MAX_BUF_LEN ∧ n ≤ come.queue.length := by
      intro n hn
      obtain rfl := Option.mem_some.mp hn
      exact ⟨by decide, Nat.le_refl 1⟩
    simp only [step]
    rw [if_pos hle]
    rfl
  exact ⟨_, .step (.poll 0 UV_READABLE none (some 1)) h1 rfl h2, rfl, rfl⟩

/-- on_data has got what was sent, up to what is still to be read. -/
theorem stream_iff (speed databits : Int) (parity : Char) (stopbits : Int) :
    (∀ s, Reach step Steady (configured speed databits parity stopbits) s → s.data ++ s.queue = s.sent) ↔
      databits = 8 ∧ parity ≠ 'O' ∧ parity ≠ 'E' := by
  rw [← transparent_iff speed databits parity stopbits]
  constructor
  · intro h x
    obtain ⟨s, hr, hd, hs⟩ := reads_one speed databits parity stopbits x
    have := h s hr
    rw [hd, hs] at this
    exact (List.cons.inj this).1
  · intro h s hr
    rw [(reach_streams hr).data, List.map_congr_left fun x _ => h x, List.map_id']

end UvWrapper.Serial.SerialRead
