/-
  UvWrapper.Serial.SerialOpt — serial_set_opt and get_baudrate (serial.c): the settings of the line
  that are built from four numbers, and the line that they stand for.

  The settings are built from zero, so what no argument sets is off. An argument that no case of
  its switch takes is passed over, and serial_set_opt returns 0 all the same.

  Proved: which line the arguments give, whatever they are (`line_newtio`), and that it is the one they say if
  and only if each of them is served (`meets_iff`). Every byte comes through if and only if there are eight
  data bits and no parity: with one, ISTRIP takes the eighth bit (`transparent_iff`).
-/

import UvWrapper.Lib.Termios
import Mathlib.Logic.Function.Basic

namespace UvWrapper.Serial.SerialOpt

open UvWrapper.Lib UvWrapper.Lib.Termios

/-! ## The settings -/

def getBaudrate : Int → Flags
  | 150 => B150
  | 200 => B200
  | 300 => B300
  | 600 => B600
  | 1200 => B1200
  | 1800 => B1800
  | 2400 => B2400
  | 4800 => B4800
  | 9600 => B9600
  | 19200 => B19200
  | 38400 => B38400
  | 57600 => B57600
  | 115200 => B115200
  | 460800 => B460800
  | _ => B115200

def dataBits (t : Termios) : Int → Termios
  | 7 => { t with cflag := t.cflag ||| CS7 }
  | 8 => { t with cflag := t.cflag ||| CS8 }
  | _ => t

def parityBits (t : Termios) : Char → Termios
  | 'O' => { t with cflag := t.cflag ||| PARENB ||| PARODD, iflag := t.iflag ||| (INPCK ||| ISTRIP) }
  | 'E' => { t with iflag := t.iflag ||| (INPCK ||| ISTRIP), cflag := (t.cflag ||| PARENB) &&& ~~~PARODD }
  | 'N' => { t with cflag := t.cflag &&& ~~~PARENB }
  | _ => t

def stopBits (t : Termios) (stopbits : Int) : Termios :=
  if 1 = stopbits then { t with cflag := t.cflag &&& ~~~CSTOPB }
  else if 2 = stopbits then { t with cflag := t.cflag ||| CSTOPB }
  else t

def newtio (speed databits : Int) (parity : Char) (stopbits : Int) : Termios :=
  let t := { zero with cflag := zero.cflag ||| (CLOCAL ||| CREAD) }
  let t := { t with cflag := t.cflag &&& ~~~CSIZE }
  let t := dataBits t databits
  let t := parityBits t parity
  let rate := getBaudrate speed
  let t := cfsetispeed t rate
  let t := cfsetospeed t rate
  let t := stopBits t stopbits
  { t with cc := Function.update (Function.update t.cc VTIME 0) VMIN 1 }

/-! ## The line -/

/-- The speeds that get_baudrate has a case for. -/
def served : List Int := [150, 200, 300, 600, 1200, 1800, 2400, 4800, 9600, 19200, 38400, 57600, 115200, 460800]

/-- What the letter stands for, if it stands for something. -/
def parityOf : Char → Option Parity
  | 'O' => some .odd
  | 'E' => some .even
  | 'N' => some .none
  | _ => none

/-- The line has what was asked for. -/
structure Meets (l : Line) (speed databits : Int) (parity : Char) (stopbits : Int) : Prop where
  bauds : l.bauds.map Int.ofNat = some speed
  databits : (l.databits : Int) = databits
  parity : parityOf parity = some l.parity
  stopbits : (l.stopbits : Int) = stopbits

variable {t : Termios} {m : Flags} {speed databits stopbits : Int} {parity : Char}

theorem getBaudrate_rate (speed : Int) :
    (rate (getBaudrate speed)).map Int.ofNat = some (if speed ∈ served then speed else 115200) := by
  by_cases h : speed ∈ served
  · rw [if_pos h]
    simp only [served, List.mem_cons, List.not_mem_nil, or_false] at h
    rcases h with rfl | rfl | rfl | rfl | rfl | rfl | rfl | rfl | rfl | rfl | rfl | rfl | rfl | rfl <;> decide
  · rw [if_neg h]
    simp only [served, List.mem_cons, List.not_mem_nil, or_false, not_or] at h
    have : getBaudrate speed = B115200 := by
      unfold getBaudrate
      split <;> first | rfl | omega
    rw [this]
    decide

theorem getBaudrate_field (speed : Int) : getBaudrate speed &&& CBAUD = getBaudrate speed ∧ getBaudrate speed ≠ 0 := by
  unfold getBaudrate
  split <;> decide

/-- A speed has no bit outside its field. -/
theorem getBaudrate_apart (h : CBAUD &&& m = 0) (speed : Int) : getBaudrate speed &&& m = 0 := by
  rw [← (getBaudrate_field speed).1, BitVec.and_assoc, h]
  simp

/-! ## Each setting in its own field -/

theorem stopBits_apart (h : CSTOPB &&& m = 0) (h' : ~~~CSTOPB &&& m = m) (stopbits : Int) :
    (stopBits t stopbits).cflag &&& m = t.cflag &&& m := by
  unfold stopBits
  split
  · exact get_clear_apart h'
  · split
    · exact get_set_apart h
    · rfl

theorem speed_apart (h : CBAUD &&& m = 0) (h' : ~~~CBAUD &&& m = m) (speed : Int) :
    (cfsetospeed (cfsetispeed t (getBaudrate speed)) (getBaudrate speed)).cflag &&& m = t.cflag &&& m := by
  have hr := getBaudrate_apart h speed
  unfold cfsetospeed cfsetispeed
  rw [if_neg (getBaudrate_field speed).2]
  rw [get_set_apart hr, get_clear_apart h', get_set_apart hr, get_clear_apart h']

theorem parityBits_apart (h : PARENB &&& m = 0 ∧ PARODD &&& m = 0) (h' : ~~~PARENB &&& m = m ∧ ~~~PARODD &&& m = m)
    (parity : Char) : (parityBits t parity).cflag &&& m = t.cflag &&& m := by
  unfold parityBits
  split
  · rw [get_set_apart h.2, get_set_apart h.1]
  · rw [get_clear_apart h'.2, get_set_apart h.1]
  · rw [get_clear_apart h'.1]
  · rfl

theorem dataBits_apart (h : CS8 &&& m = 0) (databits : Int) : (dataBits t databits).cflag &&& m = t.cflag &&& m := by
  have h7 : CS7 &&& m = 0 := by
    have : CS7 = CS7 &&& CS8 := by decide
    rw [this, BitVec.and_assoc, h]
    simp
  unfold dataBits
  split
  · exact get_set_apart h7
  · exact get_set_apart h
  · rfl

def cleared : Termios := { zero with cflag := (zero.cflag ||| (CLOCAL ||| CREAD)) &&& ~~~CSIZE }

theorem newtio_cflag (speed databits : Int) (parity : Char) (stopbits : Int) :
    (newtio speed databits parity stopbits).cflag = (stopBits (cfsetospeed (cfsetispeed
      (parityBits (dataBits cleared databits) parity) (getBaudrate speed)) (getBaudrate speed)) stopbits).cflag := rfl

theorem speed_field (speed databits : Int) (parity : Char) (stopbits : Int) :
    (newtio speed databits parity stopbits).cflag &&& CBAUD = getBaudrate speed := by
  rw [newtio_cflag, stopBits_apart (by decide) (by decide)]
  exact get_set (getBaudrate_field speed).1 (get_clear (by decide))

theorem size_field (speed databits : Int) (parity : Char) (stopbits : Int) :
    (newtio speed databits parity stopbits).cflag &&& CSIZE =
      if databits = 7 then CS7 else if databits = 8 then CS8 else CS5 := by
  rw [newtio_cflag, stopBits_apart (by decide) (by decide), speed_apart (by decide) (by decide),
    parityBits_apart (by decide) (by decide)]
  unfold dataBits
  split
  · exact get_set (by decide) (by decide)
  · exact get_set (by decide) (by decide)
  · rw [if_neg (by assumption), if_neg (by assumption)]
    decide

theorem stop_field (speed databits : Int) (parity : Char) (stopbits : Int) :
    (newtio speed databits parity stopbits).cflag &&& CSTOPB = if stopbits = 2 then CSTOPB else 0 := by
  have h0 : (cfsetospeed (cfsetispeed (parityBits (dataBits cleared databits) parity) (getBaudrate speed))
      (getBaudrate speed)).cflag &&& CSTOPB = 0 := by
    rw [speed_apart (by decide) (by decide), parityBits_apart (by decide) (by decide), dataBits_apart (by decide)]
    decide
  rw [newtio_cflag]
  unfold stopBits
  split
  · rw [if_neg (by omega)]
    exact get_clear (by decide)
  · split
    · rw [if_pos (by omega)]
      exact get_set (by decide) h0
    · rw [if_neg (by omega), h0]

theorem parity_field (speed databits : Int) (parity : Char) (stopbits : Int) :
    (if (newtio speed databits parity stopbits).cflag &&& PARENB = 0 then Parity.none
      else if (newtio speed databits parity stopbits).cflag &&& PARODD = 0 then .even else .odd) =
    (parityOf parity).getD .none := by
  have h0 : ∀ m, CS8 &&& m = 0 → cleared.cflag &&& m = 0 → (dataBits cleared databits).cflag &&& m = 0 :=
    fun m h1 h2 => by rw [dataBits_apart h1, h2]
  have he := h0 PARENB (by decide) (by decide)
  have ho := h0 PARODD (by decide) (by decide)
  rw [newtio_cflag, stopBits_apart (by decide) (by decide), speed_apart (by decide) (by decide),
    stopBits_apart (by decide) (by decide), speed_apart (by decide) (by decide)]
  unfold parityBits parityOf
  split
  · have h1 : ((dataBits cleared databits).cflag ||| PARENB ||| PARODD) &&& PARENB = PARENB := by
      rw [get_set_apart (by decide)]
      exact get_set (by decide) he
    have h2 : ((dataBits cleared databits).cflag ||| PARENB ||| PARODD) &&& PARODD = PARODD := by
      refine get_set (by decide) ?_
      rw [get_set_apart (by decide), ho]
    simp only [h1, h2]
    decide
  · have h1 : (((dataBits cleared databits).cflag ||| PARENB) &&& ~~~PARODD) &&& PARENB = PARENB := by
      rw [get_clear_apart (by decide)]
      exact get_set (by decide) he
    have h2 : (((dataBits cleared databits).cflag ||| PARENB) &&& ~~~PARODD) &&& PARODD = 0 := get_clear (by decide)
    simp only [h1, h2]
    decide
  · have h1 : ((dataBits cleared databits).cflag &&& ~~~PARENB) &&& PARENB = 0 := get_clear (by decide)
    simp only [h1]
    rfl
  · simp only [he]
    rfl

/-- Parity is checked, and the eighth bit taken. -/
theorem strip_field (speed databits : Int) (parity : Char) (stopbits : Int) :
    (newtio speed databits parity stopbits).iflag &&& ISTRIP = if parity = 'O' ∨ parity = 'E' then ISTRIP else 0 := by
  have hi : (newtio speed databits parity stopbits).iflag &&& ISTRIP =
      (parityBits (dataBits cleared databits) parity).iflag &&& ISTRIP := by
    have h1 : ∀ t : Termios, (stopBits t stopbits).iflag = t.iflag := fun t => by
      unfold stopBits
      split
      · rfl
      · split <;> rfl
    show (stopBits _ stopbits).iflag &&& ISTRIP = _
    rw [h1]
    unfold cfsetospeed cfsetispeed
    rw [if_neg (getBaudrate_field speed).2]
    exact get_clear_apart (by decide)
  have h0 : (dataBits cleared databits).iflag = 0 := by
    unfold dataBits
    split <;> rfl
  rw [hi]
  unfold parityBits
  split
  · show ((dataBits cleared databits).iflag ||| (INPCK ||| ISTRIP)) &&& ISTRIP = _
    rw [h0, if_pos (by simp)]
    decide
  · show ((dataBits cleared databits).iflag ||| (INPCK ||| ISTRIP)) &&& ISTRIP = _
    rw [h0, if_pos (by simp)]
    decide
  · rw [h0]; decide
  · rename_i h1 h2 h3
    rw [if_neg (by rintro (h | h); exact h1 h; exact h2 h), h0]
    decide

theorem line_newtio (speed databits : Int) (parity : Char) (stopbits : Int) :
    line (newtio speed databits parity stopbits) =
      { bauds := rate (getBaudrate speed)
        databits := if databits = 7 then 7 else if databits = 8 then 8 else 5
        parity := (parityOf parity).getD .none
        stopbits := if stopbits = 2 then 2 else 1 } := by
  have hsize : size (newtio speed databits parity stopbits).cflag =
      if databits = 7 then 7 else if databits = 8 then 8 else 5 := by
    unfold size
    rw [size_field]
    split
    · decide
    · split <;> decide
  have hstop : (if (newtio speed databits parity stopbits).cflag &&& CSTOPB = 0 then 1 else 2) =
      if stopbits = 2 then 2 else 1 := by
    rw [stop_field]
    split <;> decide
  unfold line
  rw [speed_field, hsize, hstop, parity_field]

/-! ## What was asked for -/

theorem parityOf_isSome (parity : Char) :
    (∃ p, parityOf parity = some p) ↔ parity = 'O' ∨ parity = 'E' ∨ parity = 'N' := by
  unfold parityOf
  split <;> simp_all

theorem meets_iff (speed databits : Int) (parity : Char) (stopbits : Int) :
    Meets (line (newtio speed databits parity stopbits)) speed databits parity stopbits ↔
      speed ∈ served ∧ (databits = 5 ∨ databits = 7 ∨ databits = 8) ∧ (parity = 'O' ∨ parity = 'E' ∨ parity = 'N') ∧
        (stopbits = 1 ∨ stopbits = 2) := by
  rw [line_newtio]
  constructor
  · intro ⟨h1, h2, h3, h4⟩
    refine ⟨?_, ?_, (parityOf_isSome parity).mp ⟨_, h3⟩, ?_⟩
    · rw [getBaudrate_rate, Option.some.injEq] at h1
      by_contra hs
      rw [if_neg hs] at h1
      exact hs (h1 ▸ by decide)
    · simp only at h2
      grind
    · simp only at h4
      grind
  · intro ⟨h1, h2, h3, h4⟩
    obtain ⟨p, hp⟩ := (parityOf_isSome parity).mpr h3
    refine ⟨?_, ?_, by rw [hp]; rfl, ?_⟩
    · rw [getBaudrate_rate, if_pos h1]
    · simp only
      rcases h2 with rfl | rfl | rfl <;> rfl
    · simp only
      rcases h4 with rfl | rfl <;> rfl

/-- With both ends set by the same call. -/
theorem transparent_iff (speed databits : Int) (parity : Char) (stopbits : Int) :
    (∀ b, receive (newtio speed databits parity stopbits) b = b) ↔ databits = 8 ∧ parity ≠ 'O' ∧ parity ≠ 'E' := by
  rw [receive_all_iff, line_newtio, strip_field]
  have hstrip : ISTRIP ≠ 0 := by decide
  constructor
  · intro ⟨h8, hs⟩
    refine ⟨?_, ?_⟩
    · simp only at h8
      grind
    · by_contra hp
      rw [if_pos (by grind)] at hs
      exact hstrip hs
  · intro ⟨h8, hO, hE⟩
    subst h8
    exact ⟨rfl, if_neg (by grind)⟩

end UvWrapper.Serial.SerialOpt
