/-
  UvWrapper.Lib.Termios — the settings of a serial line as termios(3) has them on Linux: flag words
  of bits and of fields under a mask, the line that they stand for, and what the driver makes of a
  byte that comes in.

  Speeds are codes under CBAUD in c_cflag (`rate`). With c_lflag zero the driver passes bytes on as
  they come, but for ISTRIP, which clears the eighth bit; a line of n data bits carries the lowest
  n (`receive`). Both ends of the line have the same settings, so that no parity error comes up.

  - `get_set`, `get_set_apart`, `get_clear`, `get_clear_apart`: a field after bits were set or cleared.
  - `receive_all_iff`: all bytes come through if and only if the line has eight data bits and strips none.
-/

import Mathlib.Algebra.Group.Nat.Defs

namespace UvWrapper.Lib

abbrev Flags := BitVec 32

structure Termios where
  iflag : Flags
  oflag : Flags
  cflag : Flags
  lflag : Flags
  cc : Nat → UInt8
  ispeed : Flags
  ospeed : Flags

namespace Termios

def CSIZE : Flags := 0o60
def CS5 : Flags := 0
def CS6 : Flags := 0o20
def CS7 : Flags := 0o40
def CS8 : Flags := 0o60
def CSTOPB : Flags := 0o100
def CREAD : Flags := 0o200
def PARENB : Flags := 0o400
def PARODD : Flags := 0o1000
def CLOCAL : Flags := 0o4000
def CBAUD : Flags := 0o10017
def INPCK : Flags := 0o20
def ISTRIP : Flags := 0o40
def IBAUD0 : Flags := 0o20000000000

def B150 : Flags := 0o5
def B200 : Flags := 0o6
def B300 : Flags := 0o7
def B600 : Flags := 0o10
def B1200 : Flags := 0o11
def B1800 : Flags := 0o12
def B2400 : Flags := 0o13
def B4800 : Flags := 0o14
def B9600 : Flags := 0o15
def B19200 : Flags := 0o16
def B38400 : Flags := 0o17
def B57600 : Flags := 0o10001
def B115200 : Flags := 0o10002
def B460800 : Flags := 0o10004

def VTIME : Nat := 5
def VMIN : Nat := 6

def zero : Termios := ⟨0, 0, 0, 0, fun _ => 0, 0, 0⟩

/-! ## Speeds -/

/-- The rates with a code of their own below CBAUDEX, by code. -/
def rates : List Nat :=
  [0, 50, 75, 110, 134, 150, 200, 300, 600, 1200, 1800, 2400, 4800, 9600, 19200, 38400]

/-- The rates above it, from its code + 1. -/
def extended : List Nat := [57600, 115200, 230400, 460800]

def rate (speed : Flags) : Option Nat :=
  if speed.toNat < 0o10000 then rates[speed.toNat]?
  else if speed.toNat = 0o10000 then none
  else extended[speed.toNat - 0o10001]?

def cfsetospeed (t : Termios) (speed : Flags) : Termios :=
  { t with cflag := t.cflag &&& ~~~CBAUD ||| speed, ospeed := speed }

/-- The input speed, which is the line's unless it is 0. -/
def cfsetispeed (t : Termios) (speed : Flags) : Termios :=
  if speed = 0 then { t with iflag := t.iflag ||| IBAUD0, ispeed := speed }
  else { t with iflag := t.iflag &&& ~~~IBAUD0, cflag := t.cflag &&& ~~~CBAUD ||| speed, ispeed := speed }

/-! ## The line -/

inductive Parity where
  | none
  | even
  | odd
  deriving DecidableEq, Repr

structure Line where
  bauds : Option Nat
  databits : Nat
  parity : Parity
  stopbits : Nat
  deriving DecidableEq, Repr

def size (c : Flags) : Nat :=
  if c &&& CSIZE = CS5 then 5 else if c &&& CSIZE = CS6 then 6 else if c &&& CSIZE = CS7 then 7 else 8

def line (t : Termios) : Line where
  bauds := rate (t.cflag &&& CBAUD)
  databits := size t.cflag
  parity := if t.cflag &&& PARENB = 0 then .none else if t.cflag &&& PARODD = 0 then .even else .odd
  stopbits := if t.cflag &&& CSTOPB = 0 then 1 else 2

/-! ## Bits and fields -/

variable {c a m v : Flags}

theorem get_set (h : a &&& m = v) (h0 : c &&& m = 0) : (c ||| a) &&& m = v := by
  simp [BitVec.and_or_distrib_right, h, h0]

theorem get_set_apart (h : a &&& m = 0) : (c ||| a) &&& m = c &&& m := by
  simp [BitVec.and_or_distrib_right, h]

theorem get_clear (h : ~~~a &&& m = 0) : (c &&& ~~~a) &&& m = 0 := by
  simp [BitVec.and_assoc, h]

theorem get_clear_apart (h : ~~~a &&& m = m) : (c &&& ~~~a) &&& m = c &&& m := by
  rw [BitVec.and_assoc, h]

/-! ## Bytes that come in -/

variable {t : Termios}

/-- What read(2) gets for a byte that the other end sends. -/
def receive (t : Termios) (b : UInt8) : UInt8 :=
  let b := UInt8.ofNat (b.toNat % 2 ^ (line t).databits)
  if t.iflag &&& ISTRIP = 0 then b else UInt8.ofNat (b.toNat % 128)

theorem size_le (c : Flags) : size c ≤ 8 := by
  unfold size
  repeat' split
  all_goals omega

theorem receive_all_iff : (∀ b, receive t b = b) ↔ (line t).databits = 8 ∧ t.iflag &&& ISTRIP = 0 := by
  constructor
  · intro h
    -- the byte with all bits set
    have h255 := h 255
    have hle : (line t).databits ≤ 8 := size_le t.cflag
    unfold receive at h255
    generalize (line t).databits = n at hle h255
    by_cases hi : t.iflag &&& ISTRIP = 0
    · rw [if_pos hi] at h255
      refine ⟨?_, hi⟩
      have : n = 0 ∨ n = 1 ∨ n = 2 ∨ n = 3 ∨ n = 4 ∨ n = 5 ∨ n = 6 ∨ n = 7 ∨ n = 8 := by omega
      rcases this with rfl | rfl | rfl | rfl | rfl | rfl | rfl | rfl | rfl <;> first | rfl | exact absurd h255 (by decide)
    · rw [if_neg hi] at h255
      have : n = 0 ∨ n = 1 ∨ n = 2 ∨ n = 3 ∨ n = 4 ∨ n = 5 ∨ n = 6 ∨ n = 7 ∨ n = 8 := by omega
      rcases this with rfl | rfl | rfl | rfl | rfl | rfl | rfl | rfl | rfl <;> exact absurd h255 (by decide)
  · intro ⟨h8, hi⟩ b
    have hb : b.toNat % 2 ^ 8 = b.toNat := Nat.mod_eq_of_lt b.toNat_lt
    simp only [receive, h8, hi, hb, UInt8.ofNat_toNat, if_true]

end Termios

end UvWrapper.Lib
