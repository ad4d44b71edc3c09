/-
  UvWrapper.Lib.Handle — a handle of an event loop. `close` only schedules the close;
  the loop finishes it later (`finish`) and calls back, and the callback or anyone else
  may free the handle's memory.

  How often a handle was passed to `close` and freed is counted, so that a second time
  can be told from the first.
-/

import Mathlib.Logic.Basic

namespace UvWrapper.Lib

inductive HandleSt where
  | absent
  | opened
  | closing
  | closed
  deriving DecidableEq, Repr

structure Handle where
  st : HandleSt
  closes : Nat
  frees : Nat
  deriving DecidableEq, Repr

namespace Handle

def none : Handle := ⟨.absent, 0, 0⟩

def opened : Handle := ⟨.opened, 0, 0⟩

/-- The test a caller can make: passed to `close` already. It does not tell closing from closed. -/
def isClosing (h : Handle) : Bool := h.st == .closing || h.st == .closed

def close (h : Handle) : Handle := { h with st := if h.st = .opened then .closing else h.st, closes := h.closes + 1 }

def finish (h : Handle) : Handle := { h with st := .closed }

def free (h : Handle) : Handle := { h with frees := h.frees + 1 }

def closeOnce (h : Handle) : Handle := if h.isClosing then h else h.close

variable {h : Handle}

@[simp] theorem opened_st : opened.st = .opened := rfl
@[simp] theorem finish_st : h.finish.st = .closed := rfl
@[simp] theorem free_st : h.free.st = h.st := rfl
@[simp] theorem finish_isClosing : h.finish.isClosing = true := rfl
@[simp] theorem free_isClosing : h.free.isClosing = h.isClosing := rfl

theorem isClosing_eq_false : h.isClosing = false ↔ h.st = .absent ∨ h.st = .opened := by
  cases hs : h.st <;> simp [isClosing, hs]

theorem not_closing_of_opened (hs : h.st = .opened) : h.isClosing = false := isClosing_eq_false.mpr (.inr hs)

theorem close_st (hs : h.st = .opened) : h.close.st = .closing := by simp [close, hs]

@[simp] theorem close_absent : h.close.st = .absent ↔ h.st = .absent := by cases hs : h.st <;> simp [close, hs]

@[simp] theorem close_opened : h.close.st ≠ .opened := by cases hs : h.st <;> simp [close, hs]

@[simp] theorem close_closed : h.close.st = .closed ↔ h.st = .closed := by cases hs : h.st <;> simp [close, hs]

@[simp] theorem closeOnce_absent : h.closeOnce.st = .absent ↔ h.st = .absent := by
  unfold closeOnce; split <;> simp

@[simp] theorem closeOnce_closed : h.closeOnce.st = .closed ↔ h.st = .closed := by
  unfold closeOnce; split <;> simp

theorem closeOnce_opened : h.closeOnce.st ≠ .opened := by
  unfold closeOnce
  split
  · rename_i hc; intro hs; rw [not_closing_of_opened hs] at hc; cases hc
  · simp

theorem close_isClosing (hs : h.st = .opened) : h.close.isClosing = true := by simp [isClosing, close_st hs]

theorem closeOnce_isClosing (ha : h.st ≠ .absent) : h.closeOnce.isClosing = true := by
  cases hc : h.closeOnce.isClosing with
  | true => rfl
  | false =>
    rcases isClosing_eq_false.mp hc with hs | hs
    · exact absurd (closeOnce_absent.mp hs) ha
    · exact absurd hs closeOnce_opened

/-! ## Handles that their close callback frees -/

/-- Passed to `close`; freed if, and only if, its close callback has run. -/
def OnItsWay (h : Handle) : Prop := (h.st = .closing ∧ h.frees = 0) ∨ (h.st = .closed ∧ h.frees = 1)

theorem close_onItsWay : OnItsWay opened.close := .inl ⟨rfl, rfl⟩

theorem OnItsWay.finish (hw : OnItsWay h) (hc : h.st = .closing) : OnItsWay h.finish.free := by
  rcases hw with ⟨-, h0⟩ | ⟨h1, -⟩
  · refine .inr ⟨rfl, ?_⟩
    show h.frees + 1 = 1
    rw [h0]
  · rw [hc] at h1; cases h1

theorem OnItsWay.frees_le (hw : OnItsWay h) : h.frees ≤ 1 := by rcases hw with ⟨-, h⟩ | ⟨-, h⟩ <;> omega

theorem OnItsWay.frees_eq (hw : OnItsWay h) (hc : h.st ≠ .closing) : h.frees = 1 := by
  rcases hw with ⟨h, -⟩ | ⟨-, h⟩
  · exact absurd h hc
  · exact h

theorem OnItsWay.not_opened (hw : OnItsWay h) : h.st ≠ .opened := by rcases hw with ⟨h, -⟩ | ⟨h, -⟩ <;> simp [h]

end Handle

end UvWrapper.Lib
