/-
  UvWrapper.Lib.Descriptors — a process's table of descriptors: a file behind each number in use, and
  the lowest free number for the next file that is opened.

  - `file_opened`, `file_closed`: opening and closing change one number.
  - `lowest_le`: no free number is below the next one.
  - `lowest_lt`: while nothing is closed the next number goes up, so that a free number's turn comes.
-/

import Mathlib.Data.List.GetD

namespace UvWrapper.Lib.Descriptors

variable {α : Type}

structure Table (α : Type) where
  slots : List (Option α)
  deriving DecidableEq, Repr

namespace Table

def ofList (files : List α) : Table α := ⟨files.map some⟩

def file (t : Table α) (fd : Nat) : Option α := t.slots.getD fd none

/-- What the next open returns. -/
def lowest (t : Table α) : Nat := t.slots.findIdx Option.isNone

def opened (t : Table α) (a : α) : Table α :=
  if t.lowest < t.slots.length then ⟨t.slots.set t.lowest (some a)⟩ else ⟨t.slots ++ [some a]⟩

def closed (t : Table α) (fd : Nat) : Table α := ⟨t.slots.set fd none⟩

variable {t : Table α} {fd n : Nat} {a : α}

theorem file_ofList (files : List α) (fd : Nat) : (ofList files).file fd = files[fd]? := by
  unfold ofList file
  rw [List.getD_eq_getElem?_getD, List.getElem?_map]
  cases files[fd]? <;> rfl

theorem file_lowest (t : Table α) : t.file t.lowest = none := by
  unfold file lowest
  by_cases h : t.slots.findIdx Option.isNone < t.slots.length
  · rw [List.getD_eq_getElem _ _ h]
    exact Option.isNone_iff_eq_none.mp (List.findIdx_getElem (w := h))
  · rw [List.getD_eq_default _ _ (Nat.not_lt.mp h)]

theorem lowest_le (h : t.file fd = none) : t.lowest ≤ fd := by
  refine Nat.not_lt.mp fun hlt => ?_
  have hl : fd < t.slots.length := Nat.lt_of_lt_of_le hlt List.findIdx_le_length
  have hs : t.slots[fd].isNone = false := List.not_of_lt_findIdx hlt
  unfold file at h
  rw [List.getD_eq_getElem _ _ hl] at h
  rw [h] at hs
  cases hs

theorem file_opened (t : Table α) (a : α) (fd : Nat) :
    (t.opened a).file fd = if fd = t.lowest then some a else t.file fd := by
  unfold opened
  by_cases h : t.lowest < t.slots.length
  · rw [if_pos h]
    show (t.slots.set t.lowest (some a)).getD fd none = _
    rw [List.getD_eq_getElem?_getD, List.getElem?_set]
    by_cases he : fd = t.lowest
    · rw [if_pos he, if_pos he.symm, if_pos h]
      rfl
    · rw [if_neg he, if_neg (Ne.symm he), ← List.getD_eq_getElem?_getD]
      rfl
  · have hl : t.lowest = t.slots.length := Nat.le_antisymm List.findIdx_le_length (Nat.not_lt.mp h)
    rw [if_neg h, hl]
    show (t.slots ++ [some a]).getD fd none = if _ then _ else t.slots.getD fd none
    rcases Nat.lt_trichotomy fd t.slots.length with hlt | rfl | hgt
    · rw [List.getD_append _ _ _ _ hlt, if_neg (Nat.ne_of_lt hlt)]
    · simp
    · rw [if_neg (Nat.ne_of_gt hgt), List.getD_eq_default _ _ (Nat.le_of_lt hgt), List.getD_eq_default]
      rw [List.length_append, List.length_singleton]
      exact hgt

theorem file_closed (t : Table α) (fd n : Nat) : (t.closed fd).file n = if n = fd then none else t.file n := by
  show (t.slots.set fd none).getD n none = _
  rw [List.getD_eq_getElem?_getD, List.getElem?_set]
  by_cases he : n = fd
  · rw [if_pos he, if_pos he.symm]
    split <;> rfl
  · rw [if_neg he, if_neg (Ne.symm he), ← List.getD_eq_getElem?_getD]
    rfl

/-- Every number up to the one given is in use then. -/
theorem lowest_lt (t : Table α) (a : α) : t.lowest < (t.opened a).lowest := by
  refine Nat.not_le.mp fun hle => ?_
  have hf := (t.opened a).file_lowest
  rw [file_opened] at hf
  split at hf
  · cases hf
  · rename_i hne
    exact hne (Nat.le_antisymm hle (lowest_le hf))

/-- A number stays free until it is the lowest. -/
theorem free_opened (h : t.file fd = none) (hne : t.lowest ≠ fd) : (t.opened a).file fd = none := by
  rw [file_opened, if_neg (Ne.symm hne), h]

end Table

end UvWrapper.Lib.Descriptors
