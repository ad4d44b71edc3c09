/-
  UvWrapper.Lib.Memory — a flat memory, cell by cell, and what stores and loads do to each other.

  `written` are the cells that were stored to, so that a bound on what a program writes is a
  statement about the memory it leaves. A string is the cells before its first terminator.

  - `load_store`: a load at the place of a store gives what was stored; `load_store_apart`: a
    store beside what is loaded leaves it alone.
  - `str_eq`: reading up to the terminator finds the string that is there.
  - `ofLe_toLe`: a number's bytes, lowest first, and back.
-/

import Mathlib.Algebra.Group.Nat.Defs
import Mathlib.Data.List.TakeWhile

namespace UvWrapper.Lib.Memory

variable {α : Type}

structure Mem (α : Type) where
  cell : Nat → α
  written : List Nat

def Mem.load (m : Mem α) (a n : Nat) : List α := (List.range' a n).map m.cell

def Mem.store (m : Mem α) (a : Nat) (bs : List α) : Mem α where
  cell i := if i < a then m.cell i else (bs[i - a]?).getD (m.cell i)
  written := m.written ++ List.range' a bs.length

/-! ## Stores and loads -/

variable {m : Mem α} {a b n k : Nat} {bs : List α}

@[simp] theorem load_length (m : Mem α) (a n : Nat) : (m.load a n).length = n := by simp [Mem.load]

theorem load_getElem (m : Mem α) (a n : Nat) {i : Nat} (h : i < (m.load a n).length) :
    (m.load a n)[i] = m.cell (a + i) := by
  simp [Mem.load]

theorem load_append (m : Mem α) (a n k : Nat) : m.load a (n + k) = m.load a n ++ m.load (a + n) k := by
  unfold Mem.load
  rw [← List.map_append, List.range'_append_1]

theorem store_inside {i : Nat} (h : i < bs.length) : (m.store a bs).cell (a + i) = bs[i] := by
  have : ¬ a + i < a := by omega
  simp [Mem.store, this, List.getElem?_eq_getElem h]

theorem store_outside {i : Nat} (h : i < a ∨ a + bs.length ≤ i) : (m.store a bs).cell i = m.cell i := by
  show (if i < a then m.cell i else (bs[i - a]?).getD (m.cell i)) = m.cell i
  split
  · rfl
  · rw [List.getElem?_eq_none (by omega)]
    rfl

/-- What was stored, or the beginning of it. -/
theorem load_store (m : Mem α) (a : Nat) (h : n ≤ bs.length) : (m.store a bs).load a n = bs.take n := by
  apply List.ext_getElem
  · simp [h]
  · intro i h1 h2
    have hi : i < n := by simpa using h1
    rw [load_getElem, store_inside (by omega), List.getElem_take]

theorem load_store_self (m : Mem α) (a : Nat) (bs : List α) : (m.store a bs).load a bs.length = bs := by
  rw [load_store m a (Nat.le_refl _), List.take_length]

theorem load_store_apart (m : Mem α) (h : a + bs.length ≤ b ∨ b + n ≤ a) : (m.store a bs).load b n = m.load b n := by
  apply List.ext_getElem
  · simp
  · intro i h1 h2
    have hi : i < n := by simpa using h1
    rw [load_getElem, load_getElem, store_outside (by omega)]

theorem mem_written {i : Nat} : i ∈ (m.store a bs).written ↔ i ∈ m.written ∨ (a ≤ i ∧ i < a + bs.length) := by
  simp [Mem.store, List.mem_range'_1]

/-! ## Strings -/

variable {stop : α} {s t : List α}

structure Str (stop : α) (m : Mem α) (a : Nat) (s : List α) : Prop where
  plain : stop ∉ s
  cells : m.load a (s.length + 1) = s ++ [stop]

theorem str_store (m : Mem α) (a : Nat) (h : stop ∉ s) : Str stop (m.store a (s ++ [stop])) a s :=
  ⟨h, by simpa using load_store_self m a (s ++ [stop])⟩

section Reading

variable [DecidableEq α]

/-- The string at `a`, read no further than `n` cells. -/
def str (stop : α) (m : Mem α) (a n : Nat) : List α := (m.load a n).takeWhile (· ≠ stop)

theorem takeWhile_plain (h : stop ∉ s) (t : List α) : (s ++ stop :: t).takeWhile (· ≠ stop) = s := by
  have hs : s.takeWhile (· ≠ stop) = s :=
    List.takeWhile_eq_self_iff.mpr fun x hx => decide_eq_true fun e : x = stop => h (e ▸ hx)
  rw [List.takeWhile_append, if_pos (by rw [hs])]
  simp

theorem str_eq (h : Str stop m a s) (hn : s.length < n) : str stop m a n = s := by
  obtain ⟨k, rfl⟩ := Nat.exists_eq_add_of_le hn
  rw [str, load_append, h.cells, List.append_assoc]
  exact takeWhile_plain h.plain _

end Reading

def nul : Char := Char.ofNat 0

/-! ## Numbers -/

/-- The lowest `n` bytes of `v`, lowest first. -/
def toLe : Nat → Nat → List UInt8
  | 0, _ => []
  | n + 1, v => UInt8.ofNat v :: toLe n (v / 256)

def ofLe : List UInt8 → Nat
  | [] => 0
  | b :: bs => b.toNat + 256 * ofLe bs

@[simp] theorem toLe_length (n v : Nat) : (toLe n v).length = n := by
  induction n generalizing v with
  | zero => rfl
  | succ n ih => simp [toLe, ih]

theorem ofLe_toLe (n v : Nat) : ofLe (toLe n v) = v % 256 ^ n := by
  induction n generalizing v with
  | zero => simp [toLe, ofLe, Nat.mod_one]
  | succ n ih =>
    have hb : (UInt8.ofNat v).toNat = v % 256 := by simp
    rw [toLe, ofLe, ih, hb, Nat.pow_succ', Nat.mod_mul]

/-- A number's first bytes are those of a shorter number. -/
theorem toLe_take (v : Nat) (h : n ≤ k) : (toLe k v).take n = toLe n v := by
  induction n generalizing k v with
  | zero => simp [toLe]
  | succ n ih =>
    cases k with
    | zero => omega
    | succ k => simp only [toLe, List.take_succ_cons, ih (k := k) (v / 256) (by omega)]

end UvWrapper.Lib.Memory
