/-
  UvWrapper.Utils.PrintInHex — print_in_hex (utils.c): at most MSG_PRINT_SIZE bytes, as two digits
  and a space each, into a buffer of three times as many.

  Each sprintf writes a NUL behind its three characters. `print` is at 0 of its memory, which
  goes on behind it.

  Proved: all that is written lies in `print`, and the logged string is that of the bytes, from
  which they can be read back (`unhex_render`), if and only if there are fewer than MSG_PRINT_SIZE
  bytes (`renders_iff`): from 1024 bytes on the last NUL is behind the buffer (`past_print`).
-/

import UvWrapper.Lib.Memory

namespace UvWrapper.Utils.PrintInHex

open UvWrapper.Lib.Memory

def MSG_PRINT_SIZE : Nat := 1024

def MAX_PRINT_BUFSIZE : Nat := MSG_PRINT_SIZE * 3

def hex (b : UInt8) : List Char := [Nat.digitChar (b.toNat / 16), Nat.digitChar (b.toNat % 16), ' ']

def sprintfHex (print : Mem Char) (index : Nat) (b : UInt8) : Mem Char := print.store (3 * index) (hex b ++ [nul])

/-- The loop, with the bytes that are left from `index` on. -/
def hexLoop : Nat → List UInt8 → Mem Char → Mem Char
  | _, [], print => print
  | index, b :: bs, print => hexLoop (index + 1) bs (sprintfHex print index b)

/-- `print`, and the string that is logged; its NUL is nowhere behind MAX_PRINT_BUFSIZE. -/
def printInHex (data : List UInt8) (len : Nat) : Mem Char × Option (List Char) :=
  let print : Mem Char := ⟨fun _ => nul, []⟩
  if len > 0 then
    let len := if len > MSG_PRINT_SIZE then MSG_PRINT_SIZE else len
    let print := hexLoop 0 (data.take len) print
    (print, some (str nul print 0 (MAX_PRINT_BUFSIZE + 1)))
  else (print, none)

/-! ## Two digits and a space, and back -/

def render (bs : List UInt8) : List Char := bs.flatMap hex

def hexVal (c : Char) : Option Nat :=
  if '0' ≤ c ∧ c ≤ '9' then some (c.toNat - '0'.toNat)
  else if 'a' ≤ c ∧ c ≤ 'f' then some (c.toNat - 'a'.toNat + 10)
  else none

def unhex : List Char → Option (List UInt8)
  | [] => some []
  | c :: d :: ' ' :: cs =>
    match hexVal c, hexVal d, unhex cs with
    | some h, some l, some bs => some (.ofNat (16 * h + l) :: bs)
    | _, _, _ => none
  | _ => none

theorem hexVal_digitChar {n : Nat} (h : n < 16) : hexVal (Nat.digitChar n) = some n := by
  revert n
  decide

theorem digitChar_ne {n : Nat} (h : n < 16) : Nat.digitChar n ≠ nul := by
  revert n
  decide

theorem render_length (bs : List UInt8) : (render bs).length = 3 * bs.length := by
  induction bs with
  | nil => rfl
  | cons b bs ih =>
    show (hex b ++ render bs).length = 3 * (bs.length + 1)
    rw [List.length_append, ih, Nat.mul_add, Nat.add_comm]
    rfl

theorem unhex_render (bs : List UInt8) : unhex (render bs) = some bs := by
  induction bs with
  | nil => rfl
  | cons b bs ih =>
    have hb : b.toNat < 256 := b.toNat_lt
    show unhex (_ :: _ :: ' ' :: render bs) = some (b :: bs)
    rw [unhex, hexVal_digitChar (by omega), hexVal_digitChar (Nat.mod_lt _ (by omega)), ih]
    simp only
    rw [Nat.div_add_mod]
    simp

theorem render_plain (bs : List UInt8) : nul ∉ render bs := by
  intro h
  obtain ⟨b, -, hc⟩ := List.mem_flatMap.mp h
  have hb : b.toNat < 256 := b.toNat_lt
  rcases List.mem_cons.mp hc with hc | hc
  · exact digitChar_ne (by omega) hc.symm
  · rcases List.mem_cons.mp hc with hc | hc
    · exact digitChar_ne (Nat.mod_lt _ (by omega)) hc.symm
    · exact absurd (List.mem_singleton.mp hc) (by decide)

/-! ## The loop -/

variable {data : List UInt8} {len : Nat}

theorem sprintfHex_load (print : Mem Char) (index : Nat) (b : UInt8) :
    (sprintfHex print index b).load 0 (3 * index + 4) = print.load 0 (3 * index) ++ (hex b ++ [nul]) := by
  rw [load_append, sprintfHex, load_store_apart _ (by omega), Nat.zero_add]
  exact congrArg _ (load_store_self print (3 * index) (hex b ++ [nul]))

/-- The string grows behind what there is, NUL for NUL. -/
theorem hexLoop_load (bs : List UInt8) (index : Nat) (print : Mem Char) (s : List Char)
    (h : print.load 0 (3 * index + 1) = s ++ [nul]) :
    (hexLoop index bs print).load 0 (3 * (index + bs.length) + 1) = s ++ render bs ++ [nul] := by
  induction bs generalizing index print s with
  | nil => simpa [render, hexLoop] using h
  | cons b bs ih =>
    have hs : print.load 0 (3 * index) = s := by
      rw [load_append] at h
      exact (List.append_inj' h rfl).1
    have hnext := ih (index + 1) (sprintfHex print index b) (s ++ hex b) (by
      rw [show 3 * (index + 1) + 1 = 3 * index + 4 by omega, sprintfHex_load, hs, List.append_assoc])
    show (hexLoop (index + 1) bs (sprintfHex print index b)).load 0 (3 * (index + (bs.length + 1)) + 1) =
      s ++ (hex b ++ render bs) ++ [nul]
    rw [show index + (bs.length + 1) = index + 1 + bs.length by omega, hnext]
    simp

/-- The writes have no gap: the last of them is the last NUL. -/
theorem hexLoop_written (bs : List UInt8) (index : Nat) (print : Mem Char) (i : Nat) :
    i ∈ (hexLoop index bs print).written ↔
      i ∈ print.written ∨ (bs ≠ [] ∧ 3 * index ≤ i ∧ i ≤ 3 * (index + bs.length)) := by
  induction bs generalizing index print with
  | nil => simp [hexLoop]
  | cons b bs ih =>
    have hlen : (hex b ++ [nul]).length = 4 := rfl
    show i ∈ (hexLoop (index + 1) bs (sprintfHex print index b)).written ↔ _
    rw [ih, sprintfHex, mem_written, hlen, List.length_cons]
    rw [or_assoc]
    refine or_congr_right ?_
    by_cases hbs : bs = []
    · simp only [hbs, ne_eq, not_true_eq_false, false_and, or_false, List.length_nil, reduceCtorEq, not_false_eq_true,
        true_and]
      omega
    · simp only [ne_eq, hbs, not_false_eq_true, true_and, reduceCtorEq]
      omega

/-! ## print_in_hex -/

/-- What is written stays in `print`, and what is logged is the bytes, two digits and a space each. -/
structure Renders (data : List UInt8) (len : Nat) : Prop where
  inside : ∀ i ∈ (printInHex data len).1.written, i < MAX_PRINT_BUFSIZE
  logged : 0 < len → (printInHex data len).2 = some (render (data.take (min len MSG_PRINT_SIZE)))
  back : ∀ s, (printInHex data len).2 = some s → unhex s = some (data.take (min len MSG_PRINT_SIZE))

theorem printInHex_eq (h : 0 < len) : printInHex data len =
    (hexLoop 0 (data.take (min len MSG_PRINT_SIZE)) ⟨fun _ => nul, []⟩,
      some (str nul (hexLoop 0 (data.take (min len MSG_PRINT_SIZE)) ⟨fun _ => nul, []⟩) 0 (MAX_PRINT_BUFSIZE + 1))) := by
  have hmin : (if len > MSG_PRINT_SIZE then MSG_PRINT_SIZE else len) = min len MSG_PRINT_SIZE := by
    split <;> omega
  unfold printInHex
  rw [if_pos h, hmin]

theorem take_length (hl : len ≤ data.length) : (data.take (min len MSG_PRINT_SIZE)).length = min len MSG_PRINT_SIZE := by
  rw [List.length_take]
  omega

theorem printInHex_written (hl : len ≤ data.length) (i : Nat) :
    i ∈ (printInHex data len).1.written ↔ 0 < len ∧ i ≤ 3 * min len MSG_PRINT_SIZE := by
  by_cases h : 0 < len
  · have hn := take_length hl
    have hne : data.take (min len MSG_PRINT_SIZE) ≠ [] := fun e => by
      rw [e, List.length_nil, MSG_PRINT_SIZE] at hn
      omega
    rw [printInHex_eq h, hexLoop_written, hn]
    simp [h, hne]
  · simp [printInHex, h]

theorem printInHex_logged (hl : len ≤ data.length) (h : 0 < len) :
    (printInHex data len).2 = some (render (data.take (min len MSG_PRINT_SIZE))) := by
  have hload := hexLoop_load (data.take (min len MSG_PRINT_SIZE)) 0 ⟨fun _ => nul, []⟩ [] rfl
  rw [printInHex_eq h]
  refine congrArg some (str_eq ⟨render_plain _, ?_⟩ ?_)
  · rw [render_length]
    simpa using hload
  · rw [render_length, take_length hl, MAX_PRINT_BUFSIZE]
    omega

theorem renders_iff (hl : len ≤ data.length) : Renders data len ↔ len < MSG_PRINT_SIZE := by
  constructor
  · intro h
    by_cases h0 : 0 < len
    · have := h.inside (3 * min len MSG_PRINT_SIZE) ((printInHex_written hl _).mpr ⟨h0, Nat.le_refl _⟩)
      rw [MAX_PRINT_BUFSIZE] at this
      omega
    · rw [MSG_PRINT_SIZE]
      omega
  · intro h
    refine ⟨fun i hi => ?_, fun h0 => printInHex_logged hl h0, fun s hs => ?_⟩
    · have := ((printInHex_written hl i).mp hi).2
      rw [MAX_PRINT_BUFSIZE]
      omega
    · by_cases h0 : 0 < len
      · rw [printInHex_logged hl h0] at hs
        cases hs
        exact unhex_render _
      · simp [printInHex, h0] at hs

example : (printInHex [0, 0x1f, 0xab] 3).2 = some "00 1f ab ".toList := by decide

theorem short_renders : Renders [0, 0x1f, 0xab] 3 := (renders_iff (by decide)).mpr (by decide)

/-- A message of MSG_PRINT_SIZE bytes. -/
theorem past_print : ∃ data : List UInt8, data.length = 1024 ∧ MAX_PRINT_BUFSIZE ∈ (printInHex data 1024).1.written ∧
    ¬ Renders data 1024 := by
  have hlen : (List.replicate 1024 (0 : UInt8)).length = 1024 := List.length_replicate
  have hw : MAX_PRINT_BUFSIZE ∈ (printInHex (List.replicate 1024 0) 1024).1.written :=
    (printInHex_written (by rw [hlen]) _).mpr ⟨by decide, by decide⟩
  exact ⟨List.replicate 1024 0, hlen, hw, fun h => absurd (h.inside _ hw) (Nat.lt_irrefl _)⟩

end UvWrapper.Utils.PrintInHex
