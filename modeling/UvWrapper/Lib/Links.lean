/-
  UvWrapper.Lib.Links — rings of doubly linked nodes: a head, the nodes behind it in order, and
  back to the head, in a memory of next and prev pointers.

  `Rounds m h xs`: from `h` through `xs` and back, linked both ways, each node once. Every change
  to a ring is a few links (`link`): `Rounds.insert`, `Rounds.erase`, `Rounds.append`,
  `Rounds.split`; `Rounds.frame` leaves the rings apart from them alone. Node by node, with its
  neighbours: `Rounds.next_mid`, `Rounds.prev_mid`.
-/

import Mathlib.Data.List.Chain
import Mathlib.Data.List.Nodup
import Mathlib.Logic.Function.Basic

namespace UvWrapper.Lib

@[ext]
structure Links (α : Type) where
  next : α → α
  prev : α → α

namespace Links

variable {α : Type}

/-- `a` and `b` are neighbours, in both directions. -/
def Linked (m : Links α) (a b : α) : Prop := m.next a = b ∧ m.prev b = a

/-- The ring of `h` holds `xs`. -/
structure Rounds (m : Links α) (h : α) (xs : List α) : Prop where
  nodup : (h :: xs).Nodup
  chain : ((h :: xs) ++ [h]).IsChain m.Linked

section Stores

variable [DecidableEq α]

def setNext (m : Links α) (a b : α) : Links α := { m with next := Function.update m.next a b }

def setPrev (m : Links α) (a b : α) : Links α := { m with prev := Function.update m.prev a b }

def link (m : Links α) (a b : α) : Links α := (m.setNext a b).setPrev b a

variable (m : Links α) (a b c : α)

@[simp] theorem setNext_next : (m.setNext a b).next = Function.update m.next a b := rfl
@[simp] theorem setNext_prev : (m.setNext a b).prev = m.prev := rfl
@[simp] theorem setPrev_next : (m.setPrev a b).next = m.next := rfl
@[simp] theorem setPrev_prev : (m.setPrev a b).prev = Function.update m.prev a b := rfl
@[simp] theorem link_next : (m.link a b).next = Function.update m.next a b := rfl
@[simp] theorem link_prev : (m.link a b).prev = Function.update m.prev b a := rfl

end Stores

/-! ## Ends of a list -/

section Ends

variable {h : α} {xs : List α}

theorem getLastD_mem (h : α) (xs : List α) : xs.getLastD h ∈ h :: xs := by
  induction xs generalizing h with
  | nil => simp
  | cons x xs ih =>
    rw [List.getLastD_cons]
    exact List.mem_cons_of_mem _ (ih x)

theorem headD_mem (h : α) (xs : List α) : xs.headD h ∈ xs ++ [h] := by cases xs <;> simp

theorem getLastD_notMem_dropLast (hn : (h :: xs).Nodup) : xs.getLastD h ∉ (h :: xs).dropLast := by
  induction xs generalizing h with
  | nil => simp
  | cons x xs ih =>
    have hx := getLastD_mem x xs
    rw [List.getLastD_cons, List.dropLast_cons_cons, List.mem_cons, not_or]
    exact ⟨fun e => (List.nodup_cons.mp hn).1 (e ▸ hx), ih (List.nodup_cons.mp hn).2⟩

theorem headD_notMem_tail (hn : (xs ++ [h]).Nodup) : xs.headD h ∉ (xs ++ [h]).tail := by
  cases xs with
  | nil => simp
  | cons x xs => exact (List.nodup_cons.mp hn).1

theorem getLast?_eq (h : α) (xs : List α) : (h :: xs).getLast? = some (xs.getLastD h) := by
  rw [List.getLast?_cons, List.getLastD_eq_getLast?]

theorem getLastD_append_cons (h q : α) (xs ys : List α) : (xs ++ q :: ys).getLastD h = ys.getLastD q := by
  rw [List.getLastD_eq_getLast?, List.getLast?_append, getLast?_eq]
  rfl

theorem head?_eq (h : α) (xs : List α) : (xs ++ [h]).head? = some (xs.headD h) := by cases xs <;> rfl

end Ends

/-! ## Reading a ring -/

variable {m : Links α} {h n q : α} {xs ys zs : List α}

/-- A node, with what is before it and behind it. -/
theorem Rounds.mid (hr : Rounds m h (xs ++ q :: ys)) : m.Linked (xs.getLastD h) q ∧ m.Linked q (ys.headD h) := by
  have hc : ((h :: xs) ++ ([q] ++ (ys ++ [h]))).IsChain m.Linked := by simpa using hr.chain
  obtain ⟨-, hc2, hj⟩ := List.isChain_append.mp hc
  obtain ⟨-, -, hj2⟩ := List.isChain_append.mp hc2
  exact ⟨hj _ (getLast?_eq h xs) q rfl, hj2 q rfl _ (head?_eq h ys)⟩

/-- The head, with the first node and the last. -/
theorem Rounds.ends (hr : Rounds m h xs) : m.Linked h (xs.headD h) ∧ m.Linked (xs.getLastD h) h := by
  obtain ⟨-, -, hj⟩ := List.isChain_append.mp (show ([h] ++ (xs ++ [h])).IsChain m.Linked from hr.chain)
  obtain ⟨-, -, hj2⟩ := List.isChain_append.mp hr.chain
  exact ⟨hj h rfl _ (head?_eq h xs), hj2 _ (getLast?_eq h xs) h rfl⟩

/-- The two parts of a ring around a place between two nodes. -/
theorem Rounds.parts (hr : Rounds m h (xs ++ ys)) :
    (h :: xs).IsChain m.Linked ∧ (ys ++ [h]).IsChain m.Linked := by
  have hc : ((h :: xs) ++ (ys ++ [h])).IsChain m.Linked := by simpa using hr.chain
  exact ⟨hc.left_of_append, hc.right_of_append⟩

theorem Rounds.next_head (hr : Rounds m h xs) : m.next h = xs.headD h := hr.ends.1.1
theorem Rounds.prev_head (hr : Rounds m h xs) : m.prev h = xs.getLastD h := hr.ends.2.2
theorem Rounds.next_mid (hr : Rounds m h (xs ++ q :: ys)) : m.next q = ys.headD h := hr.mid.2.1
theorem Rounds.prev_mid (hr : Rounds m h (xs ++ q :: ys)) : m.prev q = xs.getLastD h := hr.mid.1.2

/-- The head points to itself if, and only if, there is nothing behind it. -/
theorem Rounds.empty_iff (hr : Rounds m h xs) : m.next h = h ↔ xs = [] := by
  rw [hr.next_head]
  cases xs with
  | nil => simp
  | cons x xs =>
    have hx : h ∉ x :: xs := (List.nodup_cons.mp hr.nodup).1
    simp only [List.headD_cons, reduceCtorEq, iff_false]
    exact fun e => hx (e ▸ List.mem_cons_self)

/-- A ring is where its own pointers are. -/
theorem Rounds.congr {m' : Links α} (hr : Rounds m h xs)
    (ha : ∀ x ∈ h :: xs, m'.next x = m.next x ∧ m'.prev x = m.prev x) : Rounds m' h xs := by
  refine ⟨hr.nodup, hr.chain.imp_of_mem_imp fun x y hx hy hxy => ?_⟩
  have hx' : x ∈ h :: xs := by simpa [or_comm] using hx
  have hy' : y ∈ h :: xs := by simpa [or_comm] using hy
  exact ⟨(ha x hx').1.trans hxy.1, (ha y hy').2.trans hxy.2⟩

/-- `m'` is `m`, but for nodes of `S`. -/
def SameOff (m m' : Links α) (S : List α) : Prop := ∀ x, x ∉ S → m'.next x = m.next x ∧ m'.prev x = m.prev x

theorem SameOff.refl (m : Links α) (S : List α) : SameOff m m S := fun _ _ => ⟨rfl, rfl⟩

theorem Rounds.sameOff {m' : Links α} {S : List α} (hr : Rounds m h xs) (hs : SameOff m m' S)
    (hd : ∀ x ∈ h :: xs, x ∉ S) : Rounds m' h xs :=
  hr.congr fun x hx => hs x (hd x hx)

/-! ## Links and what they leave alone -/

section Changes

variable [DecidableEq α] {a b c d : α} {l : List α}

theorem linked_link (m : Links α) (a b : α) : (m.link a b).Linked a b := by simp [Linked]

theorem Linked.link (hl : m.Linked a b) (hc : a ≠ c) (hd : b ≠ d) : (m.link c d).Linked a b := by
  simpa [Linked, hc, hd] using hl

/-- A link between `c` and `d` is not seen by a chain that has nothing behind `c` and nothing before `d`. -/
theorem chain_link (hl : l.IsChain m.Linked) (hc : c ∉ l.dropLast) (hd : d ∉ l.tail) :
    l.IsChain (m.link c d).Linked := by
  induction l with
  | nil => exact .nil
  | cons x l ih =>
    cases l with
    | nil => exact .singleton x
    | cons y l =>
      rw [List.dropLast_cons_cons, List.mem_cons, not_or] at hc
      rw [List.tail_cons, List.mem_cons, not_or] at hd
      obtain ⟨hxy, hyl⟩ := List.isChain_cons_cons.mp hl
      exact List.isChain_cons_cons.mpr ⟨hxy.link (Ne.symm hc.1) (Ne.symm hd.1), ih hyl hc.2 hd.2⟩

theorem chain_apart (hl : l.IsChain m.Linked) (hc : c ∉ l) (hd : d ∉ l) : l.IsChain (m.link c d).Linked :=
  chain_link hl (fun e => hc (List.dropLast_subset l e)) (fun e => hd (List.mem_of_mem_tail e))

/-- Another ring. -/
theorem Rounds.frame (hr : Rounds m h xs) (hc : c ∉ h :: xs) (hd : d ∉ h :: xs) : Rounds (m.link c d) h xs :=
  ⟨hr.nodup, chain_apart hr.chain (by grind) (by grind)⟩

theorem SameOff.link {m' : Links α} {S : List α} (hs : SameOff m m' S) (hc : c ∈ S) (hd : d ∈ S) :
    SameOff m (m'.link c d) S := by
  intro x hx
  have hxc : x ≠ c := fun e => hx (e ▸ hc)
  have hxd : x ≠ d := fun e => hx (e ▸ hd)
  simpa [hxc, hxd] using hs x hx

theorem rounds_init (m : Links α) (h : α) : Rounds (m.link h h) h [] :=
  ⟨by simp, List.isChain_pair.mpr (linked_link m h h)⟩

/-- Two chains, joined end to end. -/
theorem chain_join (xs ys : List α) {g : α} (hxs : (h :: xs).IsChain m.Linked) (hys : (ys ++ [g]).IsChain m.Linked)
    (hnx : (h :: xs).Nodup) (hny : (ys ++ [g]).Nodup) (hx : xs.getLastD h ∉ ys) (hy : ys.headD g ∉ xs) :
    ((h :: xs) ++ (ys ++ [g])).IsChain (m.link (xs.getLastD h) (ys.headD g)).Linked := by
  have h1 := chain_link hxs (getLastD_notMem_dropLast hnx) hy
  have h2 := chain_link hys (by rwa [List.dropLast_concat]) (headD_notMem_tail hny)
  refine h1.append h2 fun x hx y hy => ?_
  rw [getLast?_eq] at hx
  rw [head?_eq] at hy
  cases hx
  cases hy
  exact linked_link ..

/-- Take `q` out. -/
theorem Rounds.erase (hr : Rounds m h (xs ++ q :: ys)) :
    Rounds (m.link (xs.getLastD h) (ys.headD h)) h (xs ++ ys) := by
  have hn := hr.nodup
  have ha := getLastD_mem h xs
  have hb := headD_mem h ys
  obtain ⟨hxs, hys⟩ := hr.parts
  refine ⟨by grind, ?_⟩
  rw [← List.cons_append, List.append_assoc]
  exact chain_join _ _ hxs hys.tail (by grind) (by grind) (by grind) (by grind)

/-- Put `q` between `xs` and `ys`. -/
theorem Rounds.insert (hr : Rounds m h (xs ++ ys)) (hq : q ∉ h :: (xs ++ ys)) :
    Rounds ((m.link (xs.getLastD h) q).link q (ys.headD h)) h (xs ++ q :: ys) := by
  have hn := hr.nodup
  have ha := getLastD_mem h xs
  have hb := headD_mem h ys
  obtain ⟨hxs, hys⟩ := hr.parts
  -- first `q` behind `xs`, then `ys` behind `q`
  have h1 : (h :: (xs ++ [q])).IsChain (m.link (xs.getLastD h) q).Linked :=
    chain_join xs [] hxs (.singleton q) (by grind) (by simp) (by simp) (by simp; grind)
  have h2 : (ys ++ [h]).IsChain (m.link (xs.getLastD h) q).Linked :=
    chain_link hys (by rw [List.dropLast_concat]; grind) fun e => by
      have := List.mem_of_mem_tail e
      grind
  have h3 := chain_join _ _ h1 h2 (by grind) (by grind) (by simp; grind) (by grind)
  exact ⟨by grind, by simpa using h3⟩

/-- Put the nodes behind `n` at the end; `n` itself is left out. -/
theorem Rounds.append (hr : Rounds m h xs) (hs : Rounds m n ys) (hy : ys ≠ [])
    (hd : (h :: xs).Disjoint (n :: ys)) :
    Rounds ((m.link (xs.getLastD h) (ys.headD n)).link (ys.getLastD n) h) h (xs ++ ys) := by
  obtain ⟨zs, g, rfl⟩ := (List.eq_nil_or_concat' ys).resolve_left hy
  rw [List.disjoint_left] at hd
  have hn := hr.nodup
  have hm := hs.nodup
  have ha := getLastD_mem h xs
  have hb := headD_mem g zs
  have hs0 : Rounds m n ([] ++ (zs ++ [g])) := hs
  have hzs : (zs ++ [g]).IsChain m.Linked := hs0.parts.2.left_of_append
  have hxs : (h :: xs).IsChain m.Linked := hr.chain.left_of_append
  have he : (zs ++ [g]).headD n = zs.headD g := by cases zs <;> rfl
  rw [he, List.getLastD_concat]
  have h1 := chain_join _ _ hxs hzs hn (by grind) (by grind) (by grind)
  have h2 := chain_join (xs ++ (zs ++ [g])) [] (g := h) h1 (.singleton h) (by grind) (by simp) (by simp)
    (by grind)
  refine ⟨by grind, ?_⟩
  rw [← List.append_assoc, List.getLastD_concat] at h2
  simpa using h2

/-- Cut the ring at `q`: what is from `q` on goes behind `n`. -/
theorem Rounds.split (hr : Rounds m h (xs ++ q :: ys)) (hn : n ∉ h :: (xs ++ q :: ys)) :
    Rounds (((m.link (ys.getLastD q) n).link n q).link (xs.getLastD h) h) h xs ∧
      Rounds (((m.link (ys.getLastD q) n).link n q).link (xs.getLastD h) h) n (q :: ys) := by
  have hm := hr.nodup
  have ha := getLastD_mem h xs
  have hb := getLastD_mem q ys
  obtain ⟨hxs, hys⟩ := hr.parts
  have hq : (q :: ys).IsChain m.Linked := hys.left_of_append
  have h1 := chain_join _ [] hq (.singleton n) (by grind) (by simp) (by simp) (by grind)
  have h2 := chain_join [] (q :: ys) (g := n) (.singleton n) h1 (by simp) (by grind) (by grind) (by simp)
  have hrn : Rounds ((m.link (ys.getLastD q) n).link n q) n (q :: ys) := ⟨by grind, h2⟩
  have h3 : (h :: xs).IsChain ((m.link (ys.getLastD q) n).link n q).Linked :=
    chain_apart (chain_apart hxs (by grind) (by grind)) (by grind) (by grind)
  refine ⟨⟨by grind, ?_⟩, hrn.frame (by grind) (by grind)⟩
  exact chain_join _ [] h3 (.singleton h) (by grind) (by simp) (by simp) (by grind)

end Changes

end Links

end UvWrapper.Lib
