/-
  UvWrapper.Utils.Queue — the queue of queue.h: rings of nodes inside other structs, changed by macros
  that are a few stores each.

  A macro's stores are in its order, and what a store reads is read when it is its turn.
  `Holds m A`: in the memory `m`, each head `h` with `A h = some xs` is a queue of `xs`, and no two
  queues share a node. Proved, for any calls of the macros, in any order and on any number of queues,
  each on nodes as it is meant to be (`Allowed`), and whatever else is written to nodes that are in
  none: the queues hold what the same operations on lists leave (`queues_hold`), so QUEUE_EMPTY,
  QUEUE_HEAD and a QUEUE_FOREACH see exactly that (`reads_lists`).
-/

import UvWrapper.Lib.Links
import UvWrapper.Lib.Trace

namespace UvWrapper.Utils.Queue

open UvWrapper.Lib UvWrapper.Lib.Links UvWrapper.Lib.Trace

variable {α : Type} [DecidableEq α]

/-! ## The macros -/

def queueEmpty (m : Links α) (q : α) : Bool := q == m.next q

def queueHead (m : Links α) (q : α) : α := m.next q

def queueInit (m : Links α) (q : α) : Links α := (m.setNext q q).setPrev q q

def queueAdd (m : Links α) (h n : α) : Links α :=
  let m := m.setNext (m.prev h) (m.next n)
  let m := m.setPrev (m.next n) (m.prev h)
  let m := m.setPrev h (m.prev n)
  m.setNext (m.prev h) h

def queueSplit (m : Links α) (h q n : α) : Links α :=
  let m := m.setPrev n (m.prev h)
  let m := m.setNext (m.prev n) n
  let m := m.setNext n q
  let m := m.setPrev h (m.prev q)
  let m := m.setNext (m.prev h) h
  m.setPrev q n

def queueMove (m : Links α) (h n : α) : Links α :=
  if queueEmpty m h then queueInit m n else queueSplit m h (queueHead m h) n

def queueInsertHead (m : Links α) (h q : α) : Links α :=
  let m := m.setNext q (m.next h)
  let m := m.setPrev q h
  let m := m.setPrev (m.next q) q
  m.setNext h q

def queueInsertTail (m : Links α) (h q : α) : Links α :=
  let m := m.setNext q h
  let m := m.setPrev q (m.prev h)
  let m := m.setNext (m.prev q) q
  m.setPrev h q

def queueRemove (m : Links α) (q : α) : Links α :=
  let m := m.setNext (m.prev q) (m.next q)
  m.setPrev (m.next q) (m.prev q)

/-- `QUEUE_FOREACH(q, h)` from where `q` is now: `body` may change the memory, `links` is where in `σ` it is;
    `none` after `fuel` rounds. -/
def queueForeach {σ : Type} (links : σ → Links α) (body : σ → α → σ) (h : α) : Nat → α → σ → Option σ
  | 0, _, _ => none
  | fuel + 1, q, s => if q = h then some s else queueForeach links body h fuel ((links (body s q)).next q) (body s q)

/-! ## One macro on its queue -/

section OneQueue

variable {m : Links α} {h n q : α} {xs ys : List α}

theorem queueEmpty_iff (hr : Rounds m h xs) : queueEmpty m h = true ↔ xs = [] := by
  rw [queueEmpty, beq_iff_eq, eq_comm]
  exact hr.empty_iff

theorem queueInit_spec (m : Links α) (q : α) : Rounds (queueInit m q) q [] ∧ SameOff m (queueInit m q) [q] :=
  ⟨rounds_init m q, (SameOff.refl m [q]).link (by simp) (by simp)⟩

theorem queueInsertTail_eq (hr : Rounds m h xs) (hq : q ∉ h :: xs) :
    queueInsertTail m h q = (m.link (xs.getLastD h) q).link q h := by
  have ha := getLastD_mem h xs
  have hl := hr.prev_head
  ext x
  · simp [queueInsertTail, Function.update_apply, hl]
    grind
  · simp [queueInsertTail, Function.update_apply, hl]

theorem queueInsertTail_spec (hr : Rounds m h xs) (hq : q ∉ h :: xs) :
    Rounds (queueInsertTail m h q) h (xs ++ [q]) ∧ SameOff m (queueInsertTail m h q) (q :: h :: xs) := by
  have ha := getLastD_mem h xs
  have hr0 : Rounds m h (xs ++ []) := by simpa using hr
  rw [queueInsertTail_eq hr hq]
  refine ⟨Rounds.insert hr0 (by simpa using hq), ?_⟩
  exact ((SameOff.refl m _).link (by grind) (by grind)).link (by grind) (by grind)

theorem queueInsertHead_eq (hr : Rounds m h xs) (hq : q ∉ h :: xs) :
    queueInsertHead m h q = (m.link h q).link q (xs.headD h) := by
  have ha := headD_mem h xs
  have hl := hr.next_head
  ext x
  · simp [queueInsertHead, Function.update_apply, hl]
    grind
  · simp [queueInsertHead, Function.update_apply, hl]

theorem queueInsertHead_spec (hr : Rounds m h xs) (hq : q ∉ h :: xs) :
    Rounds (queueInsertHead m h q) h (q :: xs) ∧ SameOff m (queueInsertHead m h q) (q :: h :: xs) := by
  have ha := headD_mem h xs
  have hr0 : Rounds m h ([] ++ xs) := hr
  rw [queueInsertHead_eq hr hq]
  refine ⟨Rounds.insert hr0 hq, ?_⟩
  exact ((SameOff.refl m _).link (by grind) (by grind)).link (by grind) (by grind)

theorem queueRemove_eq (hr : Rounds m h (xs ++ q :: ys)) :
    queueRemove m q = m.link (xs.getLastD h) (ys.headD h) := by
  have ha := getLastD_mem h xs
  have hn := hr.nodup
  have hl := hr.next_mid
  have hp := hr.prev_mid
  ext x
  · simp [queueRemove, hl, hp]
  · simp [queueRemove, Function.update_apply, hl, hp]

theorem queueRemove_spec (hr : Rounds m h (xs ++ q :: ys)) :
    Rounds (queueRemove m q) h (xs ++ ys) ∧ SameOff m (queueRemove m q) (h :: (xs ++ q :: ys)) := by
  have ha := getLastD_mem h xs
  have hb := headD_mem h ys
  rw [queueRemove_eq hr]
  exact ⟨hr.erase, (SameOff.refl m _).link (by grind) (by grind)⟩

theorem queueSplit_eq (hr : Rounds m h (xs ++ q :: ys)) (hn : n ∉ h :: (xs ++ q :: ys)) :
    queueSplit m h q n = ((m.link (ys.getLastD q) n).link n q).link (xs.getLastD h) h := by
  have hd := hr.nodup
  have ha := getLastD_mem h xs
  have hb := getLastD_mem q ys
  have hl : m.prev h = ys.getLastD q := by rw [hr.prev_head, getLastD_append_cons]
  have hp := hr.prev_mid
  ext x
  · simp [queueSplit, Function.update_apply, hl, hp]
    grind
  · simp [queueSplit, Function.update_apply, hl, hp]
    grind

theorem queueSplit_spec (hr : Rounds m h (xs ++ q :: ys)) (hn : n ∉ h :: (xs ++ q :: ys)) :
    Rounds (queueSplit m h q n) h xs ∧ Rounds (queueSplit m h q n) n (q :: ys) ∧
      SameOff m (queueSplit m h q n) (n :: h :: (xs ++ q :: ys)) := by
  have ha := getLastD_mem h xs
  have hb := getLastD_mem q ys
  rw [queueSplit_eq hr hn]
  refine ⟨(hr.split hn).1, (hr.split hn).2, ?_⟩
  exact (((SameOff.refl m _).link (by grind) (by grind)).link (by grind) (by grind)).link (by grind) (by grind)

theorem queueMove_spec (hr : Rounds m h xs) (hn : n ∉ h :: xs) :
    Rounds (queueMove m h n) h [] ∧ Rounds (queueMove m h n) n xs ∧ SameOff m (queueMove m h n) (n :: h :: xs) := by
  unfold queueMove
  cases xs with
  | nil =>
    rw [if_pos ((queueEmpty_iff hr).mpr rfl)]
    obtain ⟨h1, h2⟩ := queueInit_spec m n
    exact ⟨hr.sameOff h2 (by grind), h1, fun x hx => h2 x (by grind)⟩
  | cons x xs =>
    rw [if_neg (by rw [queueEmpty_iff hr]; simp)]
    have hx : queueHead m h = x := hr.next_head
    have hr0 : Rounds m h ([] ++ x :: xs) := hr
    rw [hx]
    exact queueSplit_spec hr0 hn

theorem queueAdd_eq (hr : Rounds m h xs) (hs : Rounds m n (q :: ys)) :
    queueAdd m h n = (m.link (xs.getLastD h) q).link (ys.getLastD q) h := by
  have ha := getLastD_mem h xs
  have hb := getLastD_mem q ys
  have hm := hs.nodup
  have hl := hr.prev_head
  have hf : m.next n = q := hs.next_head
  have hg : m.prev n = ys.getLastD q := by rw [hs.prev_head, List.getLastD_cons]
  ext x
  · simp [queueAdd, Function.update_apply, hl, hf, hg]
    grind
  · simp [queueAdd, Function.update_apply, hl, hf, hg]
    grind

/-- The second queue is not one any more. -/
theorem queueAdd_spec (hr : Rounds m h xs) (hs : Rounds m n ys) (hd : (h :: xs).Disjoint (n :: ys)) :
    Rounds (queueAdd m h n) h (xs ++ ys) ∧ SameOff m (queueAdd m h n) (h :: xs ++ n :: ys) := by
  have ha := getLastD_mem h xs
  cases ys with
  | nil =>
    -- only n's own pointers are not what they were
    have hl := hr.prev_head
    have hf : m.next n = n := hs.next_head
    have hlast := hr.ends.2.1
    rw [List.disjoint_left] at hd
    have hsame : SameOff m (queueAdd m h n) [n] := by
      intro x hx
      simp [queueAdd, Function.update_apply, hl, hf]
      grind
    rw [List.append_nil]
    exact ⟨hr.sameOff hsame (by grind), fun x hx => hsame x (by grind)⟩
  | cons q ys =>
    have hb := getLastD_mem q ys
    have hap := hr.append hs (by simp) hd
    rw [queueAdd_eq hr hs]
    rw [List.headD_cons, List.getLastD_cons] at hap
    exact ⟨hap, ((SameOff.refl m _).link (by grind) (by grind)).link (by grind) (by grind)⟩

/-- A traversal visits what is in the queue, in order, and ends, when its body leaves the next
    pointers of the node it is on and of those behind it. -/
theorem queueForeach_eq {σ : Type} (links : σ → Links α) (body : σ → α → σ) {s : σ} (hr : Rounds (links s) h xs)
    (hkeep : ∀ pre q post s, xs = pre ++ q :: post →
      ∀ x ∈ q :: post, (links (body s q)).next x = (links s).next x) {fuel : Nat} (hf : xs.length < fuel) :
    queueForeach links body h fuel (queueHead (links s) h) s = some (xs.foldl body s) := by
  -- from the node behind `pre` on
  suffices hs : ∀ post pre s fuel, xs = pre ++ post → post.length < fuel →
      (∀ l q r, post = l ++ q :: r → (links s).next q = r.headD h) →
      queueForeach links body h fuel (post.headD h) s = some (post.foldl body s) by
    have hh : queueHead (links s) h = xs.headD h := hr.next_head
    rw [hh]
    refine hs xs [] s fuel rfl hf fun l q r hx => ?_
    subst hx
    exact hr.next_mid
  intro post
  induction post with
  | nil =>
    intro pre s fuel _ hlt _
    obtain ⟨k, rfl⟩ := Nat.exists_eq_add_of_lt hlt
    simp [queueForeach]
  | cons q post ih =>
    intro pre s fuel hx hlt hnext
    obtain ⟨k, rfl⟩ : ∃ k, fuel = k + 1 := ⟨fuel - 1, by simp at hlt; omega⟩
    have hq : q ≠ h := by
      have := hr.nodup
      grind
    have hkept := hkeep pre q post s hx
    rw [List.headD_cons, queueForeach, if_neg hq, hkept q List.mem_cons_self, hnext [] q post rfl, List.foldl_cons]
    refine ih (pre ++ [q]) (body s q) k (by simp [hx]) (by simp at hlt; omega) fun l x r hl => ?_
    rw [hkept x (by rw [hl]; simp), hnext (q :: l) x r (by rw [hl]; rfl)]

end OneQueue

/-! ## Any number of queues -/

/-- What each head has behind it; `none` if it is not one. -/
abbrev Lists (α : Type) := α → Option (List α)

/-- Each list is in its ring, and the rings are apart. -/
structure Holds (m : Links α) (A : Lists α) : Prop where
  rounds : ∀ h xs, A h = some xs → Rounds m h xs
  apart : ∀ g h xs ys, A g = some xs → A h = some ys → g ≠ h → (g :: xs).Disjoint (h :: ys)

/-- `q` is in no queue, or only the head of an empty one. -/
def Loose (A : Lists α) (q : α) : Prop := ∀ h xs, A h = some xs → q ∈ h :: xs → h = q ∧ xs = []

inductive Op (α : Type) where
  | init (q : α)
  | insertHead (h q : α)
  | insertTail (h q : α)
  /-- `h` is where `q` is; the macro is not told. -/
  | remove (h q : α)
  | add (h n : α)
  | split (h q n : α)
  | move (h n : α)
  /-- The two pointers of `q` are written by other code. -/
  | scribble (q next prev : α)

def exec (m : Links α) : Op α → Links α
  | .init q => queueInit m q
  | .insertHead h q => queueInsertHead m h q
  | .insertTail h q => queueInsertTail m h q
  | .remove _ q => queueRemove m q
  | .add h n => queueAdd m h n
  | .split h q n => queueSplit m h q n
  | .move h n => queueMove m h n
  | .scribble q next prev => (m.setNext q next).setPrev q prev

def onLists (A : Lists α) : Op α → Lists α
  | .init q => Function.update A q (some [])
  | .insertHead h q => Function.update (Function.update A q none) h ((A h).map (q :: ·))
  | .insertTail h q => Function.update (Function.update A q none) h ((A h).map (· ++ [q]))
  | .remove h q => Function.update A h ((A h).map (·.erase q))
  | .add h n => Function.update (Function.update A n none) h ((A h).bind fun xs => (A n).map (xs ++ ·))
  | .split h q n =>
    Function.update (Function.update A n ((A h).map (·.dropWhile (· ≠ q)))) h ((A h).map (·.takeWhile (· ≠ q)))
  | .move h n => Function.update (Function.update A n (A h)) h (some [])
  | .scribble .. => A

/-- The nodes are where the macro expects them. -/
def Allowed (A : Lists α) : Op α → Prop
  | .init q => Loose A q
  | .insertHead h q | .insertTail h q => (∃ xs, A h = some xs) ∧ Loose A q ∧ q ≠ h
  | .remove h q => ∃ xs, A h = some xs ∧ q ∈ xs
  | .add h n => (∃ xs, A h = some xs) ∧ (∃ ys, A n = some ys) ∧ h ≠ n
  | .split h q n => (∃ xs, A h = some xs ∧ q ∈ xs) ∧ Loose A n ∧ n ≠ h
  | .move h n => (∃ xs, A h = some xs) ∧ Loose A n ∧ n ≠ h
  | .scribble q _ _ => ∀ h xs, A h = some xs → q ∉ h :: xs

def step (s : Links α × Lists α) (o : Op α) : Option (Links α × Lists α) := some (exec s.1 o, onLists s.2 o)

variable {m m' : Links α} {A : Lists α} {h n q : α} {xs ys : List α}

/-- The queues of two heads change, on the nodes of `S`, and the others have no node there. -/
theorem Holds.change (hA : Holds m A) (n : α) {S : List α} (o1 : Option (List α)) {o2 : Option (List α)}
    (hs : SameOff m m' S)
    (hS : ∀ g zs, A g = some zs → g ≠ h → g ≠ n → ∀ x ∈ g :: zs, x ∉ S)
    (h1 : ∀ ys, n ≠ h → o1 = some ys → Rounds m' n ys ∧ n :: ys ⊆ S)
    (h2 : ∀ xs, o2 = some xs → Rounds m' h xs ∧ h :: xs ⊆ S)
    (hd : ∀ xs ys, o2 = some xs → o1 = some ys → n ≠ h → (h :: xs).Disjoint (n :: ys)) :
    Holds m' (Function.update (Function.update A n o1) h o2) := by
  -- a queue of the new lists is one of the two, or an old one
  have hcases : ∀ g zs, Function.update (Function.update A n o1) h o2 g = some zs →
      (g = h ∧ o2 = some zs) ∨ (g = n ∧ n ≠ h ∧ o1 = some zs) ∨ (g ≠ h ∧ g ≠ n ∧ A g = some zs) := by
    intro g zs hg
    simp only [Function.update_apply] at hg
    grind
  refine ⟨fun g zs hg => ?_, fun g g' zs zs' hg hg' hne => ?_⟩
  · rcases hcases g zs hg with ⟨rfl, ho⟩ | ⟨rfl, hnh, ho⟩ | ⟨hgh, hgn, ho⟩
    · exact (h2 zs ho).1
    · exact (h1 zs hnh ho).1
    · exact (hA.rounds g zs ho).sameOff hs (hS g zs ho hgh hgn)
  · have hcross : ∀ g zs g' zs', g' :: zs' ⊆ S → g ≠ h → g ≠ n → A g = some zs → (g :: zs).Disjoint (g' :: zs') :=
      fun g zs g' zs' hsub hgh hgn ho x hx hx' => hS g zs ho hgh hgn x hx (hsub hx')
    rcases hcases g zs hg with ⟨rfl, ho⟩ | ⟨rfl, hnh, ho⟩ | ⟨hgh, hgn, ho⟩
    · rcases hcases g' zs' hg' with ⟨rfl, ho'⟩ | ⟨rfl, hnh, ho'⟩ | ⟨hgh, hgn, ho'⟩
      · exact absurd rfl hne
      · exact hd zs zs' ho ho' hnh
      · exact List.disjoint_symm (hcross g' zs' _ zs (h2 zs ho).2 hgh hgn ho')
    · rcases hcases g' zs' hg' with ⟨rfl, ho'⟩ | ⟨rfl, -, ho'⟩ | ⟨hgh, hgn, ho'⟩
      · exact List.disjoint_symm (hd zs' zs ho' ho hnh)
      · exact absurd rfl hne
      · exact List.disjoint_symm (hcross g' zs' _ zs (h1 zs hnh ho).2 hgh hgn ho')
    · rcases hcases g' zs' hg' with ⟨rfl, ho'⟩ | ⟨rfl, hnh, ho'⟩ | ⟨hgh', hgn', ho'⟩
      · exact hcross g zs _ zs' (h2 zs' ho').2 hgh hgn ho
      · exact hcross g zs _ zs' (h1 zs' hnh ho').2 hgh hgn ho
      · exact hA.apart g g' zs zs' ho ho' hne

omit [DecidableEq α] in
theorem Holds.outside (hA : Holds m A) (hh : A h = some xs) {g : α} {zs : List α} (hg : A g = some zs) (hne : g ≠ h) :
    ∀ x ∈ g :: zs, x ∉ h :: xs :=
  fun _ hx hx' => hA.apart g h zs xs hg hh hne hx hx'

omit [DecidableEq α] in
theorem Loose.outside (hl : Loose A q) {g : α} {zs : List α} (hg : A g = some zs) (hne : g ≠ q) : q ∉ g :: zs :=
  fun hq => hne (hl g zs hg hq).1

/-- Of one head only. -/
theorem Holds.change_one (hA : Holds m A) {S : List α} {o : Option (List α)} (hs : SameOff m m' S)
    (hS : ∀ g zs, A g = some zs → g ≠ h → ∀ x ∈ g :: zs, x ∉ S)
    (h2 : ∀ xs, o = some xs → Rounds m' h xs ∧ h :: xs ⊆ S) : Holds m' (Function.update A h o) := by
  have := hA.change h o hs (fun g zs hg hgh _ => hS g zs hg hgh) (fun _ hne => absurd rfl hne) h2
    (fun _ _ _ _ hne => absurd rfl hne)
  rwa [Function.update_idem] at this

theorem init_holds (hA : Holds m A) (hl : Loose A q) : Holds (queueInit m q) (Function.update A q (some [])) := by
  obtain ⟨h1, h2⟩ := queueInit_spec m q
  refine hA.change_one h2 (fun g zs hg hne x hx => ?_) fun xs hxs => ?_
  · have := hl.outside hg hne
    grind
  · cases hxs
    exact ⟨h1, by simp⟩

/-- A node goes in at either end. -/
theorem insert_holds (hA : Holds m A) (hh : A h = some xs) (hl : Loose A q) {zs : List α}
    (hs : Rounds m' h zs ∧ SameOff m m' (q :: h :: xs)) (hz : zs ⊆ q :: xs) :
    Holds m' (Function.update (Function.update A q none) h (some zs)) := by
  refine hA.change q none hs.2 (fun g ys hg hgh hgq x hx => ?_) (fun ys _ ho => by cases ho) (fun ys ho => ?_)
    (fun _ _ _ ho => by cases ho)
  · have h1 := hA.outside hh hg hgh x hx
    have h2 := hl.outside hg hgq
    grind
  · cases ho
    exact ⟨hs.1, by grind⟩

theorem insertHead_holds (hA : Holds m A) (hh : A h = some xs) (hl : Loose A q) (hne : q ≠ h) :
    Holds (queueInsertHead m h q) (Function.update (Function.update A q none) h (some (q :: xs))) :=
  insert_holds hA hh hl (queueInsertHead_spec (hA.rounds h xs hh) (hl.outside hh (Ne.symm hne))) (by simp)

theorem insertTail_holds (hA : Holds m A) (hh : A h = some xs) (hl : Loose A q) (hne : q ≠ h) :
    Holds (queueInsertTail m h q) (Function.update (Function.update A q none) h (some (xs ++ [q]))) :=
  insert_holds hA hh hl (queueInsertTail_spec (hA.rounds h xs hh) (hl.outside hh (Ne.symm hne))) (by grind)

theorem remove_holds (hA : Holds m A) (hh : A h = some (xs ++ q :: ys)) :
    Holds (queueRemove m q) (Function.update A h (some (xs ++ ys))) := by
  obtain ⟨h1, h2⟩ := queueRemove_spec (hA.rounds h _ hh)
  refine hA.change_one h2 (fun g zs hg hne => hA.outside hh hg hne) fun zs hz => ?_
  cases hz
  exact ⟨h1, by grind⟩

theorem add_holds (hA : Holds m A) (hh : A h = some xs) (hn : A n = some ys) (hne : h ≠ n) :
    Holds (queueAdd m h n) (Function.update (Function.update A n none) h (some (xs ++ ys))) := by
  obtain ⟨h1, h2⟩ := queueAdd_spec (hA.rounds h xs hh) (hA.rounds n ys hn) (hA.apart h n xs ys hh hn hne)
  refine hA.change n none h2 (fun g zs hg hgh hgn x hx => ?_) (fun _ _ ho => by cases ho) (fun zs ho => ?_)
    (fun _ _ _ ho => by cases ho)
  · have h1 := hA.outside hh hg hgh x hx
    have h2 := hA.outside hn hg hgn x hx
    grind
  · cases ho
    exact ⟨h1, by grind⟩

/-- One queue becomes two. -/
theorem part_holds (xs ys : List α) (hA : Holds m A) (hh : A h = some (xs ++ ys)) (hl : Loose A n) (hne : n ≠ h)
    (hs : Rounds m' h xs ∧ Rounds m' n ys ∧ SameOff m m' (n :: h :: (xs ++ ys))) :
    Holds m' (Function.update (Function.update A n (some ys)) h (some xs)) := by
  have hnh := hl.outside hh (Ne.symm hne)
  have hd := (hA.rounds h _ hh).nodup
  refine hA.change n _ hs.2.2 (fun g zs hg hgh hgn x hx => ?_) (fun zs _ ho => ?_) (fun zs ho => ?_) fun zs ws ho ho' _ => ?_
  · have h1 := hA.outside hh hg hgh x hx
    have h2 := hl.outside hg hgn
    grind
  · cases ho
    exact ⟨hs.2.1, by grind⟩
  · cases ho
    exact ⟨hs.1, by grind⟩
  · cases ho
    cases ho'
    intro x hx hx'
    grind

theorem split_holds (hA : Holds m A) (hh : A h = some (xs ++ q :: ys)) (hl : Loose A n) (hne : n ≠ h) :
    Holds (queueSplit m h q n) (Function.update (Function.update A n (some (q :: ys))) h (some xs)) :=
  part_holds xs (q :: ys) hA hh hl hne (queueSplit_spec (hA.rounds h _ hh) (hl.outside hh (Ne.symm hne)))

theorem move_holds (hA : Holds m A) (hh : A h = some xs) (hl : Loose A n) (hne : n ≠ h) :
    Holds (queueMove m h n) (Function.update (Function.update A n (some xs)) h (some [])) :=
  part_holds [] xs hA hh hl hne (queueMove_spec (hA.rounds h xs hh) (hl.outside hh (Ne.symm hne)))

theorem scribble_holds (hA : Holds m A) (hq : ∀ h xs, A h = some xs → q ∉ h :: xs) (a b : α) :
    Holds ((m.setNext q a).setPrev q b) A := by
  refine ⟨fun h xs hh => (hA.rounds h xs hh).congr fun x hx => ?_, hA.apart⟩
  have hne : x ≠ q := fun e => hq h xs hh (e ▸ hx)
  simp [hne]

theorem step_holds (hA : Holds m A) {o : Op α} (ho : Allowed A o) : Holds (exec m o) (onLists A o) := by
  cases o with
  | init q => exact init_holds hA ho
  | insertHead h q =>
    obtain ⟨⟨xs, hh⟩, hl, hne⟩ := ho
    simpa [exec, onLists, hh] using insertHead_holds hA hh hl hne
  | insertTail h q =>
    obtain ⟨⟨xs, hh⟩, hl, hne⟩ := ho
    simpa [exec, onLists, hh] using insertTail_holds hA hh hl hne
  | remove h q =>
    obtain ⟨zs, hh, hq⟩ := ho
    obtain ⟨xs, ys, rfl, hx⟩ := List.eq_append_cons_of_mem hq
    simpa [exec, onLists, hh, List.erase_append_right _ hx] using remove_holds hA hh
  | add h n =>
    obtain ⟨⟨xs, hh⟩, ⟨ys, hn⟩, hne⟩ := ho
    simpa [exec, onLists, hh, hn] using add_holds hA hh hn hne
  | split h q n =>
    obtain ⟨⟨zs, hh, hq⟩, hl, hne⟩ := ho
    obtain ⟨xs, ys, rfl, hx⟩ := List.eq_append_cons_of_mem hq
    have hp : ∀ x ∈ xs, decide (x ≠ q) = true := fun x hm => decide_eq_true fun e => hx (e ▸ hm)
    have hsplit := split_holds hA hh hl hne
    simp only [exec, onLists, hh, Option.map_some, List.takeWhile_append_of_pos hp, List.dropWhile_append_of_pos hp]
    simpa using hsplit
  | move h n =>
    obtain ⟨⟨xs, hh⟩, hl, hne⟩ := ho
    simpa [exec, onLists, hh] using move_holds hA hh hl hne
  | scribble q a b => exact scribble_holds hA ho a b

/-- In whatever memory it began, without a queue. -/
theorem holds_always {m0 : Links α} {s : Links α × Lists α}
    (hr : Reach step (fun s o => Allowed s.2 o) (m0, fun _ => none) s) : Holds s.1 s.2 := by
  refine Reach.invariant (P := fun s => Holds s.1 s.2) ⟨(fun _ _ h => by cases h), (fun _ _ _ _ h => by cases h)⟩ ?_ hr
  intro s o s' hA ho he
  cases he
  exact step_holds hA ho

/-- What the macros that only read tell of a queue. -/
structure Seen (m : Links α) (h : α) (xs : List α) : Prop where
  empty : queueEmpty m h = true ↔ xs = []
  head : queueHead m h = xs.headD h
  foreach : ∀ {σ : Type} (body : σ → α → σ) (s : σ) (fuel : Nat), xs.length < fuel →
    queueForeach (fun _ => m) body h fuel (queueHead m h) s = some (xs.foldl body s)
  apart : (h :: xs).Nodup

theorem seen_of_rounds (hr : Rounds m h xs) : Seen m h xs where
  empty := queueEmpty_iff hr
  head := hr.next_head
  foreach body _ _ hf := queueForeach_eq (fun _ => m) body hr (fun _ _ _ _ _ _ _ => rfl) hf
  apart := hr.nodup

theorem reads_lists {m0 : Links α} {s : Links α × Lists α}
    (hr : Reach step (fun s o => Allowed s.2 o) (m0, fun _ => none) s) {h : α} {xs : List α} (hh : s.2 h = some xs) :
    Seen s.1 h xs ∧ ∀ g ys, s.2 g = some ys → g ≠ h → (g :: ys).Disjoint (h :: xs) :=
  ⟨seen_of_rounds ((holds_always hr).rounds h xs hh), fun g ys hg hne => (holds_always hr).apart g h ys xs hg hh hne⟩

def unset : Links Nat := ⟨fun _ => 9, fun _ => 9⟩

/-- A node goes in, the queue is moved under another head, and a node that is in none is overwritten. -/
theorem reads_moved : ∃ s : Links Nat × Lists Nat,
    Reach step (fun s o => Allowed s.2 o) (unset, fun _ => none) s ∧ s.2 2 = some [1] ∧ Seen s.1 2 [1] := by
  let A1 : Lists Nat := onLists (fun _ => none) (.init 0)
  let A2 : Lists Nat := onLists A1 (.insertTail 0 1)
  let A3 : Lists Nat := onLists A2 (.move 0 2)
  have a1 : Allowed (fun _ => none) (Op.init 0) := fun h xs hh => by cases hh
  have a2 : Allowed A1 (.insertTail 0 1) := by
    refine ⟨⟨[], rfl⟩, fun h xs hh hq => ?_, by decide⟩
    simp [A1, onLists, Function.update_apply] at hh
    grind
  have a3 : Allowed A2 (.move 0 2) := by
    refine ⟨⟨[1], rfl⟩, fun h xs hh hq => ?_, by decide⟩
    simp [A2, A1, onLists, Function.update_apply] at hh
    grind
  have a4 : Allowed A3 (.scribble 7 0 0) := by
    intro h xs hh hq
    simp [A3, A2, A1, onLists, Function.update_apply] at hh
    grind
  have h0 : Reach step (fun s o => Allowed s.2 o) (unset, fun _ => none) (unset, fun _ => none) := .init
  have hr := (((h0.step _ a1 rfl).step _ a2 rfl).step _ a3 rfl).step _ a4 rfl
  exact ⟨_, hr, rfl, (reads_lists hr rfl).1⟩

end UvWrapper.Utils.Queue
