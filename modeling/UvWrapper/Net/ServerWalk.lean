/-
  UvWrapper.Net.ServerWalk — tcp_server_print_all_conn on a thread that is not the loop's, as
  samples/test_tcp_server_client.c calls it: a walk along the ring of sessions while the loop thread
  inserts and removes nodes, store by store.

  The loop thread: on_new_connection and on_close_connection, one after another, each the stores of
  its macros, in their order (`Store`), and then free(handle) and free(conn); only it writes. The
  other thread: the loads of QUEUE_FOREACH, and between them the body's, of conn->session and of the
  session (uv_tcp_getpeername). The steps of the two are in any order, and each sees the other's
  stores in that order. Nobody closes the server meanwhile.

  A node is in the ring for the walk from the store into its neighbour's next pointer on (`publish`),
  until the one that goes around it (`unlinkNext`); the prev pointers are behind then. Proved: as
  long as no session is freed that the walk has still to read, and no connection under its cursor, what
  the walk reads is there, it comes to no connection twice, and has come, at its end, to every one
  that was and is there (`walked_iff`); once one is freed there, the walk comes to read it.
-/

import UvWrapper.Net.BroadcastProofs
import UvWrapper.Utils.Queue

namespace UvWrapper.Net.ServerWalk

open UvWrapper.Lib UvWrapper.Lib.Links UvWrapper.Lib.Trace
open UvWrapper.Utils.Queue

/-! ## State -/

/-- `none` is the head in the tcp_server_t, `some n` the node in connection `n`. -/
abbrev Node := Option Nat

inductive ConnSt where
  | absent
  | live
  /-- conn->session is freed, the connection is not. -/
  | bare
  | freed
  deriving DecidableEq, Repr

/-- The stores of QUEUE_INIT and QUEUE_INSERT_TAIL, and of QUEUE_REMOVE. -/
inductive Store where
  | initNext
  | initPrev
  | tailNext
  | tailPrev
  | publish
  | headPrev
  | unlinkNext
  | unlinkPrev
  deriving DecidableEq, Repr

inductive Writer where
  | idle
  | insert (n : Nat) (todo : List Store)
  | remove (n : Nat) (todo : List Store)
  /-- At free(conn). -/
  | freeing (n : Nat)
  deriving DecidableEq, Repr

inductive Reader where
  | start
  /-- `q` is the node of connection `n`: at the body. -/
  | node (n : Nat)
  /-- In uv_tcp_getpeername, with conn->session. -/
  | peer (n : Nat)
  /-- At `q = QUEUE_NEXT(q)`. -/
  | advance (n : Nat)
  | done
  deriving DecidableEq, Repr

def Reader.cursor : Reader → Option Nat
  | .node n | .peer n | .advance n => some n
  | .start | .done => none

/-- The connection whose session the body has still to read. -/
def Reader.session : Reader → Option Nat
  | .node n | .peer n => some n
  | .start | .advance _ | .done => none

structure St where
  links : Links Node
  conn : Nat → ConnSt
  writer : Writer
  reader : Reader
  /-- The connections that the walk has come to. -/
  seen : List Nat

/-! ## Steps -/

def Store.exec (m : Links Node) (q : Node) : Store → Links Node
  | .initNext => m.setNext q q
  | .initPrev => m.setPrev q q
  | .tailNext => m.setNext q none
  | .tailPrev => m.setPrev q (m.prev none)
  | .publish => m.setNext (m.prev q) q
  | .headPrev => m.setPrev none q
  | .unlinkNext => m.setNext (m.prev q) (m.next q)
  | .unlinkPrev => m.setPrev (m.next q) (m.prev q)

def insertStores : List Store := [.initNext, .initPrev, .tailNext, .tailPrev, .publish, .headPrev]

def removeStores : List Store := [.unlinkNext, .unlinkPrev]

/-- The stores one after another are the macros. -/
theorem stores_eq (m : Links Node) (q : Node) :
    insertStores.foldl (Store.exec · q) m = queueInsertTail (queueInit m q) none q ∧
      removeStores.foldl (Store.exec · q) m = queueRemove m q :=
  ⟨rfl, rfl⟩

/-- The loop thread's next store, or a free behind the last. -/
def writerStep (s : St) : Option St :=
  match s.writer with
  | .idle => none
  | .insert n (st :: todo) => some { s with links := st.exec s.links (some n), writer := .insert n todo }
  | .insert _ [] => some { s with writer := .idle }
  | .remove n (st :: todo) => some { s with links := st.exec s.links (some n), writer := .remove n todo }
  | .remove n [] => some { s with conn := Function.update s.conn n .bare, writer := .freeing n }
  | .freeing n => some { s with conn := Function.update s.conn n .freed, writer := .idle }

def Reader.of : Node → Reader
  | some n => .node n
  | none => .done

def ConnSt.there (c : ConnSt) : Bool := c = .live || c = .bare

/-- A step that reads connection `n`, its node or its session is not taken when that is freed. -/
def readerStep (s : St) : Option St :=
  match s.reader with
  | .start => some { s with reader := Reader.of (s.links.next none) }
  | .node n => if (s.conn n).there then some { s with reader := .peer n } else none
  | .peer n => if s.conn n = .live then some { s with seen := s.seen ++ [n], reader := .advance n } else none
  | .advance n => if (s.conn n).there then some { s with reader := Reader.of (s.links.next (some n)) } else none
  | .done => none

inductive Ev where
  /-- on_new_connection, with connection `n` allocated; on_close_connection. -/
  | accept (n : Nat)
  | close (n : Nat)
  | writer
  | reader
  deriving DecidableEq, Repr

def step (s : St) : Ev → Option St
  | .accept n =>
    if s.writer = .idle ∧ s.conn n = .absent then
      some { s with conn := Function.update s.conn n .live, writer := .insert n insertStores }
    else none
  | .close n => if s.writer = .idle ∧ s.conn n = .live then some { s with writer := .remove n removeStores } else none
  | .writer => writerStep s
  | .reader => readerStep s

/-! ## The walk -/

/-- Nothing under way, and the ring is of `l`. -/
structure Start (l : List Nat) (s : St) : Prop where
  rounds : Rounds s.links none (l.map some)
  live : ∀ n, s.conn n = .live ↔ n ∈ l
  bare : ∀ n, s.conn n ≠ .bare
  writer : s.writer = .idle
  reader : s.reader = .start
  seen : s.seen = []

/-- The session that the body has still to read is not freed, nor the connection under the cursor. -/
def apart (s : St) : Ev → Bool
  | .writer =>
    match s.writer with
    | .remove n [] => s.reader.session != some n
    | .freeing n => s.reader.cursor != some n
    | _ => true
  | _ => true

def Writer.removes (w : Writer) (n : Nat) : Prop := (∃ todo, w = .remove n todo) ∨ w = .freeing n

/-- A walk over `l` and what came to it: what it has under its cursor is there, nothing is seen twice, and at
    its end all is seen that was there and is there. -/
structure Walked (l : List Nat) (s : St) : Prop where
  cursor : ∀ n, s.reader.cursor = some n → (s.conn n).there
  session : ∀ n, s.reader.session = some n → s.conn n = .live
  once : s.seen.Nodup
  all : s.reader = .done → ∀ n ∈ l, s.conn n = .live → ¬ s.writer.removes n → n ∈ s.seen

/-! ## The ring between two stores -/

/-- A connection that is live and not in the ring: not yet, or not any more. -/
def Writer.outside : Writer → Option Nat
  | .idle => none
  | .insert n todo => if .publish ∈ todo then some n else none
  | .remove n todo => if .unlinkNext ∈ todo then none else some n
  | .freeing n => some n

/-- The ring is of `l`, with what has been stored of the macro under way. -/
inductive Phase (l : List Nat) (m : Links Node) : Writer → Prop
  | idle (hr : Rounds m none (l.map some)) : Phase l m .idle
  | fresh (n : Nat) (k : Nat) (hr : Rounds m none (l.map some)) (hn : n ∉ l) (hk : k < 3) :
      Phase l m (.insert n (insertStores.drop k))
  | next (n : Nat) (hr : Rounds m none (l.map some)) (hn : n ∉ l) (h1 : m.next (some n) = none) :
      Phase l m (.insert n [.tailPrev, .publish, .headPrev])
  | ready (n : Nat) (hr : Rounds m none (l.map some)) (hn : n ∉ l) (h1 : m.next (some n) = none)
      (h2 : m.prev (some n) = m.prev none) : Phase l m (.insert n [.publish, .headPrev])
  | published (n : Nat) (hr : Rounds (Store.headPrev.exec m (some n)) none (l.map some)) :
      Phase l m (.insert n [.headPrev])
  | inserted (n : Nat) (hr : Rounds m none (l.map some)) : Phase l m (.insert n [])
  | removing (n : Nat) (hr : Rounds m none (l.map some)) (hn : n ∈ l) : Phase l m (.remove n removeStores)
  | unlinked (n : Nat) (hr : Rounds (Store.unlinkPrev.exec m (some n)) none (l.map some)) (hn : n ∉ l) :
      Phase l m (.remove n [.unlinkPrev])
  | removed (n : Nat) (hr : Rounds m none (l.map some)) (hn : n ∉ l) : Phase l m (.remove n [])
  | freeing (n : Nat) (hr : Rounds m none (l.map some)) (hn : n ∉ l) : Phase l m (.freeing n)

variable {m : Links Node} {w : Writer} {l l0 pre post : List Nat} {n : Nat} {s s' : St}

/-- Only prev pointers are behind. -/
theorem Phase.forward (hp : Phase l m w) : ∃ m', m'.next = m.next ∧ Rounds m' none (l.map some) := by
  cases hp with
  | published n hr => exact ⟨Store.headPrev.exec m (some n), rfl, hr⟩
  | unlinked n hr hn => exact ⟨Store.unlinkPrev.exec m (some n), rfl, hr⟩
  | idle hr => exact ⟨m, rfl, hr⟩
  | fresh n k hr hn hk => exact ⟨m, rfl, hr⟩
  | next n hr hn h1 => exact ⟨m, rfl, hr⟩
  | ready n hr hn h1 h2 => exact ⟨m, rfl, hr⟩
  | inserted n hr => exact ⟨m, rfl, hr⟩
  | removing n hr hn => exact ⟨m, rfl, hr⟩
  | removed n hr hn => exact ⟨m, rfl, hr⟩
  | freeing n hr hn => exact ⟨m, rfl, hr⟩

theorem Phase.next_head (hp : Phase l m w) : m.next none = (l.map some).headD none := by
  obtain ⟨m', hm, hr⟩ := hp.forward
  rw [← hm]
  exact hr.next_head

theorem Phase.next_node (hp : Phase (pre ++ n :: post) m w) : m.next (some n) = (post.map some).headD none := by
  obtain ⟨m', hm, hr⟩ := hp.forward
  rw [List.map_append, List.map_cons] at hr
  rw [← hm]
  exact hr.next_mid

theorem Phase.nodup (hp : Phase l m w) : l.Nodup := by
  obtain ⟨m', -, hr⟩ := hp.forward
  exact List.Nodup.of_map some (List.nodup_cons.mp hr.nodup).2

theorem Phase.outside (hp : Phase l m w) (ho : w.outside = some n) : n ∉ l := by
  cases hp with
  | idle hr => cases ho
  | fresh k j hr hn hk =>
    have hpub : Store.publish ∈ insertStores.drop j := by
      have : j = 0 ∨ j = 1 ∨ j = 2 := by omega
      rcases this with rfl | rfl | rfl <;> decide
    rw [Writer.outside, if_pos hpub] at ho
    cases ho
    exact hn
  | next k hr hn h1 => cases ho; exact hn
  | ready k hr hn h1 h2 => cases ho; exact hn
  | published k hr => cases ho
  | inserted k hr => cases ho
  | removing k hr hn => cases ho
  | unlinked k hr hn => cases ho; exact hn
  | removed k hr hn => cases ho; exact hn
  | freeing k hr hn => cases ho; exact hn

/-- A store to a node that is in no ring. -/
theorem rounds_apart (hr : Rounds m none (l.map some)) (hn : n ∉ l) (st : Store) (hs : st ∈ insertStores.take 4) :
    Rounds (st.exec m (some n)) none (l.map some) := by
  refine hr.congr fun x hx => ?_
  have hne : x ≠ some n := fun e => by subst e; simp [hn] at hx
  simp only [insertStores, List.take, List.mem_cons, List.not_mem_nil, or_false] at hs
  rcases hs with rfl | rfl | rfl | rfl <;> simp [Store.exec, hne]

/-- The publishing store and the one behind it are the insertion, when the node is ready. -/
theorem publish_rounds (hr : Rounds m none (l.map some)) (hn : n ∉ l) (h1 : m.next (some n) = none)
    (h2 : m.prev (some n) = m.prev none) :
    Rounds (Store.headPrev.exec (Store.publish.exec m (some n)) (some n)) none ((l ++ [n]).map some) := by
  have hnode : some n ∉ none :: l.map some := by simpa using hn
  have hins := (queueInsertTail_spec hr hnode).1
  have h3 : m.setNext (some n) none = m := by
    ext x
    · simp [← h1]
    · rfl
  have h4 : m.setPrev (some n) (m.prev none) = m := by
    ext x
    · rfl
    · simp [← h2]
  have heq : queueInsertTail m none (some n) = Store.headPrev.exec (Store.publish.exec m (some n)) (some n) := by
    simp only [queueInsertTail, h3, h4, Store.exec]
  rw [List.map_append, List.map_singleton, ← heq]
  exact hins

theorem unlink_rounds (hr : Rounds m none ((pre ++ n :: post).map some)) :
    Rounds (Store.unlinkPrev.exec (Store.unlinkNext.exec m (some n)) (some n)) none ((pre ++ post).map some) := by
  rw [List.map_append, List.map_cons] at hr
  rw [List.map_append]
  exact (queueRemove_spec hr).1

/-! ## The invariant -/

/-- Where the walk's node is: in the ring, or taken out of it and not freed yet. -/
inductive Place (l : List Nat) (s : St) (n : Nat) (pre post : List Nat) : Prop
  | inside (h : l = pre ++ n :: post)
  | out (h : l = pre ++ post) (hw : s.writer.removes n) (ho : s.writer.outside = some n)
      (hn : s.links.next (some n) = (post.map some).headD none)

/-- A node in the ring stays where it is; one that was taken out has still its pointer. -/
theorem Place.keep (hp : Place l s n pre post)
    (h : s.writer.removes n → s.writer.outside = some n →
      s'.writer.removes n ∧ s'.writer.outside = some n ∧ s'.links.next (some n) = s.links.next (some n)) :
    Place l s' n pre post := by
  cases hp with
  | inside hl => exact .inside hl
  | out hl hw ho hn =>
    obtain ⟨h1, h2, h3⟩ := h hw ho
    exact .out hl h1 h2 (h3.trans hn)

structure Inv (l0 l : List Nat) (s : St) : Prop where
  phase : Phase l s.links s.writer
  there : ∀ n, (s.conn n).there ↔ n ∈ l ∨ s.writer.outside = some n
  bare : ∀ n, s.conn n = .bare ↔ s.writer = .freeing n
  once : s.seen.Nodup
  known : ∀ n ∈ l0 ++ s.seen, s.conn n ≠ .absent
  /-- A node that is not in the ring yet is a new one. -/
  new : ∀ n todo, s.writer = .insert n todo → s.writer.outside = some n → n ∉ l0 ++ s.seen
  start : s.reader = .start → s.seen = []
  cursor : ∀ n, s.reader.cursor = some n → ∃ pre post, Place l s n pre post ∧ (∀ x ∈ pre, x ∈ s.seen) ∧
    (∀ x ∈ post, x ∉ s.seen) ∧ (n ∈ s.seen ↔ s.reader = .advance n)
  session : ∀ n, s.reader.session = some n → s.writer ≠ .freeing n
  done : s.reader = .done → ∀ n ∈ l0, n ∈ l → n ∈ s.seen

theorem ConnSt.there_iff {c : ConnSt} : c.there ↔ c = .live ∨ c = .bare := by
  cases c <;> decide

theorem start_inv (h : Start l s) : Inv l l s where
  phase := by rw [h.writer]; exact .idle h.rounds
  there n := by rw [h.writer, ConnSt.there_iff, h.live]; simp [Writer.outside, h.bare]
  bare n := by rw [h.writer]; simp [h.bare]
  once := by rw [h.seen]; exact List.nodup_nil
  known n hn := by
    rw [h.seen, List.append_nil] at hn
    rw [(h.live n).mpr hn]
    simp
  new n todo hw := by rw [h.writer] at hw; cases hw
  start _ := h.seen
  cursor n hn := by rw [h.reader] at hn; cases hn
  session n hn := by rw [h.reader] at hn; cases hn
  done hd := by rw [h.reader] at hd; cases hd

theorem Inv.live (hi : Inv l0 l s) (n : Nat) :
    s.conn n = .live ↔ (n ∈ l ∨ s.writer.outside = some n) ∧ s.writer ≠ .freeing n := by
  rw [← hi.there, ConnSt.there_iff, Ne, ← hi.bare]
  grind

theorem Reader.session_cursor {r : Reader} (h : r.session = some n) : r.cursor = some n := by
  cases r <;> first | exact h | cases h

/-- What the walk promises. -/
theorem Inv.walked (hi : Inv l0 l s) : Walked l0 s := by
  have hthere : ∀ n, s.reader.cursor = some n → n ∈ l ∨ s.writer.outside = some n := fun n hn => by
    obtain ⟨pre, post, hp, -⟩ := hi.cursor n hn
    cases hp with
    | inside h => exact .inl (by rw [h]; simp)
    | out h hw ho hnext => exact .inr ho
  refine ⟨fun n hn => (hi.there n).mpr (hthere n hn), fun n hn => ?_, hi.once, fun hd n hn hl hw => ?_⟩
  · exact (hi.live n).mpr ⟨hthere n (Reader.session_cursor hn), hi.session n hn⟩
  · rcases ((hi.live n).mp hl).1 with h | h
    · exact hi.done hd n hn h
    · cases hwr : s.writer with
      | idle => rw [hwr] at h; cases h
      | insert k todo =>
        have hk : k = n := by
          rw [hwr] at h
          simp only [Writer.outside] at h
          split at h
          · exact Option.some.inj h
          · cases h
        subst hk
        exact absurd (List.mem_append_left _ hn) (hi.new k todo hwr h)
      | remove k todo =>
        have hk : k = n := by
          rw [hwr] at h
          simp only [Writer.outside] at h
          split at h
          · cases h
          · exact Option.some.inj h
        exact absurd (.inl ⟨todo, by rw [hwr, hk]⟩) hw
      | freeing k =>
        rw [hwr] at h
        cases h
        exact absurd (.inr hwr) hw

/-! ## The walk's steps -/

/-- The cursor goes on to what a node, or the head, has next, with all before it seen. -/
theorem Inv.goes (hi : Inv l0 l s) (pre : List Nat) (hl : l = pre ++ post) (hpre : ∀ x ∈ pre, x ∈ s.seen)
    (hpost : ∀ x ∈ post, x ∉ s.seen) :
    Inv l0 l { s with reader := Reader.of ((post.map some).headD none) } := by
  cases post with
  | nil =>
    refine { hi with start := fun h => (by cases h), cursor := fun n h => (by cases h)
                     session := fun n h => (by cases h), done := fun _ n _ hn => ?_ }
    rw [hl, List.append_nil] at hn
    exact hpre n hn
  | cons x post =>
    have hx : s.writer.outside ≠ some x := fun h => hi.phase.outside h (by rw [hl]; simp)
    refine { hi with start := fun h => (by cases h), cursor := fun n h => ?_, session := fun n h hw => ?_,
                     done := fun h => (by cases h) }
    on_goal 2 => cases h; exact hx (by rw [show s.writer = .freeing x from hw]; rfl)
    cases h
    refine ⟨pre, post, .inside hl, hpre, fun y hy => hpost y (List.mem_cons_of_mem _ hy), fun h => ?_,
      fun h => by cases h⟩
    exact absurd h (hpost x List.mem_cons_self)

/-- The walk's node is not among those behind it. -/
theorem Inv.cursor_behind (hi : Inv l0 l s) (hp : Place l s n pre post) : n ∉ post := by
  have hnd := hi.phase.nodup
  cases hp with
  | inside h => subst h; grind
  | out h hw ho hnext =>
    have := hi.phase.outside ho
    subst h
    grind

theorem Inv.loads (hi : Inv l0 l s) (hr : s.reader = .node n) : Inv l0 l { s with reader := .peer n } := by
  obtain ⟨pre, post, hp, hpre, hpost, hn⟩ := hi.cursor n (by rw [hr]; rfl)
  have hs := hi.session n (by rw [hr]; rfl)
  refine { hi with start := fun h => (by cases h), cursor := fun x hx => ?_, session := fun x hx => ?_,
                   done := fun h => (by cases h) }
  · cases hx
    refine ⟨pre, post, hp.keep fun hw ho => ⟨hw, ho, rfl⟩, hpre, hpost, fun h => ?_, fun h => by cases h⟩
    have := hn.mp h
    rw [hr] at this
    cases this
  · cases hx
    exact hs

theorem Inv.sees (hi : Inv l0 l s) (hr : s.reader = .peer n) (hlive : s.conn n = .live) :
    Inv l0 l { s with seen := s.seen ++ [n], reader := .advance n } := by
  obtain ⟨pre, post, hp, hpre, hpost, hn⟩ := hi.cursor n (by rw [hr]; rfl)
  have hns : n ∉ s.seen := fun h => by
    have := hn.mp h
    rw [hr] at this
    cases this
  refine ⟨hi.phase, hi.there, hi.bare, nodup_snoc hi.once hns, fun x hx => ?_, fun x todo hw ho hx => ?_,
    fun h => (by cases h), fun x hx => ?_, fun x hx => (by cases hx), fun h => (by cases h)⟩
  · rw [← List.append_assoc, mem_snoc] at hx
    rcases hx with hx | rfl
    · exact hi.known x hx
    · rw [hlive]; simp
  · rw [← List.append_assoc, mem_snoc] at hx
    rcases hx with hx | rfl
    · exact hi.new x todo hw ho hx
    · -- the walk's node is in the ring or being taken out
      cases hp with
      | inside h => exact hi.phase.outside ho (by rw [h]; simp)
      | out h hw' ho' hnext =>
        rcases hw' with ⟨todo', hw'⟩ | hw' <;> rw [show s.writer = .insert x todo from hw] at hw' <;> cases hw'
  · cases hx
    refine ⟨pre, post, hp.keep fun hw ho => ⟨hw, ho, rfl⟩, fun y hy => List.mem_append_left _ (hpre y hy), fun y hy => ?_,
      by simp⟩
    rw [mem_snoc, not_or]
    exact ⟨hpost y hy, fun e => hi.cursor_behind hp (e ▸ hy)⟩

theorem readerStep_inv (hi : Inv l0 l s) (h : readerStep s = some s') : Inv l0 l s' := by
  unfold readerStep at h
  cases hr : s.reader with
  | start =>
    rw [hr] at h
    simp only [Option.some.injEq] at h
    subst h
    rw [hi.phase.next_head]
    exact hi.goes [] rfl (fun _ hx => by cases hx) fun x _ => by rw [hi.start hr]; simp
  | node n =>
    simp only [hr] at h
    split at h <;> cases h
    exact hi.loads hr
  | peer n =>
    simp only [hr] at h
    split at h
    · rename_i hlive
      cases h
      exact hi.sees hr hlive
    · cases h
  | advance n =>
    simp only [hr] at h
    split at h
    · cases h
      obtain ⟨pre, post, hp, hpre, hpost, hn⟩ := hi.cursor n (by rw [hr]; rfl)
      cases hp with
      | inside hl =>
        have hph := hi.phase
        rw [hl] at hph
        rw [hph.next_node]
        refine hi.goes (pre ++ [n]) (by simpa using hl) (fun x hx => ?_) hpost
        rcases List.mem_append.mp hx with hx | hx
        · exact hpre x hx
        · rw [List.mem_singleton.mp hx]; exact hn.mpr hr
      | out hl hw ho hnext =>
        rw [hnext]
        exact hi.goes pre hl hpre hpost
    · cases h
  | done => rw [hr] at h; cases h

/-! ## The loop thread's steps -/

theorem accept_inv (hi : Inv l0 l s) (hw : s.writer = .idle) (hn : s.conn n = .absent) :
    Inv l0 l { s with conn := Function.update s.conn n .live, writer := .insert n insertStores } := by
  have hph := hi.phase
  rw [hw] at hph
  have hthere := hi.there
  have hbare := hi.bare
  rw [hw] at hthere hbare
  have hnl : n ∉ l := fun h => by
    have := (hi.there n).mpr (.inl h)
    rw [hn] at this
    cases this
  have hnew : n ∉ l0 ++ s.seen := fun h => hi.known n h hn
  cases hph with
  | idle hr =>
    refine ⟨.fresh n 0 hr hnl (by omega), fun x => ?_, fun x => ?_, hi.once, fun x hx => ?_, fun x todo hx _ => ?_,
      hi.start, fun x hx => ?_, (fun x _ h => by cases h), hi.done⟩
    · by_cases e : x = n
      · subst e; simp [Writer.outside, insertStores, ConnSt.there]
      · simpa [e, Ne.symm e, Writer.outside, insertStores] using hthere x
    · by_cases e : x = n
      · subst e; simp
      · simpa [e] using hbare x
    · have : x ≠ n := fun e => hnew (e ▸ hx)
      simpa [this] using hi.known x hx
    · cases hx
      exact hnew
    · obtain ⟨pre, post, hp, h⟩ := hi.cursor x hx
      exact ⟨pre, post, hp.keep fun _ ho => (by rw [hw] at ho; cases ho), h⟩

theorem close_inv (hi : Inv l0 l s) (hw : s.writer = .idle) (hn : s.conn n = .live) :
    Inv l0 l { s with writer := .remove n removeStores } := by
  have hph := hi.phase
  rw [hw] at hph
  have hthere := hi.there
  have hbare := hi.bare
  rw [hw] at hthere hbare
  have hnl : n ∈ l := ((hthere n).mp (by rw [hn]; rfl)).resolve_right fun h => by cases h
  cases hph with
  | idle hr =>
    refine ⟨.removing n hr hnl, fun x => ?_, fun x => ?_, hi.once, hi.known, (fun x todo hx => by cases hx), hi.start,
      fun x hx => ?_, (fun x _ h => by cases h), hi.done⟩
    · simpa [Writer.outside, removeStores] using hthere x
    · simpa using hbare x
    · obtain ⟨pre, post, hp, h⟩ := hi.cursor x hx
      exact ⟨pre, post, hp.keep fun _ ho => (by rw [hw] at ho; cases ho), h⟩

/-- A store that the walk cannot see. -/
theorem Inv.silent (hi : Inv l0 l s) {w : Writer} (hph : Phase l m w) (ho : w.outside = s.writer.outside)
    (hins : ∀ n todo, w = .insert n todo → ∃ todo', s.writer = .insert n todo')
    (hfree : ∀ n, w ≠ .freeing n ∧ s.writer ≠ .freeing n)
    (hrem : ∀ n, s.writer.removes n → w.removes n ∧ m.next (some n) = s.links.next (some n)) :
    Inv l0 l { s with links := m, writer := w } := by
  refine ⟨hph, fun x => ?_, fun x => ?_, hi.once, hi.known, fun x todo hx hx' => ?_, hi.start, fun x hx => ?_,
    fun x _ => (hfree x).1, hi.done⟩
  · rw [hi.there x, ho]
  · rw [hi.bare x]
    simp [hfree x]
  · obtain ⟨todo', hw⟩ := hins x todo hx
    exact hi.new x todo' hw (ho ▸ hx')
  · obtain ⟨pre, post, hp, h⟩ := hi.cursor x hx
    refine ⟨pre, post, hp.keep fun hw' ho' => ?_, h⟩
    obtain ⟨h1, h2⟩ := hrem x hw'
    exact ⟨h1, ho ▸ ho', h2⟩

/-- The node comes in, at the end. -/
theorem publish_inv (hi : Inv l0 l s) (hw : s.writer = .insert n [.publish, .headPrev])
    (hr : Rounds s.links none (l.map some)) (h1 : s.links.next (some n) = none)
    (h2 : s.links.prev (some n) = s.links.prev none) :
    Inv l0 (l ++ [n]) { s with links := Store.publish.exec s.links (some n), writer := .insert n [.headPrev] } := by
  have ho : s.writer.outside = some n := by rw [hw]; rfl
  have hnl := hi.phase.outside ho
  have hnew := hi.new n _ hw ho
  rw [List.mem_append, not_or] at hnew
  refine ⟨.published n (publish_rounds hr hnl h1 h2), fun x => ?_, fun x => ?_, hi.once, hi.known,
    fun x todo hx hx' => ?_, hi.start, fun x hx => ?_, (fun x _ h => by cases h), fun hd x hx hxl => ?_⟩
  · rw [hi.there x, ho, mem_snoc]
    simp [Writer.outside, eq_comm]
  · rw [hi.bare x, hw]
    simp
  · cases hx
    cases hx'
  · obtain ⟨pre, post, hp, hpre, hpost, hn⟩ := hi.cursor x hx
    cases hp with
    | inside h =>
      refine ⟨pre, post ++ [n], .inside (by simp [h]), hpre, fun y hy => ?_, hn⟩
      rcases mem_snoc.mp hy with hy | rfl
      · exact hpost y hy
      · exact hnew.2
    | out h hw' ho' hnext =>
      rcases hw' with ⟨todo, hw'⟩ | hw' <;> rw [hw] at hw' <;> cases hw'
  · rcases mem_snoc.mp hxl with h | rfl
    · exact hi.done hd x hx h
    · exact absurd hx hnew.1

/-- A node goes out; its own pointers stay as they are. -/
theorem unlink_inv (hi : Inv l0 l s) (hw : s.writer = .remove n removeStores) (hr : Rounds s.links none (l.map some))
    (hn : n ∈ l) :
    Inv l0 (l.erase n) { s with links := Store.unlinkNext.exec s.links (some n), writer := .remove n [.unlinkPrev] } := by
  have ho : s.writer.outside = none := by rw [hw]; rfl
  have hnd := hi.phase.nodup
  obtain ⟨xs, ys, rfl, hx⟩ := List.eq_append_cons_of_mem hn
  have he : (xs ++ n :: ys).erase n = xs ++ ys := by rw [List.erase_append_right _ hx, List.erase_cons_head]
  have hout : n ∉ xs ++ ys := by grind
  rw [he]
  refine ⟨.unlinked n (unlink_rounds hr) hout, fun x => ?_, fun x => ?_, hi.once, hi.known,
    (fun x todo hx => by cases hx), hi.start, fun x hxc => ?_, (fun x _ h => by cases h), fun hd x hx0 hxl => ?_⟩
  · rw [hi.there x, ho]
    simp [Writer.outside]
    grind
  · rw [hi.bare x, hw]
    simp
  · obtain ⟨pre, post, hp, hpre, hpost, hseen⟩ := hi.cursor x hxc
    cases hp with
    | out h hw' ho' hnext => rw [ho] at ho'; cases ho'
    | inside h =>
      by_cases e : x = n
      · -- the walk is on the node that goes
        subst e
        have hxp : x ∉ pre := by rw [h] at hnd; grind
        have he' : xs ++ ys = pre ++ post := by rw [← he, h, List.erase_append_right _ hxp, List.erase_cons_head]
        rw [h, List.map_append, List.map_cons] at hr
        refine ⟨pre, post, .out he' (.inl ⟨_, rfl⟩) rfl ?_, hpre, hpost, hseen⟩
        have hlast := getLastD_mem none (pre.map some)
        have hprev : (some x : Node) ≠ s.links.prev (some x) := by
          rw [hr.prev_mid]
          intro e
          rw [← e] at hlast
          simp [hxp] at hlast
        simp only [Store.exec, setNext_next, Function.update_of_ne hprev]
        exact hr.next_mid
      · obtain ⟨pre', post', h', hp1, hp2⟩ := Broadcast.erase_around pre post (n := x) (m := n) (Ne.symm e)
        rw [← h, he] at h'
        exact ⟨pre', post', .inside h', fun y hy => hpre y (hp1 hy), fun y hy => hpost y (hp2 hy), hseen⟩
  · exact hi.done hd x hx0 (by grind)

theorem known_update {conn : Nat → ConnSt} {seen : List Nat} (h : ∀ x ∈ seen, conn x ≠ .absent) {c : ConnSt}
    (hc : c ≠ .absent) : ∀ x ∈ seen, Function.update conn n c x ≠ .absent := by
  intro x hx
  by_cases e : x = n
  · rw [e, Function.update_self]
    exact hc
  · rw [Function.update_of_ne e]
    exact h x hx

/-- The session goes; the walk has read it, or is elsewhere. -/
theorem bare_inv (hi : Inv l0 l s) (hw : s.writer = .remove n []) (hr : Rounds s.links none (l.map some))
    (hc : s.reader.session ≠ some n) :
    Inv l0 l { s with conn := Function.update s.conn n .bare, writer := .freeing n } := by
  have ho : s.writer.outside = some n := by rw [hw]; rfl
  have hnl := hi.phase.outside ho
  have hthere := hi.there
  have hbare := hi.bare
  rw [hw] at hthere hbare
  refine ⟨.freeing n hr hnl, fun x => ?_, fun x => ?_, hi.once, fun x hx => ?_, (fun x todo hx => by cases hx), hi.start,
    fun x hx => ?_, fun x hx h => ?_, hi.done⟩
  · by_cases e : x = n
    · subst e; simp [Writer.outside, ConnSt.there]
    · simpa [e, Ne.symm e, Writer.outside] using hthere x
  · by_cases e : x = n
    · subst e; simp
    · simpa [e, Ne.symm e] using hbare x
  · exact known_update hi.known (by simp) x hx
  · obtain ⟨pre, post, hp, h⟩ := hi.cursor x hx
    refine ⟨pre, post, hp.keep fun _ ho' => ?_, h⟩
    obtain rfl : n = x := Option.some.inj (ho.symm.trans ho')
    exact ⟨.inr rfl, rfl, rfl⟩
  · cases h
    exact hc hx

theorem free_inv (hi : Inv l0 l s) (hw : s.writer = .freeing n) (hr : Rounds s.links none (l.map some))
    (hc : s.reader.cursor ≠ some n) :
    Inv l0 l { s with conn := Function.update s.conn n .freed, writer := .idle } := by
  have ho : s.writer.outside = some n := by rw [hw]; rfl
  have hnl := hi.phase.outside ho
  have hthere := hi.there
  have hbare := hi.bare
  rw [hw] at hthere hbare
  refine ⟨.idle hr, fun x => ?_, fun x => ?_, hi.once, fun x hx => ?_, (fun x todo hx => by cases hx), hi.start,
    fun x hx => ?_, (fun x _ h => by cases h), hi.done⟩
  · by_cases e : x = n
    · subst e; simp [hnl, Writer.outside, ConnSt.there]
    · simpa [e, Ne.symm e, Writer.outside] using hthere x
  · by_cases e : x = n
    · subst e; simp
    · simpa [e, Ne.symm e] using hbare x
  · exact known_update hi.known (by simp) x hx
  · obtain ⟨pre, post, hp, h⟩ := hi.cursor x hx
    refine ⟨pre, post, hp.keep fun _ ho' => ?_, h⟩
    obtain rfl : n = x := Option.some.inj (ho.symm.trans ho')
    exact absurd hx hc

theorem insertStep_inv (hi : Inv l0 l s) {todo : List Store} (hw : s.writer = .insert n todo)
    (h : writerStep s = some s') : ∃ l', Inv l0 l' s' := by
  have hph := hi.phase
  rw [hw] at hph
  have hrem : ∀ (w : Writer) (m : Links Node) k, s.writer.removes k →
      w.removes k ∧ m.next (some k) = s.links.next (some k) :=
    fun w m k hk => by rcases hk with ⟨todo', hk⟩ | hk <;> rw [hw] at hk <;> cases hk
  have hfree : ∀ todo' k, Writer.insert n todo' ≠ .freeing k ∧ s.writer ≠ .freeing k :=
    fun todo' k => ⟨(fun e => by cases e), fun e => by rw [hw] at e; cases e⟩
  have hins : ∀ todo' k todo'', Writer.insert n todo' = .insert k todo'' → ∃ todo3, s.writer = .insert k todo3 :=
    fun todo' k todo'' e => by cases e; exact ⟨todo, hw⟩
  unfold writerStep at h
  cases hph with
  | fresh n k hr hn hk =>
    have hk' : k = 0 ∨ k = 1 ∨ k = 2 := by omega
    rcases hk' with rfl | rfl | rfl
    · rw [hw] at h
      cases h
      exact ⟨l, hi.silent (.fresh n 1 (rounds_apart hr hn .initNext (by decide)) hn (by omega)) (by rw [hw]; rfl)
        (hins _) (hfree _) (hrem _ _)⟩
    · rw [hw] at h
      cases h
      exact ⟨l, hi.silent (.fresh n 2 (rounds_apart hr hn .initPrev (by decide)) hn (by omega)) (by rw [hw]; rfl)
        (hins _) (hfree _) (hrem _ _)⟩
    · rw [hw] at h
      cases h
      exact ⟨l, hi.silent (.next n (rounds_apart hr hn .tailNext (by decide)) hn (by simp [Store.exec])) (by rw [hw]; rfl)
        (hins _) (hfree _) (hrem _ _)⟩
  | next n hr hn h1 =>
    rw [hw] at h
    cases h
    exact ⟨l, hi.silent (.ready n (rounds_apart hr hn .tailPrev (by decide)) hn h1 (by simp [Store.exec]))
      (by rw [hw]; rfl) (hins _) (hfree _) (hrem _ _)⟩
  | ready n hr hn h1 h2 =>
    rw [hw] at h
    cases h
    exact ⟨_, publish_inv hi hw hr h1 h2⟩
  | published n hr =>
    rw [hw] at h
    cases h
    exact ⟨l, hi.silent (.inserted n hr) (by rw [hw]; rfl) (hins _) (hfree _) (hrem _ _)⟩
  | inserted n hr =>
    rw [hw] at h
    cases h
    exact ⟨l, hi.silent (.idle hr) (by rw [hw]; rfl) (fun k todo' e => by cases e)
      (fun k => ⟨(fun e => by cases e), (hfree [] k).2⟩) (hrem _ _)⟩

theorem removeStep_inv (hi : Inv l0 l s) {todo : List Store} (hw : s.writer = .remove n todo)
    (hok : apart s .writer = true)
    (h : writerStep s = some s') : ∃ l', Inv l0 l' s' := by
  have hph := hi.phase
  rw [hw] at hph
  unfold writerStep at h
  cases hph with
  | removing n hr hn =>
    rw [hw] at h
    cases h
    exact ⟨_, unlink_inv hi hw hr hn⟩
  | unlinked n hr hn =>
    rw [hw] at h
    cases h
    refine ⟨l, hi.silent (.removed n hr hn) (by rw [hw]; rfl) (fun k todo' e => by cases e)
      (fun k => ⟨(fun e => by cases e), fun e => by rw [hw] at e; cases e⟩) fun k hk => ?_⟩
    rcases hk with ⟨todo', hk⟩ | hk <;> rw [hw] at hk <;> cases hk
    exact ⟨.inl ⟨_, rfl⟩, rfl⟩
  | removed n hr hn =>
    rw [hw] at h
    cases h
    rw [apart, hw] at hok
    exact ⟨l, bare_inv hi hw hr (by simpa using hok)⟩

theorem step_inv (hi : Inv l0 l s) {e : Ev} (hok : apart s e = true) (h : step s e = some s') : ∃ l', Inv l0 l' s' := by
  cases e with
  | accept n =>
    simp only [step] at h
    split at h
    · rename_i hc
      cases h
      exact ⟨l, accept_inv hi hc.1 hc.2⟩
    · cases h
  | close n =>
    simp only [step] at h
    split at h
    · rename_i hc
      cases h
      exact ⟨l, close_inv hi hc.1 hc.2⟩
    · cases h
  | writer =>
    cases hw : s.writer with
    | idle => rw [step, writerStep, hw] at h; cases h
    | insert n todo => exact insertStep_inv hi hw h
    | remove n todo => exact removeStep_inv hi hw hok h
    | freeing n =>
      rw [apart, hw] at hok
      have hph := hi.phase
      rw [step, writerStep, hw] at h
      rw [hw] at hph
      cases h
      cases hph with
      | freeing n hr hn => exact ⟨l, free_inv hi hw hr (by simpa using hok)⟩
  | reader => exact ⟨l, readerStep_inv hi h⟩

/-! ## Runs -/

theorem reach_inv {s0 : St} (h0 : Start l0 s0) (hr : Reach step (fun s e => apart s e = true) s0 s) :
    ∃ l, Inv l0 l s := by
  refine Reach.invariant (P := fun s => ∃ l, Inv l0 l s) ⟨l0, start_inv h0⟩ (fun s e s' hi hok h => ?_) hr
  obtain ⟨l, hi⟩ := hi
  exact step_inv hi hok h

theorem walked_iff {s0 : St} (h0 : Start l0 s0) (es : List Ev) :
    Always step (Walked l0) s0 es ↔ Steps step (fun s e => apart s e = true) s0 es := by
  refine always_iff (fun s hr => ?_) (fun s e s' hr h hok hwalk => ?_) es
  · obtain ⟨l, hi⟩ := reach_inv h0 hr
    exact hi.walked
  · unfold apart at hok
    split at hok
    · split at hok
      · -- the session was freed before the body read it
        rename_i n hw
        rw [step, writerStep, hw] at h
        cases h
        have := hwalk.session n (by simpa using hok)
        simp at this
      · -- the connection under the cursor was freed
        rename_i n hw
        rw [step, writerStep, hw] at h
        cases h
        have := hwalk.cursor n (by simpa using hok)
        simp [ConnSt.there] at this
      · exact hok rfl
    · exact hok rfl

/-! ## Two walks -/

def two : Links Node := queueInsertTail (queueInsertTail (queueInit ⟨id, id⟩ none) none (some 0)) none (some 1)

def atTwo : St := ⟨two, fun n => if n < 2 then .live else .absent, .idle, .start, []⟩

theorem atTwo_start : Start [0, 1] atTwo := by
  have h0 := (queueInit_spec (⟨id, id⟩ : Links Node) none).1
  have h1 := (queueInsertTail_spec h0 (show some 0 ∉ [none] by decide)).1
  have h2 := (queueInsertTail_spec h1 (show some 1 ∉ [none, some 0] by decide)).1
  refine ⟨h2, fun n => ?_, fun n => ?_, rfl, rfl, rfl⟩
  on_goal 2 => simp only [atTwo]; split <;> simp
  simp only [atTwo]
  split
  · have : n = 0 ∨ n = 1 := by omega
    rcases this with rfl | rfl <;> simp
  · simp
    omega

/-- While the walk is on 0, 1 is taken out and freed, and 2 comes in. -/
def beside : List Ev :=
  [.reader, .close 1, .writer, .reader, .writer, .writer, .reader, .writer, .accept 2, .writer, .writer, .writer,
   .writer, .writer, .reader, .writer, .reader, .reader, .reader]

/-- The body has conn->session, and on_close_connection frees that. -/
def under : List Ev := [.reader, .reader, .close 0, .writer, .writer, .writer]

theorem walks : Always step (Walked [0, 1]) atTwo beside ∧
    (run step atTwo beside).any (fun s => s.reader == .done && s.seen == [0, 2]) = true ∧
    ¬ Always step (Walked [0, 1]) atTwo under := by
  refine ⟨(walked_iff atTwo_start beside).mpr ?_, by decide, fun h => ?_⟩
  · have hrun : ∃ t, runIf step apart atTwo beside = some t := ⟨_, rfl⟩
    obtain ⟨t, ht⟩ := hrun
    exact steps_of_runIf apart ht
  · have hrun : ∃ s, run step atTwo under = some s ∧ s.reader.session = some 0 ∧ s.conn 0 = .bare := ⟨_, rfl, rfl, rfl⟩
    obtain ⟨s, hs, hc, hf⟩ := hrun
    have := (h under s (List.prefix_refl _) hs).session 0 hc
    rw [hf] at this
    cases this

end UvWrapper.Net.ServerWalk
