/-
  UvWrapper.Utils.MsgQueueShare — msg_queue_create in several processes with the same key
  (msg_queue.c), and whose messages a msg_thread gets.

  A msg_t on the kernel's queue carries a pointer into the memory of the process that sent it, so that a
  message is good only in that process. msg_queue_create wants a queue of its own:

      first    msgget(IPC_CREAT | IPC_EXCL)    made, or there is a queue already
      second   msgget(IPC_CREAT)               the id of that queue
      remove   msgctl(IPC_RMID)                its result is not looked at; refused when another user made it
      third    msgget(IPC_CREAT)               made, or whatever queue is there by now

  The key is not IPC_PRIVATE (0), for which every msgget makes another queue; the component's COMPONENT is 0.
  No other program sends to the queue, so that no message is too large.

  The calls of all processes come in any order. Each process makes one queue; a process may end at any
  point, and leaves its queue behind. What is inside a process is in `UvWrapper.Utils.MsgQueue`.

  Proved, for every run: no two processes have the same queue, and each msg_thread gets what its own process
  sent, in order and once, if and only if each third msgget that succeeds finds no queue, or an empty one
  that no process has (`safe_iff`). Processes that create one after another, and may remove the queue they find,
  meet this (`alone_safe`). Two that overlap do not (`overlap_crosses`), nor does one that may not
  remove the old queue (`refused_crosses`).
-/

import UvWrapper.Utils.MsgQueueDestroy

namespace UvWrapper.Utils.MsgQueueShare

open UvWrapper.Lib.Trace
open UvWrapper.Component.Relay (Msg message)
open UvWrapper.Utils.MsgQueueDestroy (Kernel msgget msgctlRmid)

/-! ## State -/

inductive Pc where
  | first
  | second
  | remove (id : Nat)
  | third
  /-- msg_queue_create has returned a queue with this id. -/
  | made (id : Nat)
  /-- It has returned NULL, or the process has ended. -/
  | gone
  deriving DecidableEq, Repr

structure Sent where
  sender : Nat
  msg : Msg
  deriving DecidableEq, Repr

structure St where
  kernel : Kernel
  /-- The messages on the key's queue. -/
  queue : List Sent
  procs : List Pc
  sent : List Sent
  /-- With the process that received. -/
  received : List (Nat × Sent)

theorem no_queue : ∀ i : Nat, none = some i → i < 0 := fun _ h => by cases h

def init : St := ⟨⟨none, 0, no_queue⟩, [], [], [], []⟩

def St.goto (s : St) (p : Nat) (pc : Pc) : St := { s with procs := s.procs.set p pc }

/-- The kernel drops the messages of a queue that is removed. -/
def rmid (s : St) (id : Nat) (permitted : Bool) : St :=
  if permitted ∧ s.kernel.current = some id then { s with kernel := msgctlRmid s.kernel id, queue := [] } else s

/-- A msgget, and where it leads with an id and without. -/
def get (s : St) (p : Nat) (excl ok : Bool) (got : Nat → Pc) (failed : Pc) : St :=
  match msgget s.kernel excl ok with
  | (k, some id) => { s with kernel := k }.goto p (got id)
  | (k, none) => { s with kernel := k }.goto p failed

inductive Event where
  /-- A process calls msg_queue_create, which gets its memory. -/
  | start
  | first (p : Nat) (ok : Bool)
  | second (p : Nat) (ok : Bool)
  | remove (p : Nat) (permitted : Bool)
  | third (p : Nat) (ok : Bool)
  /-- msgsnd on the process's id. -/
  | send (p : Nat) (m : Msg)
  /-- msgrcv of its msg_thread. -/
  | receive (p : Nat)
  /-- The IPC_RMID of msg_queue_destroy. -/
  | destroy (p : Nat) (permitted : Bool)
  | exit (p : Nat)
  deriving DecidableEq, Repr

/-- A msgsnd to a queue that is gone fails; a msgrcv takes something from one that is there. -/
def step (s : St) : Event → Option St
  | .start => some { s with procs := s.procs ++ [.first] }
  | .first p ok => if s.procs[p]? = some .first then some (get s p true ok .made .second) else none
  | .second p ok => if s.procs[p]? = some .second then some (get s p false ok .remove .gone) else none
  | .remove p permitted =>
    match s.procs[p]? with
    | some (.remove id) => some ((rmid s id permitted).goto p .third)
    | _ => none
  | .third p ok => if s.procs[p]? = some .third then some (get s p false ok .made .gone) else none
  | .send p m =>
    match s.procs[p]? with
    | some (.made id) =>
      if s.kernel.current = some id then some { s with queue := s.queue ++ [⟨p, m⟩], sent := s.sent ++ [⟨p, m⟩] }
      else some s
    | _ => none
  | .receive p =>
    match s.procs[p]?, s.queue with
    | some (.made id), m :: q =>
      if s.kernel.current = some id then some { s with queue := q, received := s.received ++ [(p, m)] } else none
    | _, _ => none
  | .destroy p permitted =>
    match s.procs[p]? with
    | some (.made id) => some (rmid s id permitted)
    | _ => none
  | .exit p => if p < s.procs.length then some (s.goto p .gone) else none

/-! ## Whose messages -/

def sentBy (s : St) (p : Nat) : List Sent := s.sent.filter (·.sender = p)

def receivedBy (s : St) (p : Nat) : List Sent := (s.received.filter (·.1 = p)).map Prod.snd

def Has (s : St) (p id : Nat) : Prop := s.procs[p]? = some (.made id)

structure Safe (s : St) : Prop where
  apart : ∀ p q id, Has s p id → Has s q id → p = q
  /-- What there is to receive is one's own. -/
  own : ∀ p id, Has s p id → s.kernel.current = some id → ∀ m ∈ s.queue, m.sender = p
  order : ∀ p, receivedBy s p <+: sentBy s p

/-- No queue, or an empty one that no process has. -/
def Clear (s : St) : Prop :=
  ∀ id, s.kernel.current = some id → s.queue = [] ∧ ∀ pc ∈ s.procs, pc ≠ .made id

/-- The third msgget gets a queue that nobody else uses. -/
def Fresh (s : St) : Event → Prop
  | .third _ ok => ok = true → Clear s
  | _ => True

variable {s s' : St} {e : Event} {p q id : Nat} {pc : Pc}

/-! ## The calls -/

theorem goto_get {x : Pc} (h : (s.goto p pc).procs[q]? = some x) :
    (q = p ∧ x = pc ∧ ∃ y, s.procs[p]? = some y) ∨ (q ≠ p ∧ s.procs[q]? = some x) := by
  have h : (s.procs.set p pc)[q]? = some x := h
  rw [List.getElem?_set] at h
  split at h
  · rename_i hpq
    split at h
    · rename_i hlt
      exact .inl ⟨hpq.symm, (Option.some.inj h).symm, _, List.getElem?_eq_getElem hlt⟩
    · cases h
  · rename_i hpq
    exact .inr ⟨fun e => hpq e.symm, h⟩

/-- A msgget finds the queue, makes one, or fails. -/
theorem get_cases (s : St) (p : Nat) (excl ok : Bool) (got : Nat → Pc) (failed : Pc) :
    (∃ id, s.kernel.current = some id ∧ excl = false ∧ ok = true ∧ get s p excl ok got failed = s.goto p (got id)) ∨
    (∃ k, s.kernel.current = none ∧ k.current = some s.kernel.next ∧ k.next = s.kernel.next + 1 ∧ ok = true ∧
      get s p excl ok got failed = { s with kernel := k }.goto p (got s.kernel.next)) ∨
    ((ok = false ∨ excl = true) ∧ get s p excl ok got failed = s.goto p failed) := by
  unfold get msgget
  cases hc : s.kernel.current with
  | none =>
    cases ok with
    | true => exact .inr (.inl ⟨_, rfl, rfl, rfl, rfl, rfl⟩)
    | false => exact .inr (.inr ⟨.inl rfl, rfl⟩)
  | some id =>
    cases ok <;> cases excl
    · exact .inr (.inr ⟨.inl rfl, rfl⟩)
    · exact .inr (.inr ⟨.inl rfl, rfl⟩)
    · exact .inl ⟨id, rfl, rfl, rfl, rfl⟩
    · exact .inr (.inr ⟨.inr rfl, rfl⟩)

/-- A removal takes the queue away, or does nothing. -/
theorem rmid_cases (s : St) (id : Nat) (permitted : Bool) :
    (∃ k, s.kernel.current = some id ∧ k.current = none ∧ k.next = s.kernel.next ∧
      rmid s id permitted = { s with kernel := k, queue := [] }) ∨
    ((permitted = true → s.kernel.current ≠ some id) ∧ rmid s id permitted = s) := by
  unfold rmid
  split
  · rename_i h
    refine .inl ⟨msgctlRmid s.kernel id, h.2, ?_, ?_, rfl⟩
    · unfold msgctlRmid
      rw [if_pos h.2]
    · unfold msgctlRmid
      rw [if_pos h.2]
  · rename_i h
    exact .inr ⟨fun hp hc => h ⟨hp, hc⟩, rfl⟩

/-! ## The invariant -/

/-- Nothing was sent or received yet. -/
def Pc.creating : Pc → Bool
  | .first | .second | .remove _ | .third => true
  | .made _ | .gone => false

structure Inv (s : St) : Prop where
  none : s.kernel.current = .none → s.queue = []
  below : ∀ p id, Has s p id → id < s.kernel.next
  apart : ∀ p q id, Has s p id → Has s q id → p = q
  /-- What the process with the queue sent was received or is there. -/
  stream : ∀ p id, Has s p id → s.kernel.current = some id → sentBy s p = receivedBy s p ++ s.queue
  order : ∀ p, receivedBy s p <+: sentBy s p
  quiet : ∀ p pc, s.procs[p]? = some pc → pc.creating = true → sentBy s p = [] ∧ receivedBy s p = []
  absent : ∀ m ∈ s.sent, m.sender < s.procs.length
  queued : ∀ m ∈ s.queue, m ∈ s.sent

theorem Inv.safe (hi : Inv s) : Safe s := by
  refine ⟨hi.apart, fun p id hp hc m hm => ?_, hi.order⟩
  have : m ∈ sentBy s p := by
    rw [hi.stream p id hp hc]
    exact List.mem_append_right _ hm
  simpa using (List.mem_filter.mp this).2

theorem init_inv : Inv init := by
  constructor
  · exact fun _ => rfl
  · exact fun p id h => absurd h (by simp [Has, init])
  · exact fun p q id h => absurd h (by simp [Has, init])
  · exact fun p id h => absurd h (by simp [Has, init])
  · exact fun p => List.prefix_refl []
  · exact fun p pc h => absurd h (by simp [init])
  · exact fun m h => absurd h List.not_mem_nil
  · exact fun m h => h

/-! ## What each call keeps -/

theorem has_goto {x : Nat} (h : Has (s.goto p pc) q x) : (q = p ∧ pc = .made x) ∨ (q ≠ p ∧ Has s q x) := by
  rcases goto_get h with ⟨hq, hx, -⟩ | ⟨hq, h⟩
  · exact .inl ⟨hq, hx.symm⟩
  · exact .inr ⟨hq, h⟩

/-- A process moves on without a queue. -/
theorem goto_inv (hi : Inv s) {old : Pc} (hp : s.procs[p]? = some old) (hm : ∀ id, pc ≠ .made id)
    (hc : pc.creating = true → old.creating = true) : Inv (s.goto p pc) := by
  have hold : ∀ q id, Has (s.goto p pc) q id → Has s q id := fun q id h => by
    rcases has_goto h with ⟨-, h⟩ | ⟨-, h⟩
    · exact absurd h (hm id)
    · exact h
  refine ⟨hi.none, fun q id h => hi.below q id (hold q id h), fun q r id h1 h2 => hi.apart q r id (hold q id h1)
    (hold r id h2), fun q id h => hi.stream q id (hold q id h), hi.order, ?_, ?_, hi.queued⟩
  · intro q x h hx
    rcases goto_get h with ⟨rfl, rfl, -⟩ | ⟨-, h⟩
    · exact hi.quiet q old hp (hc hx)
    · exact hi.quiet q x h hx
  · intro m hm
    show m.sender < (s.procs.set p pc).length
    rw [List.length_set]
    exact hi.absent m hm

/-- The queue is removed. -/
theorem removed_inv (hi : Inv s) {k : Kernel} (hk : k.current = none) (hn : k.next = s.kernel.next) :
    Inv { s with kernel := k, queue := [] } := by
  refine ⟨fun _ => rfl, fun q id h => hn ▸ hi.below q id h, hi.apart, fun q id _ h => ?_, hi.order, hi.quiet, hi.absent,
    fun m h => absurd h List.not_mem_nil⟩
  rw [show k.current = some id from h] at hk
  cases hk

theorem rmid_inv (hi : Inv s) (id : Nat) (permitted : Bool) : Inv (rmid s id permitted) := by
  rcases rmid_cases s id permitted with ⟨k, -, hk, hn, h⟩ | ⟨-, h⟩
  · rw [h]
    exact removed_inv hi hk hn
  · rw [h]
    exact hi

theorem rmid_procs (s : St) (id : Nat) (permitted : Bool) : (rmid s id permitted).procs = s.procs := by
  unfold rmid
  split <;> rfl

/-- A new queue is there, which nobody has yet. -/
theorem new_inv (hi : Inv s) {k : Kernel} (hk : k.current = some s.kernel.next)
    (hn : k.next = s.kernel.next + 1) : Inv { s with kernel := k } := by
  refine ⟨fun h => ?_, fun q id h => ?_, hi.apart, fun q id h hid => ?_, hi.order, hi.quiet, hi.absent, hi.queued⟩
  · rw [show k.current = none from h] at hk
    cases hk
  · show id < k.next
    have : id < s.kernel.next := hi.below q id h
    omega
  · have hlt : id < s.kernel.next := hi.below q id h
    rw [show k.current = some id from hid] at hk
    cases hk
    exact absurd hlt (Nat.lt_irrefl _)

/-- A process gets a queue that is empty and that nobody else has. -/
theorem made_inv (hi : Inv s) (hp : s.procs[p]? = some pc) (hc : pc.creating = true) (hk : s.kernel.current = some id)
    (hq : s.queue = []) (hh : ∀ q, ¬ Has s q id) : Inv (s.goto p (.made id)) := by
  obtain ⟨hs, hr⟩ := hi.quiet p pc hp hc
  refine ⟨hi.none, ?_, ?_, ?_, hi.order, ?_, ?_, hi.queued⟩
  · intro q x h
    rcases has_goto h with ⟨-, hx⟩ | ⟨-, h⟩
    · cases hx
      exact s.kernel.fresh id hk
    · exact hi.below q x h
  · intro q r x h1 h2
    rcases has_goto h1 with ⟨hq1, hx⟩ | ⟨hq1, h1⟩
    · rcases has_goto h2 with ⟨hr1, -⟩ | ⟨-, h2⟩
      · rw [hq1, hr1]
      · cases hx
        exact absurd h2 (hh r)
    · rcases has_goto h2 with ⟨-, hx⟩ | ⟨-, h2⟩
      · cases hx
        exact absurd h1 (hh q)
      · exact hi.apart q r x h1 h2
  · intro q x h hx
    rcases has_goto h with ⟨rfl, -⟩ | ⟨-, h⟩
    · show sentBy s q = receivedBy s q ++ s.queue
      rw [hs, hr, hq]
      rfl
    · exact hi.stream q x h hx
  · intro q x h hx
    rcases goto_get h with ⟨-, rfl, -⟩ | ⟨-, h⟩
    · cases hx
    · exact hi.quiet q x h hx
  · intro m hm
    show m.sender < (s.procs.set p (.made id)).length
    rw [List.length_set]
    exact hi.absent m hm

theorem start_inv (hi : Inv s) : Inv { s with procs := s.procs ++ [.first] } := by
  have hold : ∀ q id, Has { s with procs := s.procs ++ [.first] } q id → Has s q id := fun q id h => by
    have h : (s.procs ++ [Pc.first])[q]? = some (.made id) := h
    rw [List.getElem?_append] at h
    split at h
    · exact h
    · rw [List.getElem?_singleton] at h
      split at h <;> cases h
  refine ⟨hi.none, fun q id h => hi.below q id (hold q id h), fun q r id h1 h2 => hi.apart q r id (hold q id h1)
    (hold r id h2), fun q id h => hi.stream q id (hold q id h), hi.order, ?_, ?_, hi.queued⟩
  · intro q x h hx
    have h : (s.procs ++ [Pc.first])[q]? = some x := h
    rw [List.getElem?_append] at h
    split at h
    · exact hi.quiet q x h hx
    · rename_i hlt
      have hs : sentBy s q = [] := by
        refine List.filter_eq_nil_iff.mpr fun m hm => ?_
        have := hi.absent m hm
        simp only [decide_eq_true_eq]
        omega
      exact ⟨hs, List.prefix_nil.mp (hs ▸ hi.order q)⟩
  · intro m hm
    show m.sender < (s.procs ++ [Pc.first]).length
    rw [List.length_append]
    exact Nat.lt_add_right _ (hi.absent m hm)

/-- The process that has the queue sends. -/
theorem send_inv (hi : Inv s) (hp : Has s p id) (hc : s.kernel.current = some id) (m : Msg) :
    Inv { s with queue := s.queue ++ [⟨p, m⟩], sent := s.sent ++ [⟨p, m⟩] } := by
  have hby : ∀ q, sentBy { s with queue := s.queue ++ [⟨p, m⟩], sent := s.sent ++ [⟨p, m⟩] } q =
      sentBy s q ++ if q = p then [⟨p, m⟩] else [] := fun q => by
    unfold sentBy
    rw [List.filter_append, List.filter_singleton]
    by_cases h : q = p
    · simp [h]
    · simp [h, Ne.symm h]
  refine ⟨fun h => ?_, hi.below, hi.apart, ?_, fun q => ?_, ?_, ?_, ?_⟩
  · rw [show s.kernel.current = none from h] at hc
    cases hc
  · intro q x h hx
    have hx : s.kernel.current = some x := hx
    rw [hc] at hx
    cases hx
    obtain rfl := hi.apart q p id h hp
    rw [hby, if_pos rfl]
    show sentBy s q ++ _ = receivedBy s q ++ (s.queue ++ _)
    rw [← List.append_assoc, hi.stream q id h hc]
  · rw [hby]
    exact (hi.order q).trans (List.prefix_append _ _)
  · intro q x h hx
    have hne : q ≠ p := fun e => by
      subst e
      rw [show s.procs[q]? = some (.made id) from hp] at h
      cases h
      cases hx
    rw [hby, if_neg hne, List.append_nil]
    exact hi.quiet q x h hx
  · intro x hx
    rcases List.mem_append.mp hx with hx | hx
    · exact hi.absent x hx
    · cases List.mem_singleton.mp hx
      exact (List.getElem?_eq_some_iff.mp hp).1
  · intro x hx
    rcases List.mem_append.mp hx with hx | hx
    · exact List.mem_append_left _ (hi.queued x hx)
    · exact List.mem_append_right _ hx

/-- It receives. -/
theorem receive_inv (hi : Inv s) (hp : Has s p id) (hc : s.kernel.current = some id) {m : Sent} {rest : List Sent}
    (hq : s.queue = m :: rest) : Inv { s with queue := rest, received := s.received ++ [(p, m)] } := by
  have hby : ∀ q, receivedBy { s with queue := rest, received := s.received ++ [(p, m)] } q =
      receivedBy s q ++ if q = p then [m] else [] := fun q => by
    unfold receivedBy
    rw [List.filter_append, List.filter_singleton, List.map_append]
    by_cases h : q = p
    · simp [h]
    · simp [h, Ne.symm h]
  have hstream : sentBy s p = receivedBy s p ++ [m] ++ rest := by
    rw [hi.stream p id hp hc, hq, List.append_assoc]
    rfl
  refine ⟨fun h => ?_, hi.below, hi.apart, ?_, fun q => ?_, ?_, hi.absent, fun x hx => ?_⟩
  · rw [show s.kernel.current = none from h] at hc
    cases hc
  · intro q x h hx
    have hx : s.kernel.current = some x := hx
    rw [hc] at hx
    cases hx
    obtain rfl := hi.apart q p id h hp
    rw [hby, if_pos rfl]
    exact hstream
  · rw [hby]
    by_cases h : q = p
    · subst h
      rw [if_pos rfl]
      exact ⟨rest, hstream.symm⟩
    · rw [if_neg h, List.append_nil]
      exact hi.order q
  · intro q x h hx
    have hne : q ≠ p := fun e => by
      subst e
      rw [show s.procs[q]? = some (.made id) from hp] at h
      cases h
      cases hx
    rw [hby, if_neg hne, List.append_nil]
    exact hi.quiet q x h hx
  · exact hi.queued x (by rw [hq]; exact List.mem_cons_of_mem _ hx)

/-! ## Every step -/

theorem first_inv (hi : Inv s) (hp : s.procs[p]? = some .first) (ok : Bool) : Inv (get s p true ok .made .second) := by
  rcases get_cases s p true ok .made .second with ⟨id, -, he, -⟩ | ⟨k, hc, hk, hn, -, h⟩ | ⟨-, h⟩
  · cases he
  · rw [h]
    refine made_inv (new_inv hi hk hn) hp rfl hk (hi.none hc) fun q hq => ?_
    exact absurd (hi.below q _ hq) (Nat.lt_irrefl _)
  · rw [h]
    exact goto_inv hi hp (fun _ h => by cases h) fun _ => rfl

theorem second_inv (hi : Inv s) (hp : s.procs[p]? = some .second) (ok : Bool) : Inv (get s p false ok .remove .gone) := by
  rcases get_cases s p false ok .remove .gone with ⟨id, -, -, -, h⟩ | ⟨k, hc, hk, hn, -, h⟩ | ⟨-, h⟩
  · rw [h]
    exact goto_inv hi hp (fun _ h => by cases h) fun _ => rfl
  · -- the queue went in between, and this msgget has made one
    rw [h]
    exact goto_inv (new_inv hi hk hn) hp (fun _ h => by cases h) fun _ => rfl
  · rw [h]
    exact goto_inv hi hp (fun _ h => by cases h) fun h => by cases h

theorem third_inv (hi : Inv s) (hp : s.procs[p]? = some .third) {ok : Bool} (hf : ok = true → Clear s) :
    Inv (get s p false ok .made .gone) := by
  rcases get_cases s p false ok .made .gone with ⟨id, hc, -, hok, h⟩ | ⟨k, hc, hk, hn, -, h⟩ | ⟨-, h⟩
  · rw [h]
    obtain ⟨hq, hh⟩ := hf hok id hc
    exact made_inv hi hp rfl hc hq fun q hq => hh _ (List.mem_of_getElem? hq) rfl
  · rw [h]
    refine made_inv (new_inv hi hk hn) hp rfl hk (hi.none hc) fun q hq => ?_
    exact absurd (hi.below q _ hq) (Nat.lt_irrefl _)
  · rw [h]
    exact goto_inv hi hp (fun _ h => by cases h) fun h => by cases h

theorem step_inv (hi : Inv s) (hf : Fresh s e) (h : step s e = some s') : Inv s' := by
  cases e with
  | start =>
    obtain rfl := Option.some.inj h
    exact start_inv hi
  | first p ok =>
    simp only [step] at h
    split at h
    · obtain rfl := Option.some.inj h
      exact first_inv hi ‹_› ok
    · cases h
  | second p ok =>
    simp only [step] at h
    split at h
    · obtain rfl := Option.some.inj h
      exact second_inv hi ‹_› ok
    · cases h
  | remove p permitted =>
    simp only [step] at h
    split at h
    · rename_i id hp
      obtain rfl := Option.some.inj h
      have hp' : (rmid s id permitted).procs[p]? = some (.remove id) := by
        rw [rmid_procs]
        exact hp
      exact goto_inv (rmid_inv hi id permitted) hp' (fun _ h => by cases h) fun _ => rfl
    · cases h
  | third p ok =>
    simp only [step] at h
    split at h
    · obtain rfl := Option.some.inj h
      exact third_inv hi ‹_› hf
    · cases h
  | send p m =>
    simp only [step] at h
    split at h
    · rename_i id hp
      split at h
      · obtain rfl := Option.some.inj h
        exact send_inv hi hp ‹_› m
      · obtain rfl := Option.some.inj h
        exact hi
    · cases h
  | receive p =>
    simp only [step] at h
    split at h
    · rename_i id m rest hp hq
      split at h
      · obtain rfl := Option.some.inj h
        exact receive_inv hi hp ‹_› hq
      · cases h
    · cases h
  | destroy p permitted =>
    simp only [step] at h
    split at h
    · obtain rfl := Option.some.inj h
      exact rmid_inv hi _ permitted
    · cases h
  | exit p =>
    simp only [step] at h
    split at h
    · obtain rfl := Option.some.inj h
      exact goto_inv hi (List.getElem?_eq_getElem ‹_›) (fun _ h => by cases h) fun h => by cases h
    · cases h

theorem reach_inv (h : Reach step Fresh init s) : Inv s := h.invariant init_inv fun _ _ _ hi hf hs => step_inv hi hf hs

/-! ## The third msgget decides -/

/-- Whoever gets a queue that is not his own to take is not safe at once. -/
theorem third_unsafe (hi : Inv s) (h : step s e = some s') (hf : ¬ Fresh s e) : ¬ Safe s' := by
  cases e with
  | third p ok =>
    obtain ⟨hok, hclear⟩ := Classical.not_imp.mp hf
    simp only [step] at h
    split at h
    · rename_i hp
      obtain rfl := Option.some.inj h
      rcases get_cases s p false ok .made .gone with ⟨id, hc, -, -, h⟩ | ⟨k, hc, -⟩ | ⟨hr, -⟩
      · rw [h]
        have hlt := (List.getElem?_eq_some_iff.mp hp).1
        have hhas : Has (s.goto p (.made id)) p id := List.getElem?_set_self hlt
        intro hs
        refine hclear fun x hx => ?_
        rw [hc] at hx
        cases hx
        constructor
        · -- a message there is from somebody else, for p has sent nothing
          refine List.eq_nil_iff_forall_not_mem.mpr fun m hm => ?_
          have hown := hs.own p id hhas hc m hm
          have : m ∈ sentBy s p := List.mem_filter.mpr ⟨hi.queued m hm, by simp [hown]⟩
          rw [(hi.quiet p _ hp rfl).1] at this
          exact absurd this List.not_mem_nil
        · rintro pc hpc rfl
          obtain ⟨q, hq⟩ := List.getElem?_of_mem hpc
          have hne : q ≠ p := fun e => by
            subst e
            rw [hp] at hq
            cases hq
          have hq' : Has (s.goto p (.made id)) q id := by
            show (s.procs.set p _)[q]? = _
            rw [List.getElem?_set_ne hne.symm]
            exact hq
          exact hne (hs.apart q p id hq' hhas)
      · exact absurd (fun x hx => by rw [hc] at hx; cases hx) hclear
      · rcases hr with hr | hr
        · rw [hok] at hr
          cases hr
        · cases hr
    · cases h
  | _ => exact absurd trivial hf

theorem safe_iff (es : List Event) : Always step Safe init es ↔ Steps step Fresh init es :=
  always_iff (fun _ hr => (reach_inv hr).safe) (fun _ _ _ hr h hf => third_unsafe (reach_inv hr) h hf) es

/-! ## One after another -/

/-- A process starts when no other is creating, and may remove the queue that it finds. -/
def Alone (s : St) : Event → Prop
  | .start => ∀ pc ∈ s.procs, pc.creating = false
  | .remove _ permitted => permitted = true
  | _ => True

instance (s : St) (e : Event) : Decidable (Alone s e) := by
  cases e <;> unfold Alone <;> infer_instance

/-- What the one process that is creating knows of the key's queue. -/
def Pc.Knows (k : Kernel) : Pc → Prop
  | .remove id => k.current = some id ∨ k.current = none
  | .third => k.current = none
  | _ => True

structure Single (s : St) : Prop where
  one : ∀ (p q : Nat) (pc pc' : Pc), s.procs[p]? = some pc → s.procs[q]? = some pc' → pc.creating = true →
    pc'.creating = true → p = q
  knows : ∀ pc ∈ s.procs, pc.Knows s.kernel

theorem knows_done (h : pc.creating = false) (k : Kernel) : pc.Knows k := by
  cases pc with
  | made id => trivial
  | gone => trivial
  | _ => cases h

/-- The queue goes, or stays as it is. -/
theorem knows_less {k k' : Kernel} (hk : k'.current = k.current ∨ k'.current = none) (h : pc.Knows k) : pc.Knows k' := by
  cases pc with
  | remove id =>
    rcases hk with hk | hk
    · exact h.imp hk.trans hk.trans
    · exact .inr hk
  | third => exact hk.elim (·.trans h) id
  | _ => trivial

theorem rmid_knows (id : Nat) (permitted : Bool) (h : pc.Knows s.kernel) : pc.Knows (rmid s id permitted).kernel := by
  rcases rmid_cases s id permitted with ⟨k, -, hk, -, h'⟩ | ⟨-, h'⟩
  · rw [h']
    exact knows_less (.inr hk) h
  · rw [h']
    exact h

/-- The process that is creating goes on, with whatever queue there is then. -/
theorem goto_single (hs : Single s) {old : Pc} (hp : s.procs[p]? = some old) (ho : old.creating = true) {t : St}
    (ht : t.procs = s.procs) (hk : pc.Knows t.kernel) : Single (t.goto p pc) := by
  have hothers : ∀ q x, q ≠ p → t.procs[q]? = some x → x.creating = false := fun q x hq hx => by
    rw [ht] at hx
    by_contra hc
    exact hq (hs.one q p x old hx hp (by simpa using hc) ho)
  constructor
  · intro q r x y hx hy hcx hcy
    rcases goto_get hx with ⟨rfl, -, -⟩ | ⟨hq, hx⟩
    · rcases goto_get hy with ⟨rfl, -, -⟩ | ⟨hr, hy⟩
      · rfl
      · rw [hothers r y hr hy] at hcy
        cases hcy
    · rw [hothers q x hq hx] at hcx
      cases hcx
  · intro x hx
    obtain ⟨q, hq⟩ := List.getElem?_of_mem hx
    rcases goto_get hq with ⟨-, rfl, -⟩ | ⟨hne, hq⟩
    · exact hk
    · exact knows_done (hothers q x hne hq) _

/-- A msgget of the process that is creating. -/
theorem get_single (hs : Single s) {old : Pc} (hp : s.procs[p]? = some old) (ho : old.creating = true) (excl ok : Bool)
    (got : Nat → Pc) (failed : Pc) (hg : ∀ k : Kernel, ∀ id, k.current = some id → (got id).Knows k)
    (hf : ∀ k, failed.Knows k) : Single (get s p excl ok got failed) := by
  rcases get_cases s p excl ok got failed with ⟨id, hc, -, -, h⟩ | ⟨k, -, hk, -, -, h⟩ | ⟨-, h⟩
  · rw [h]
    exact goto_single hs hp ho rfl (hg _ _ hc)
  · rw [h]
    exact goto_single hs hp ho rfl (hg k _ hk)
  · rw [h]
    exact goto_single hs hp ho rfl (hf _)

theorem start_single (hs : Single s) (ha : ∀ pc ∈ s.procs, pc.creating = false) :
    Single { s with procs := s.procs ++ [.first] } := by
  have hnew : ∀ q x, (s.procs ++ [Pc.first])[q]? = some x → x.creating = true → q = s.procs.length := fun q x hx hc => by
    rw [List.getElem?_append] at hx
    split at hx
    · rw [ha x (List.mem_of_getElem? hx)] at hc
      cases hc
    · rw [List.getElem?_singleton] at hx
      split at hx
      · omega
      · cases hx
  refine ⟨fun q r x y hx hy hcx hcy => (hnew q x hx hcx).trans (hnew r y hy hcy).symm, fun x hx => ?_⟩
  rcases List.mem_append.mp hx with hx | hx
  · exact hs.knows x hx
  · cases List.mem_singleton.mp hx
    trivial

theorem exit_single (hs : Single s) (p : Nat) : Single (s.goto p .gone) := by
  constructor
  · intro q r x y hx hy hcx hcy
    rcases goto_get hx with ⟨-, rfl, -⟩ | ⟨-, hx⟩
    · cases hcx
    · rcases goto_get hy with ⟨-, rfl, -⟩ | ⟨-, hy⟩
      · cases hcy
      · exact hs.one q r x y hx hy hcx hcy
  · intro x hx
    rcases List.mem_or_eq_of_mem_set hx with hx | rfl
    · exact hs.knows x hx
    · trivial

theorem step_single (hs : Single s) (ha : Alone s e) (h : step s e = some s') : Single s' := by
  cases e with
  | start =>
    obtain rfl := Option.some.inj h
    exact start_single hs ha
  | first p ok =>
    simp only [step] at h
    split at h
    · obtain rfl := Option.some.inj h
      exact get_single hs ‹_› rfl true ok .made .second (fun _ _ _ => trivial) fun _ => trivial
    · cases h
  | second p ok =>
    simp only [step] at h
    split at h
    · obtain rfl := Option.some.inj h
      exact get_single hs ‹_› rfl false ok .remove .gone (fun _ _ hk => .inl hk) fun _ => trivial
    · cases h
  | remove p permitted =>
    simp only [step] at h
    split at h
    · rename_i id hp
      obtain rfl := Option.some.inj h
      refine goto_single hs hp rfl (rmid_procs s id permitted) ?_
      -- what p removes is the queue that is there, if there is one still
      rcases hs.knows _ (List.mem_of_getElem? hp) with hc | hc
      · rcases rmid_cases s id permitted with ⟨k, -, hk, -, h'⟩ | ⟨hn, -⟩
        · rw [h']
          exact hk
        · exact absurd hc (hn ha)
      · refine rmid_knows id permitted ?_
        exact hc
    · cases h
  | third p ok =>
    simp only [step] at h
    split at h
    · obtain rfl := Option.some.inj h
      exact get_single hs ‹_› rfl false ok .made .gone (fun _ _ _ => trivial) fun _ => trivial
    · cases h
  | send p m =>
    simp only [step] at h
    split at h
    · split at h
      · obtain rfl := Option.some.inj h
        exact ⟨hs.one, hs.knows⟩
      · obtain rfl := Option.some.inj h
        exact hs
    · cases h
  | receive p =>
    simp only [step] at h
    split at h
    · split at h
      · obtain rfl := Option.some.inj h
        exact ⟨hs.one, hs.knows⟩
      · cases h
    · cases h
  | destroy p permitted =>
    simp only [step] at h
    split at h
    · rename_i id hp
      obtain rfl := Option.some.inj h
      refine ⟨?_, fun x hx => rmid_knows id permitted (hs.knows x ?_)⟩
      · rw [rmid_procs]
        exact hs.one
      · rwa [rmid_procs] at hx
    · cases h
  | exit p =>
    simp only [step] at h
    split at h
    · obtain rfl := Option.some.inj h
      exact exit_single hs p
    · cases h

theorem alone_fresh (hs : Single s) (h : step s e = some s') : Fresh s e := by
  cases e with
  | third p ok =>
    intro _ id hc
    simp only [step] at h
    split at h
    · have hn : s.kernel.current = none := hs.knows .third (List.mem_of_getElem? ‹_›)
      rw [hc] at hn
      cases hn
    · cases h
  | _ => trivial

theorem reach_alone (h : Reach step Alone init s) : Inv s ∧ Single s := by
  have h0 : Single init := ⟨fun p q pc pc' hp => by simp [init] at hp, fun pc hp => by simp [init] at hp⟩
  exact h.invariant (P := fun s => Inv s ∧ Single s) ⟨init_inv, h0⟩ fun _ _ _ hi ha hs =>
    ⟨step_inv hi.1 (alone_fresh hi.2 hs) hs, step_single hi.2 ha hs⟩

/-- What msg_thread gets is what its process sent, in order and once. -/
theorem alone_safe (s : St) (h : Reach step Alone init s) : Safe s := (reach_alone h).1.safe

/-! ## What goes wrong -/

/-- The first process dies with a message on its queue; the second makes its own queue and gets its own message. -/
def successor : List Event :=
  [.start, .first 0 true, .send 0 (message 64 3 0), .exit 0,
   .start, .first 1 true, .second 1 true, .remove 1 true, .third 1 true, .send 1 (message 64 5 0), .receive 1]

theorem successor_safe : ∃ s, Reach step Alone init s ∧ s.received = [(1, ⟨1, message 64 5 0⟩)] ∧ Safe s := by
  have hrun : ∃ s : St, runIf step (fun s e => decide (Alone s e)) init successor = some s ∧
      s.received = [(1, ⟨1, message 64 5 0⟩)] := ⟨_, rfl, rfl⟩
  obtain ⟨s, hr, hq⟩ := reach_of_runIf _ _ init _ successor hrun
  have hr : Reach step Alone init s := by simpa using hr
  exact ⟨s, hr, hq, alone_safe s hr⟩

/-- The second has removed the first one's queue when a third process makes one, which both then use. -/
theorem overlap_crosses : ∃ s : St, Reach step Free init s ∧ (1, ⟨2, message 64 5 0⟩) ∈ s.received :=
  reach_of_run step init _
    [.start, .first 0 true, .start, .first 1 true, .second 1 true, .remove 1 true,
     .start, .first 2 true, .third 1 true, .send 2 (message 64 5 0), .receive 1] ⟨_, rfl, by decide⟩

/-- The old queue stays, with what the process before left on it. -/
theorem refused_crosses : ∃ s : St, Reach step Free init s ∧ (1, ⟨0, message 64 3 0⟩) ∈ s.received :=
  reach_of_run step init _
    [.start, .first 0 true, .send 0 (message 64 3 0), .exit 0,
     .start, .first 1 true, .second 1 true, .remove 1 false, .third 1 true, .receive 1] ⟨_, rfl, by decide⟩

end UvWrapper.Utils.MsgQueueShare
