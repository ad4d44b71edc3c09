/-
  UvWrapper.Utils.EventLoop — a loop's thread from event_thread_create (event_loop_thread.c) to its
  end, with uv_tear_down (uv_wrapper.c).

      event_thread_create    malloc of args, malloc of loop, pthread_create
      event_thread           uv_loop_init, func, uv_run
      uv_tear_down           uv_loop_close; when it is busy: uv_walk, uv_run, uv_loop_close
      event_thread           free of loop, free of args

  uv_loop_init succeeds (its result is not looked at). func and the callbacks that uv_run makes open,
  start, stop and close handles and begin requests, as they like. A callback comes from a handle that is
  started and not closed, from a request, or at the end of a close; uv_run returns when there is none
  of these, and nobody calls uv_stop. uv_loop_close is busy while a handle or a request is left. The
  close callback of uv_wrapper.c does nothing.

  Proved: what event_thread_create acquired has been released once when all is over, with each handle
  closed once and none left on the loop when it is freed, in every run, if and only if args gets no memory, or
  args, loop and the thread are all there; and from its first uv_loop_close on the thread comes
  to its end (`torn_down`). A loop without memory is not noticed (the second test looks at args
  again), and a thread that cannot be made leaves both blocks behind.
-/

import UvWrapper.Lib.Trace

namespace UvWrapper.Utils.EventLoop

open UvWrapper.Lib.Trace

/-! ## State -/

inductive Res where
  | args
  | loop
  deriving DecidableEq, Repr

structure H where
  id : Nat
  active : Bool
  closing : Bool
  /-- Closed by the program, with its own callback. -/
  own : Bool
  deriving DecidableEq, Repr

inductive Pc where
  | loopInit
  | func
  | run (second : Bool)
  | close (second : Bool)
  | walk
  | freeLoop
  | freeArgs
  | ended
  /-- A NULL loop was written to. -/
  | crashed
  /-- event_thread_create has made no thread. -/
  | failed
  deriving DecidableEq, Repr

structure St where
  pc : Pc
  acquired : List Res
  released : List Res
  /-- args->loop and args->func are not NULL. -/
  loop : Bool
  func : Bool
  handles : List H
  reqs : Nat
  /-- The handles there ever were, and those whose close callback has run. -/
  opened : List Nat
  closed : List Nat
  /-- The handles on the loop when it was freed. -/
  stranded : List Nat
  deriving DecidableEq, Repr

/-- What the two mallocs and pthread_create return, and whether there is a start_routine. -/
structure Outcome where
  args : Bool
  loop : Bool
  thread : Bool
  func : Bool
  deriving DecidableEq, Repr

def eventThreadCreate (o : Outcome) : St :=
  if !o.args then ⟨.failed, [], [], false, o.func, [], 0, [], [], []⟩
  else
    let acquired := .args :: if o.loop then [.loop] else []
    -- the second `if (!args)`
    if !o.args then ⟨.failed, acquired, [], o.loop, o.func, [], 0, [], [], []⟩
    else ⟨if o.thread then .loopInit else .failed, acquired, [], o.loop, o.func, [], 0, [], [], []⟩

/-! ## Steps -/

inductive Act where
  | open_ (id : Nat)
  | start (id : Nat)
  | stop (id : Nat)
  | close (id : Nat)
  | request
  deriving DecidableEq, Repr

/-- A handle that is closing is left alone. -/
def H.on (id : Nat) (f : H → H) (h : H) : H := if h.id = id ∧ h.closing = false then f h else h

def act (s : St) : Act → St
  | .open_ id =>
    if id ∈ s.opened then s
    else { s with handles := s.handles ++ [⟨id, false, false, true⟩], opened := s.opened ++ [id] }
  | .start id => { s with handles := s.handles.map (H.on id fun h => { h with active := true }) }
  | .stop id => { s with handles := s.handles.map (H.on id fun h => { h with active := false }) }
  | .close id => { s with handles := s.handles.map (H.on id fun h => { h with active := false, closing := true }) }
  | .request => { s with reqs := s.reqs + 1 }

def acts (s : St) (l : List Act) : St := l.foldl act s

/-- `walk_cb`: uv_close with the close callback of uv_wrapper.c. -/
def walkCb (h : H) : H := if h.closing then h else { h with active := false, closing := true, own := false }

/-- What uv_run and uv_loop_close look at. -/
def alive (s : St) : Bool := s.reqs != 0 || s.handles.any fun h => h.active || h.closing

def busy (s : St) : Bool := s.reqs != 0 || !s.handles.isEmpty

inductive Source where
  | handle (h : H)
  | request
  | closed (h : H)
  deriving DecidableEq, Repr

inductive Ev where
  | func (l : List Act)
  /-- uv_run makes a callback, which does `l`. -/
  | callback (src : Source) (l : List Act)
  | ret
  /-- The thread's next call, outside uv_run. -/
  | next
  deriving DecidableEq, Repr

def callback (s : St) (l : List Act) : Source → Option St
  | .handle h => if h ∈ s.handles ∧ h.active = true ∧ h.closing = false then some (acts s l) else none
  | .request => if 0 < s.reqs then some (acts { s with reqs := s.reqs - 1 } l) else none
  | .closed h =>
    if h ∈ s.handles ∧ h.closing = true ∧ (h.own = false → l = []) then
      some (acts { s with handles := s.handles.erase h, closed := s.closed ++ [h.id] } l)
    else none

def step (s : St) : Ev → Option St
  | .func l =>
    if s.pc = .func ∧ (s.func = false → l = []) then some { acts s l with pc := .run false } else none
  | .callback src l =>
    match s.pc with
    | .run _ => callback s l src
    | _ => none
  | .ret =>
    match s.pc with
    | .run second => if alive s then none else some { s with pc := .close second }
    | _ => none
  | .next =>
    match s.pc with
    | .loopInit => some { s with pc := if s.loop then .func else .crashed }
    | .close false => some { s with pc := if busy s then .walk else .freeLoop }
    | .walk => some { s with handles := s.handles.map walkCb, pc := .run true }
    -- either way there is a line in the log, and no more
    | .close true => some { s with pc := .freeLoop }
    | .freeLoop => some { s with released := s.released ++ [.loop], stranded := s.handles.map H.id, pc := .freeArgs }
    | .freeArgs => some { s with released := s.released ++ [.args], pc := .ended }
    | _ => none

def Over (s : St) : Prop := s.pc = .ended ∨ s.pc = .crashed ∨ s.pc = .failed

structure Whole (s : St) : Prop where
  released : s.released.Perm s.acquired
  alone : s.stranded = []
  closed : s.closed.Perm s.opened
  once : s.closed.Nodup

variable {s s' : St} {e : Ev}

/-! ## What the program's actions keep -/

/-- Each handle that there was is on the loop, or its close callback has run. -/
structure Kept (s : St) : Prop where
  handles : (s.closed ++ s.handles.map H.id).Perm s.opened
  nodup : s.opened.Nodup

theorem on_id (id : Nat) {f : H → H} (hf : ∀ h, (f h).id = h.id) (h : H) : (H.on id f h).id = h.id := by
  unfold H.on
  split
  · exact hf h
  · rfl

theorem map_kept (hk : Kept s) {f : H → H} (hf : ∀ h, (f h).id = h.id) : Kept { s with handles := s.handles.map f } := by
  have hids : (s.handles.map f).map H.id = s.handles.map H.id := by
    rw [List.map_map]
    exact List.map_congr_left fun h _ => hf h
  refine ⟨?_, hk.nodup⟩
  show (s.closed ++ (s.handles.map f).map H.id).Perm s.opened
  rw [hids]
  exact hk.handles

theorem act_kept (hk : Kept s) (a : Act) : Kept (act s a) := by
  cases a with
  | open_ id =>
    simp only [act]
    split
    · exact hk
    · rename_i hid
      refine ⟨?_, nodup_snoc hk.nodup hid⟩
      show (s.closed ++ (s.handles ++ [_]).map H.id).Perm (s.opened ++ [id])
      rw [List.map_append, ← List.append_assoc]
      exact hk.handles.append_right [id]
  | start id => exact map_kept hk (on_id id fun _ => rfl)
  | stop id => exact map_kept hk (on_id id fun _ => rfl)
  | close id => exact map_kept hk (on_id id fun _ => rfl)
  | request => exact ⟨hk.handles, hk.nodup⟩

/-- The thread itself is where it was. -/
structure Same (s t : St) : Prop where
  pc : t.pc = s.pc
  acquired : t.acquired = s.acquired
  released : t.released = s.released
  loop : t.loop = s.loop
  stranded : t.stranded = s.stranded

theorem act_same (s : St) (a : Act) : Same s (act s a) := by
  cases a with
  | open_ id =>
    simp only [act]
    split <;> exact ⟨rfl, rfl, rfl, rfl, rfl⟩
  | _ => exact ⟨rfl, rfl, rfl, rfl, rfl⟩

theorem Same.trans {t u : St} (h : Same s t) (h' : Same t u) : Same s u :=
  ⟨h'.pc.trans h.pc, h'.acquired.trans h.acquired, h'.released.trans h.released, h'.loop.trans h.loop,
    h'.stranded.trans h.stranded⟩

theorem acts_kept (hk : Kept s) (l : List Act) : Kept (acts s l) ∧ Same s (acts s l) := by
  induction l generalizing s with
  | nil => exact ⟨hk, ⟨rfl, rfl, rfl, rfl, rfl⟩⟩
  | cons a l ih =>
    obtain ⟨h1, h2⟩ := ih (act_kept hk a)
    exact ⟨h1, (act_same s a).trans h2⟩

theorem closed_kept (hk : Kept s) {h : H} (hm : h ∈ s.handles) :
    Kept { s with handles := s.handles.erase h, closed := s.closed ++ [h.id] } := by
  refine ⟨?_, hk.nodup⟩
  show (s.closed ++ [h.id] ++ (s.handles.erase h).map H.id).Perm s.opened
  rw [List.append_assoc]
  exact ((List.perm_cons_erase hm).symm.map H.id |>.append_left s.closed).trans hk.handles

theorem callback_kept (hk : Kept s) {src : Source} {l : List Act} (h : callback s l src = some s') :
    Kept s' ∧ Same s s' := by
  cases src with
  | handle h' =>
    simp only [callback] at h
    split at h
    · obtain rfl := Option.some.inj h
      exact acts_kept hk l
    · cases h
  | request =>
    simp only [callback] at h
    split at h
    · obtain rfl := Option.some.inj h
      obtain ⟨h1, h2⟩ := acts_kept (s := { s with reqs := s.reqs - 1 }) ⟨hk.handles, hk.nodup⟩ l
      exact ⟨h1, ⟨h2.pc, h2.acquired, h2.released, h2.loop, h2.stranded⟩⟩
    · cases h
  | closed h' =>
    simp only [callback] at h
    split at h
    · rename_i hc
      obtain rfl := Option.some.inj h
      obtain ⟨h1, h2⟩ := acts_kept (closed_kept hk hc.1) l
      exact ⟨h1, ⟨h2.pc, h2.acquired, h2.released, h2.loop, h2.stranded⟩⟩
    · cases h

/-! ## Where the thread is -/

/-- What there is at each point of the thread. From the first uv_loop_close on the program does nothing more. -/
def AtPc (s : St) : Prop :=
  match s.pc with
  | .loopInit | .func | .run false => s.released = []
  | .close false | .walk => s.released = [] ∧ s.reqs = 0 ∧ ∀ h ∈ s.handles, h.active = false ∧ h.closing = false
  | .run true => s.released = [] ∧ s.reqs = 0 ∧ ∀ h ∈ s.handles, h.active = false ∧ h.closing = true ∧ h.own = false
  | .close true | .freeLoop => s.released = [] ∧ s.reqs = 0 ∧ s.handles = []
  | .freeArgs => s.released = [.loop] ∧ s.reqs = 0 ∧ s.handles = []
  | .ended => s.released = [.loop, .args] ∧ s.reqs = 0 ∧ s.handles = []
  | .crashed | .failed => False

structure Inv (s : St) : Prop where
  kept : Kept s
  at_pc : AtPc s
  acquired : s.acquired = [.args, .loop]
  loop : s.loop = true
  stranded : s.stranded = []

/-- A step of the thread alone. -/
theorem Inv.move (hi : Inv s) {pc : Pc} {released : List Res} (h : AtPc { s with pc := pc, released := released }) :
    Inv { s with pc := pc, released := released } :=
  ⟨⟨hi.kept.handles, hi.kept.nodup⟩, h, hi.acquired, hi.loop, hi.stranded⟩

theorem not_alive (h : alive s = false) : s.reqs = 0 ∧ ∀ h ∈ s.handles, h.active = false ∧ h.closing = false := by
  simpa [alive] using h

theorem not_busy (h : busy s = false) : s.handles = [] := by
  simp only [busy, Bool.or_eq_false_iff, Bool.not_eq_false', List.isEmpty_iff] at h
  exact h.2

/-- In the first uv_run anything may happen, in the second only the ends of closes. -/
theorem callback_inv (hi : Inv s) {second : Bool} (hp : s.pc = .run second) {src : Source} {l : List Act}
    (h : callback s l src = some s') : Inv s' := by
  obtain ⟨hk, hs⟩ := callback_kept hi.kept h
  refine ⟨hk, ?_, hs.acquired.trans hi.acquired, hs.loop.trans hi.loop, hs.stranded.trans hi.stranded⟩
  have hat := hi.at_pc
  unfold AtPc at hat ⊢
  rw [hs.pc, hp]
  rw [hp] at hat
  cases second with
  | false => exact hs.released.trans hat
  | true =>
    obtain ⟨hr, hq, hh⟩ := hat
    cases src with
    | handle x =>
      simp only [callback] at h
      split at h
      · rename_i hx
        rw [(hh x hx.1).1] at hx
        cases hx.2.1
      · cases h
    | request =>
      simp only [callback] at h
      split at h
      · omega
      · cases h
    | closed x =>
      simp only [callback] at h
      split at h
      · rename_i hx
        obtain rfl := Option.some.inj h
        rw [hx.2.2 (hh x hx.1).2.2]
        exact ⟨hr, hq, fun y hy => hh y (List.mem_of_mem_erase hy)⟩
      · cases h

theorem next_inv (hi : Inv s) (h : step s .next = some s') : Inv s' := by
  have hat := hi.at_pc
  unfold AtPc at hat
  simp only [step] at h
  split at h
  · rename_i hp
    obtain rfl := Option.some.inj h
    rw [hp] at hat
    refine hi.move ?_
    unfold AtPc
    rw [if_pos hi.loop]
    exact hat
  · rename_i hp
    obtain rfl := Option.some.inj h
    rw [hp] at hat
    refine hi.move ?_
    unfold AtPc
    by_cases hb : busy s = true
    · rw [if_pos hb]
      exact hat
    · rw [if_neg hb]
      have hempty : s.handles = [] := not_busy (by simpa using hb)
      exact ⟨hat.1, hat.2.1, hempty⟩
  · rename_i hp
    obtain rfl := Option.some.inj h
    rw [hp] at hat
    have hid : ∀ h, (walkCb h).id = h.id := fun h => by
      unfold walkCb
      split <;> rfl
    have hk := map_kept hi.kept hid
    refine ⟨⟨hk.handles, hk.nodup⟩, ?_, hi.acquired, hi.loop, hi.stranded⟩
    refine ⟨hat.1, hat.2.1, fun y hy => ?_⟩
    obtain ⟨x, hx, rfl⟩ := List.mem_map.mp hy
    unfold walkCb
    rw [if_neg (by simp [(hat.2.2 x hx).2])]
    exact ⟨rfl, rfl, rfl⟩
  · rename_i hp
    obtain rfl := Option.some.inj h
    rw [hp] at hat
    exact hi.move hat
  · rename_i hp
    obtain rfl := Option.some.inj h
    rw [hp] at hat
    refine ⟨⟨hi.kept.handles, hi.kept.nodup⟩, ⟨?_, hat.2⟩, hi.acquired, hi.loop, ?_⟩
    · show s.released ++ [.loop] = [.loop]
      rw [hat.1]
      rfl
    · show s.handles.map H.id = []
      rw [hat.2.2]
      rfl
  · rename_i hp
    obtain rfl := Option.some.inj h
    rw [hp] at hat
    refine hi.move ⟨?_, hat.2⟩
    show s.released ++ [.args] = [.loop, .args]
    rw [hat.1]
    rfl
  · cases h

theorem step_inv (hi : Inv s) (h : step s e = some s') : Inv s' := by
  cases e with
  | func l =>
    simp only [step] at h
    split at h
    · rename_i hc
      obtain rfl := Option.some.inj h
      obtain ⟨hk, hs⟩ := acts_kept hi.kept l
      have hat := hi.at_pc
      unfold AtPc at hat
      rw [hc.1] at hat
      exact ⟨⟨hk.handles, hk.nodup⟩, hs.released.trans hat, hs.acquired.trans hi.acquired, hs.loop.trans hi.loop,
        hs.stranded.trans hi.stranded⟩
    · cases h
  | callback src l =>
    simp only [step] at h
    split at h
    · exact callback_inv hi ‹_› h
    · cases h
  | ret =>
    have hat := hi.at_pc
    unfold AtPc at hat
    simp only [step] at h
    split at h
    · rename_i second hp
      split at h
      · cases h
      · rename_i ha
        obtain rfl := Option.some.inj h
        obtain ⟨hq, hh⟩ := not_alive (by simpa using ha)
        rw [hp] at hat
        refine hi.move ?_
        cases second with
        | false => exact ⟨hat, hq, hh⟩
        | true =>
          refine ⟨hat.1, hq, List.eq_nil_iff_forall_not_mem.mpr fun x hx => ?_⟩
          have := (hat.2.2 x hx).2.1
          rw [(hh x hx).2] at this
          cases this
    · cases h
  | next => exact next_inv hi h

/-! ## To the end -/

def Pc.past : Pc → Bool
  | .close _ | .walk | .run true | .freeLoop | .freeArgs | .ended => true
  | _ => false

def Pc.rank : Pc → Nat
  | .close false => 7
  | .walk => 6
  | .run _ => 5
  | .close true => 4
  | .freeLoop => 3
  | .freeArgs => 2
  | _ => 0

theorem goes_on (hi : Inv s) (hp : s.pc.past = true) (he : s.pc ≠ .ended) :
    ∃ e s', step s e = some s' ∧ s'.pc.past = true ∧ s'.handles.length + s'.pc.rank < s.handles.length + s.pc.rank := by
  have hat := hi.at_pc
  unfold AtPc at hat
  cases hpc : s.pc with
  | run second =>
    rw [hpc] at hp hat
    cases second with
    | false => cases hp
    | true =>
      cases hh : s.handles with
      | nil =>
        have ha : alive s = false := by
          unfold alive
          rw [hat.2.1, hh]
          rfl
        refine ⟨.ret, { s with pc := .close true }, ?_, rfl, ?_⟩
        · simp [step, hpc, ha]
        · show s.handles.length + 4 < _
          rw [hh]
          exact Nat.lt_succ_self 4
      | cons x l =>
        have hx : x ∈ s.handles := by
          rw [hh]
          exact List.mem_cons_self
        obtain ⟨-, h2, -⟩ := hat.2.2 x hx
        refine ⟨.callback (.closed x) [],
          { s with handles := s.handles.erase x, closed := s.closed ++ [x.id] }, ?_, ?_, ?_⟩
        · have hc : callback s [] (.closed x) =
              some { s with handles := s.handles.erase x, closed := s.closed ++ [x.id] } := if_pos ⟨hx, h2, fun _ => rfl⟩
          rw [← hc]
          simp only [step, hpc]
        · show s.pc.past = true
          rw [hpc]
          rfl
        · show (s.handles.erase x).length + s.pc.rank < _
          rw [List.length_erase_of_mem hx, hpc, hh]
          simp
  | close second =>
    cases second with
    | false =>
      refine ⟨.next, { s with pc := if busy s then .walk else .freeLoop }, by simp [step, hpc], ?_, ?_⟩
      · show (if busy s = true then Pc.walk else .freeLoop).past = true
        split <;> rfl
      · show s.handles.length + (if busy s = true then Pc.walk else .freeLoop).rank < _
        split <;> simp [Pc.rank]
    | true => exact ⟨.next, { s with pc := .freeLoop }, by simp [step, hpc], rfl, by simp [Pc.rank]⟩
  | walk =>
    refine ⟨.next, { s with handles := s.handles.map walkCb, pc := .run true }, by simp [step, hpc], rfl, ?_⟩
    show (s.handles.map walkCb).length + 5 < _
    rw [List.length_map]
    exact Nat.lt_succ_self _
  | freeLoop =>
    refine ⟨.next,
        { s with released := s.released ++ [.loop], stranded := s.handles.map H.id, pc := .freeArgs }, ?_, rfl, ?_⟩
    · simp [step, hpc]
    · exact Nat.lt_succ_self _
  | freeArgs =>
    refine ⟨.next, { s with released := s.released ++ [.args], pc := .ended }, ?_, rfl, ?_⟩
    · simp [step, hpc]
    · exact Nat.lt_add_of_pos_right (by decide)
  | ended => exact absurd hpc he
  | _ => rw [hpc] at hp; cases hp

/-! ## From its start -/

theorem created_inv {o : Outcome} (h : o.args = true ∧ o.loop = true ∧ o.thread = true) : Inv (eventThreadCreate o) := by
  obtain ⟨args, loop, thread, func⟩ := o
  obtain ⟨rfl, rfl, rfl⟩ := h
  exact ⟨⟨List.Perm.refl _, List.nodup_nil⟩, rfl, rfl, rfl, rfl⟩

theorem reach_inv {o : Outcome} (h : o.args = true ∧ o.loop = true ∧ o.thread = true)
    (hr : Reach step Free (eventThreadCreate o) s) : Inv s :=
  hr.invariant (created_inv h) fun _ _ _ hi _ hs => step_inv hi hs

/-- Where no thread was made, or it has crashed, nothing follows. -/
theorem stopped (h : s.pc = .failed ∨ s.pc = .crashed) : step s e = none := by
  rcases h with h | h <;> cases e <;> simp [step, h]

theorem reach_failed {s0 : St} (h : s0.pc = .failed) (hr : Reach step Free s0 s) : s = s0 := by
  refine hr.invariant (P := fun s => s = s0) rfl fun t e t' ht _ he => ?_
  rw [ht, stopped (.inl h)] at he
  cases he

theorem Inv.whole (hi : Inv s) (ho : Over s) : Whole s := by
  have hat := hi.at_pc
  unfold AtPc at hat
  rcases ho with hp | hp | hp <;> rw [hp] at hat
  · have hc : s.closed.Perm s.opened := by
      have := hi.kept.handles
      rwa [hat.2.2, List.map_nil, List.append_nil] at this
    refine ⟨?_, hi.stranded, hc, hc.nodup_iff.mpr hi.kept.nodup⟩
    rw [hat.1, hi.acquired]
    exact List.Perm.swap _ _ _
  · exact hat.elim
  · exact hat.elim

/-- Without a thread, or without a loop, something is left behind. -/
theorem not_whole {o : Outcome} (ha : o.args = true) (h : o.loop = false ∨ o.thread = false) :
    ∃ s, Reach step Free (eventThreadCreate o) s ∧ Over s ∧ ¬ Whole s := by
  obtain ⟨args, loop, thread, func⟩ := o
  obtain rfl : args = true := ha
  cases thread with
  | false =>
    refine ⟨_, .init, .inr (.inr rfl), fun hw => ?_⟩
    have := hw.released.length_eq
    cases loop <;> cases this
  | true =>
    obtain rfl : loop = false := h.resolve_right (by simp)
    refine ⟨_, .step .next .init trivial rfl, .inr (.inl rfl), fun hw => ?_⟩
    have := hw.released.length_eq
    cases this

/-- It has not got as far as a uv_run. -/
theorem short {o : Outcome} (ha : o.args = true) (h : o.loop = false ∨ o.thread = false)
    (hr : Reach step Free (eventThreadCreate o) s) : s.pc.past = false := by
  obtain ⟨args, loop, thread, func⟩ := o
  obtain rfl : args = true := ha
  have hstay : s.pc = .failed ∨ (s.pc = .loopInit ∧ s.loop = false) ∨ s.pc = .crashed := by
    refine hr.invariant (P := fun s => s.pc = .failed ∨ (s.pc = .loopInit ∧ s.loop = false) ∨ s.pc = .crashed) ?_ ?_
    · cases thread with
      | false => exact .inl rfl
      | true => exact .inr (.inl ⟨rfl, h.resolve_right (by simp)⟩)
    · intro s e s' hs _ he
      rcases hs with hp | ⟨hp, hl⟩ | hp
      · rw [stopped (.inl hp)] at he
        cases he
      · cases e <;> simp [step, hp, hl] at he
        subst he
        exact .inr (.inr rfl)
      · rw [stopped (.inr hp)] at he
        cases he
  rcases hstay with hp | ⟨hp, -⟩ | hp <;> rw [hp] <;> rfl

theorem torn_down (o : Outcome) :
    ((∀ s, Reach step Free (eventThreadCreate o) s → Over s → Whole s) ↔
      o.args = false ∨ (o.loop = true ∧ o.thread = true)) ∧
    ∀ s, Reach step Free (eventThreadCreate o) s → s.pc.past = true → ∃ es t, run step s es = some t ∧ t.pc = .ended := by
  by_cases ha : o.args = true
  · by_cases hall : o.loop = true ∧ o.thread = true
    · refine ⟨⟨fun _ => .inr hall, fun _ s hr ho => (reach_inv ⟨ha, hall⟩ hr).whole ho⟩, fun s hr hp => ?_⟩
      refine run_until (fun s => s.handles.length + s.pc.rank) (I := fun s => Inv s ∧ s.pc.past = true)
        (Q := fun s => s.pc = .ended) (fun s hi he => ?_) ⟨reach_inv ⟨ha, hall⟩ hr, hp⟩
      obtain ⟨e, s', h, hp', hlt⟩ := goes_on hi.1 hi.2 he
      exact ⟨e, s', h, ⟨step_inv hi.1 h, hp'⟩, hlt⟩
    · have hor : o.loop = false ∨ o.thread = false := by
        cases hl : o.loop with
        | false => exact .inl rfl
        | true =>
          cases ht : o.thread with
          | false => exact .inr rfl
          | true => exact absurd ⟨hl, ht⟩ hall
      refine ⟨⟨fun h => ?_, fun h => ?_⟩, fun s hr hp => ?_⟩
      · obtain ⟨s, hr, ho, hw⟩ := not_whole ha hor
        exact absurd (h s hr ho) hw
      · rw [ha] at h
        exact absurd (h.resolve_left (by simp)) hall
      · rw [short ha hor hr] at hp
        cases hp
  · have hf : o.args = false := by simpa using ha
    have hpc : (eventThreadCreate o).pc = .failed := by
      unfold eventThreadCreate
      rw [hf]
      rfl
    refine ⟨⟨fun _ => .inl hf, fun _ s hr _ => ?_⟩, fun s hr hp => ?_⟩
    · rw [reach_failed hpc hr]
      unfold eventThreadCreate
      rw [hf]
      exact ⟨List.Perm.refl _, rfl, List.Perm.refl _, List.nodup_nil⟩
    · rw [reach_failed hpc hr, hpc] at hp
      cases hp

end UvWrapper.Utils.EventLoop
