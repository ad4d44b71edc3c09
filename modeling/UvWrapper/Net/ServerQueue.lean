/-
  UvWrapper.Net.ServerQueue — a server whose sessions are a queue of queue.h: the ring through the
  nodes of its connections, in memory, changed by the macros and read by following pointers.

  The life of the server is that of `UvWrapper.Net.ServerLife`, where sessions are a list; here only
  what touches them differs: on_new_connection initialises the node and inserts it at the tail,
  on_close_connection removes it and tests for emptiness, close_handle tests and walks. Which close
  callback a client has is whether it became a connection (`conn`). A walk gets `fuel` rounds.

  Proved: step for step the two servers do the same. After any events, the pointers can be followed
  around the ring, and what is found is the list of the other server, in its state
  (`pointers_refine`): all that is proved of the list holds of the pointers.
-/

import UvWrapper.Net.ServerSessions
import UvWrapper.Utils.Queue

namespace UvWrapper.Net.ServerQueue

open UvWrapper.Lib UvWrapper.Lib.Links UvWrapper.Lib.Trace
open UvWrapper.Utils.Queue
open UvWrapper.Net.ServerLife (St Cb Frame Accept Ev Own callUser userRuns Onward)

/-! ## State -/

/-- `none` is the head in the tcp_server_t, `some n` the node in connection `n`. -/
abbrev Node := Option Nat

structure QSt where
  /-- All but its sessions, which nothing reads. -/
  base : St
  links : Links Node
  /-- Client `n`'s data is a connection. -/
  conn : Nat → Bool

/-- As tcp_server_run leaves it, in the memory `m`. -/
def init (m : Links Node) : QSt := ⟨ServerLife.init, queueInit m none, fun _ => false⟩

/-! ## Steps -/

def lift (c : QSt) (o : Option St) : Option QSt := o.map fun b => { c with base := b }

def reads (c : QSt) (server : Bool) (n : Option Nat) (t : QSt) : QSt :=
  if (server && c.base.frees != 0) || n.any (c.base.connFrees · != 0) then { c with base := { c.base with uaf := true } } else t

/-- The body of the walk: `tcp_server_conn_close(QUEUE_DATA(q, tcp_connection_t, node))`. -/
def connClose (c : QSt) (q : Node) : QSt :=
  match q with
  | some n => { c with base := ServerLife.connClose c.base n }
  | none => c

def closeSessions (fuel : Nat) (c : QSt) : Option QSt :=
  if queueEmpty c.links none then some { c with base := { c.base with frees := c.base.frees + 1 } }
  else queueForeach QSt.links connClose none fuel (queueHead c.links none) c

def closeHandle (fuel : Nat) (c : QSt) : Option QSt :=
  closeSessions fuel { c with base := { c.base with
    listen := c.base.listen.closeOnce, asyncSend := c.base.asyncSend.close, asyncClose := c.base.asyncClose.close } }

def onNewConnection (c : QSt) : Accept → Option QSt
  | .client n true =>
    if (c.base.client n).st = .absent then
      some (reads c true none
        { base := callUser { c.base with client := Function.update c.base.client n Handle.opened,
                                         connCount := c.base.connCount + 1 } (.onOpen n) [.readStart n]
          links := queueInsertTail (queueInit c.links (some n)) none (some n)
          conn := Function.update c.conn n true })
    else none
  | a => lift c (ServerLife.onNewConnection c.base a)

def onClosed (c : QSt) (n : Nat) : QSt :=
  if c.conn n then
    let b := { c.base with client := Function.update c.base.client n (c.base.client n).finish }
    reads c true (some n) { c with base := callUser b (.onClose n) [.remove n] }
  else { c with base := { c.base with client := Function.update c.base.client n (c.base.client n).finish.free } }

def remove (c : QSt) (n : Nat) : QSt :=
  let links := queueRemove c.links (some n)
  let b := { c.base with connCount := c.base.connCount - 1,
                         client := Function.update c.base.client n (c.base.client n).free,
                         connFrees := Function.update c.base.connFrees n (c.base.connFrees n + 1) }
  { c with base := if b.isClosing = true ∧ queueEmpty links none = true then { b with frees := b.frees + 1 } else b
           links := links }

def goOn (c : QSt) : Option QSt :=
  match c.base.stack with
  | .remove n :: r =>
    let t := remove c n
    some (reads c true (some n) { t with base := { t.base with stack := r } })
  | _ => lift c (ServerLife.goOn c.base)

def step (fuel : Nat) (c : QSt) (e : Ev) : Option QSt :=
  if c.base.uaf then none
  else match e with
  | .newConnection a => if c.base.stack = [] ∧ c.base.listen.st = .opened then onNewConnection c a else none
  | .closed n =>
    if c.base.stack = [] ∧ (c.base.client n).st = .closing ∧ n ∉ c.base.inflight then some (onClosed c n) else none
  | .asyncClose =>
    if c.base.stack = [] ∧ c.base.closePending = true ∧ c.base.asyncClose.st = .opened then
      (closeHandle fuel { c with base := { c.base with closePending := false } }).map (reads c true none)
    else none
  | .goOn => goOn c
  | .send n malloc =>
    if userRuns c.base.stack = true ∧ c.conn n = true ∧ c.base.connFrees n = 0 then
      lift c (some (ServerLife.sendData c.base n malloc))
    else none
  | .close =>
    if userRuns c.base.stack = true ∧ c.base.closer = .idle then
      (closeHandle fuel { c with base := { c.base with isClosing := true, closer := .done } }).map (reads c true none)
    else none
  | e => lift c (ServerLife.step c.base e)

/-- What a walk around the ring finds. -/
def sessions (fuel : Nat) (c : QSt) : Option (List Nat) :=
  queueForeach (fun _ => c.links) (fun l q => l ++ q.toList) none fuel (queueHead c.links none) []

/-- The server with the list that the walk finds. -/
def view (fuel : Nat) (c : QSt) : Option St := (sessions fuel c).map fun l => { c.base with sessions := l }

/-! ## The list that the ring holds -/

/-- An on_close_connection to go on with is the last frame, and of a connection with `P`. -/
def Removes (P : Nat → Prop) : List Frame → Prop
  | [] => True
  | .remove n :: r => P n ∧ r = []
  | _ :: r => Removes P r

def QSt.at (c : QSt) (l : List Nat) : St := { c.base with sessions := l }

structure Good (c : QSt) (l : List Nat) : Prop where
  rounds : Rounds c.links none (l.map some)
  conn : ∀ n, n ∈ l ↔ c.conn n = true ∧ c.base.connFrees n = 0
  freed : ∀ n, c.base.connFrees n ≠ 0 → (c.base.client n).st = .closed
  known : ∀ n, (c.base.client n).st = .absent → c.conn n = false
  removes : Removes (fun n => n ∈ l ∧ (c.base.client n).st = .closed) c.base.stack

/-- The same comes of a step here and there. -/
inductive Sim (k : Nat) : Option QSt → Option St → Prop
  | none : Sim k none none
  | some (c : QSt) (l : List Nat) : Good c l → l.length ≤ k → Sim k (some c) (some (c.at l))

variable {c t : QSt} {l l' : List Nat} {k fuel n : Nat}

theorem Removes.mono {P Q : Nat → Prop} (h : ∀ n, P n → Q n) {st : List Frame} (hs : Removes P st) : Removes Q st := by
  induction st with
  | nil => trivial
  | cons f r ih =>
    cases f with
    | remove n => exact ⟨h n hs.1, hs.2⟩
    | _ => exact ih hs

theorem init_good (m : Links Node) : Good (init m) [] where
  rounds := (queueInit_spec m none).1
  conn := fun _ => ⟨(fun h => by cases h), (fun h => by cases h.1)⟩
  freed := fun _ h => absurd rfl h
  known := fun _ _ => rfl
  removes := trivial

theorem Good.nodup (hg : Good c l) : l.Nodup := List.Nodup.of_map some (List.nodup_cons.mp hg.rounds.nodup).2

/-- A step of the base that frees no connection. -/
structure Quiet (b b' : St) : Prop where
  connFrees : b'.connFrees = b.connFrees
  client : Onward b.client b'.client
  stack : ∀ P, Removes P b.stack → Removes P b'.stack

theorem Good.quiet (hg : Good c l) {b : St} (hq : Quiet c.base b) : Good { c with base := b } l where
  rounds := hg.rounds
  conn := fun n => by rw [hq.connFrees]; exact hg.conn n
  freed := fun n hn => (hq.client n).1 (hg.freed n (hq.connFrees ▸ hn))
  known := fun n hn => hg.known n ((hq.client n).2 hn)
  removes := hq.stack _ (hg.removes.mono fun n h => ⟨h.1, (hq.client n).1 h.2⟩)

theorem quiet_sim (hg : Good c l) (hk : l.length ≤ k) {o : Option St} (hq : ∀ b, o = some b → Quiet c.base b) :
    Sim k (lift c o) (o.map fun b => { b with sessions := l }) := by
  cases o with
  | none => exact .none
  | some b => exact .some { c with base := b } l (hg.quiet (hq b rfl)) hk

theorem uaf_quiet (b : St) : Quiet b { b with uaf := true } := ⟨rfl, .refl _, fun _ h => h⟩

theorem reads_sim (hg : Good c l) (hk : l.length ≤ k) (ht : Good t l') (hk' : l'.length ≤ k) (server : Bool)
    (n : Option Nat) : Sim k (some (reads c server n t)) (some (ServerLife.reads (c.at l) server n (t.at l'))) := by
  unfold reads ServerLife.reads
  by_cases h : ((server && c.base.frees != 0) || n.any (c.base.connFrees · != 0)) = true
  · rw [if_pos h, if_pos (by exact h)]
    exact .some _ l (hg.quiet (uaf_quiet _)) hk
  · rw [if_neg h, if_neg (by exact h)]
    exact .some _ l' ht hk'

/-! ## Steps that leave sessions alone -/

theorem Quiet.of_eq {b b' : St} (h1 : b'.connFrees = b.connFrees) (h2 : b'.client = b.client)
    (h3 : b'.stack = b.stack) : Quiet b b' :=
  ⟨h1, by rw [h2]; exact .refl _, fun _ h => by rw [h3]; exact h⟩

theorem callUser_quiet {b : St} (cb : Cb) {r : List Frame} (hr : ∀ P, Removes P b.stack → Removes P r) :
    Quiet b (callUser b cb r) := ⟨rfl, .refl _, hr⟩

theorem client_quiet {b : St} {n : Nat} {h : Handle} (h1 : (b.client n).st = .closed → h.st = .closed)
    (h2 : h.st = .absent → (b.client n).st = .absent) : Quiet b { b with client := Function.update b.client n h } :=
  ⟨rfl, .update h1 h2, fun _ h => h⟩

theorem base_reads_quiet {b b' : St} (h : Quiet b b') (server : Bool) (n : Option Nat) :
    Quiet b (ServerLife.reads b server n b') := by
  unfold ServerLife.reads
  split
  · exact uaf_quiet b
  · exact h

theorem base_reads_at (b b' : St) (server : Bool) (n : Option Nat) (l : List Nat) :
    ServerLife.reads { b with sessions := l } server n { b' with sessions := l } =
      { ServerLife.reads b server n b' with sessions := l } := by
  unfold ServerLife.reads
  split <;> rfl

theorem onConnRead_sim (hg : Good c l) (hk : l.length ≤ k) (n : Nat) (nread : Int) :
    Sim k (lift c (some (ServerLife.onConnRead c.base n nread))) (some (ServerLife.onConnRead (c.at l) n nread)) := by
  have hat : ServerLife.onConnRead (c.at l) n nread = { ServerLife.onConnRead c.base n nread with sessions := l } := by
    unfold ServerLife.onConnRead QSt.at
    rw [← base_reads_at]
    split
    · rfl
    · split <;> rfl
  rw [hat]
  refine quiet_sim hg hk fun b hb => ?_
  cases hb
  refine base_reads_quiet ?_ true (some n)
  split
  · exact callUser_quiet _ fun P h => trivial
  · split
    · exact .of_eq rfl rfl rfl
    · exact callUser_quiet _ fun P h => trivial

theorem sendData_sim (hg : Good c l) (hk : l.length ≤ k) (n : Nat) (malloc : Bool) :
    Sim k (lift c (some (ServerLife.sendData c.base n malloc))) (some (ServerLife.sendData (c.at l) n malloc)) := by
  have hat : ServerLife.sendData (c.at l) n malloc = { ServerLife.sendData c.base n malloc with sessions := l } := by
    unfold ServerLife.sendData QSt.at
    rw [← base_reads_at]
    split <;> rfl
  rw [hat]
  refine quiet_sim hg hk fun b hb => ?_
  cases hb
  refine base_reads_quiet ?_ true (some n)
  split
  · exact .of_eq rfl rfl rfl
  · exact callUser_quiet _ fun P h => h

theorem closerStep_sim (hg : Good c l) (hk : l.length ≤ k) :
    Sim k (lift c (ServerLife.closerStep c.base)) (ServerLife.closerStep (c.at l)) := by
  have hat : ServerLife.closerStep (c.at l) = (ServerLife.closerStep c.base).map fun b => { b with sessions := l } := by
    unfold ServerLife.closerStep QSt.at
    cases h : c.base.closer <;> simp [h, ← base_reads_at]
  rw [hat]
  refine quiet_sim hg hk fun b hb => ?_
  unfold ServerLife.closerStep at hb
  cases h : c.base.closer <;> rw [h] at hb <;> cases hb <;>
    (refine base_reads_quiet ?_ true none; exact .of_eq rfl rfl rfl)

/-- The top frame is done, and is no on_close_connection. -/
theorem pop_quiet {b b' : St} {f : Frame} (hs : b.stack = f :: b'.stack) (hf : ∀ n, f ≠ .remove n)
    (h1 : b'.connFrees = b.connFrees) (h2 : Onward b.client b'.client) : Quiet b b' := by
  refine ⟨h1, h2, fun P h => ?_⟩
  rw [hs] at h
  cases f with
  | remove n => exact absurd rfl (hf n)
  | _ => exact h

theorem goOn_lift_sim (hg : Good c l) (hk : l.length ≤ k) (hr : ∀ n r, c.base.stack ≠ .remove n :: r) :
    Sim k (lift c (ServerLife.goOn c.base)) (ServerLife.goOn (c.at l)) := by
  have hat : ServerLife.goOn (c.at l) = (ServerLife.goOn c.base).map fun b => { b with sessions := l } := by
    unfold ServerLife.goOn QSt.at
    cases hs : c.base.stack with
    | nil => simp
    | cons f r =>
      cases f with
      | remove n => exact absurd hs (hr n r)
      | _ => simp [← base_reads_at, ServerLife.connClose]
  rw [hat]
  refine quiet_sim hg hk fun b hb => ?_
  unfold ServerLife.goOn at hb
  split at hb
  · rename_i n r hs
    cases hb
    refine pop_quiet (f := .readStart n) hs (by simp) rfl ?_
    exact .refl _
  · rename_i n r hs
    cases hb
    refine pop_quiet (f := .refuse n) hs (by simp) rfl ?_
    exact ServerLife.closeOnce_onward _ n
  · rename_i n r hs
    cases hb
    refine base_reads_quiet ?_ false (some n)
    refine pop_quiet (f := .readError n) hs (by simp) rfl ?_
    exact ServerLife.closeOnce_onward _ n
  · rename_i n r hs
    exact absurd hs (hr n r)
  · rename_i n r hs
    cases hb
    refine base_reads_quiet ?_ false (some n)
    refine pop_quiet (f := .sendFailed n) hs (by simp) rfl ?_
    exact .refl _
  · cases hb

/-! ## Steps that touch sessions -/

theorem accept_good (hg : Good c l) (hn : (c.base.client n).st = .absent) :
    Good { base := callUser { c.base with client := Function.update c.base.client n Handle.opened,
                                          connCount := c.base.connCount + 1 } (.onOpen n) [.readStart n]
           links := queueInsertTail (queueInit c.links (some n)) none (some n)
           conn := Function.update c.conn n true } (l ++ [n]) := by
  have hconn : c.conn n = false := hg.known n hn
  have hzero : c.base.connFrees n = 0 := by
    by_contra h
    have := hg.freed n h
    rw [hn] at this
    cases this
  have hnl : n ∉ l := fun h => by
    have := ((hg.conn n).mp h).1
    rw [hconn] at this
    cases this
  have hnode : some n ∉ none :: l.map some := by simpa using hnl
  have hon : Onward c.base.client (Function.update c.base.client n Handle.opened) :=
    .update (fun h => by rw [hn] at h; cases h) fun h => by cases h
  have hinit : Rounds (queueInit c.links (some n)) none (l.map some) :=
    hg.rounds.sameOff (queueInit_spec c.links (some n)).2 fun x hx hx' => hnode (by rw [← List.mem_singleton.mp hx']; exact hx)
  refine ⟨?_, fun m => ?_, fun m hm => (hon m).1 (hg.freed m hm), fun m hm => ?_, trivial⟩
  · rw [List.map_append]
    exact (queueInsertTail_spec hinit hnode).1
  · by_cases e : m = n
    · subst e
      simpa [callUser] using hzero
    · simpa [callUser, e] using hg.conn m
  · have hne : m ≠ n := fun e => by subst e; simp [callUser] at hm
    simpa [callUser, hne] using hg.known m ((hon m).2 hm)

theorem onNewConnection_sim (hg : Good c l) (hk : l.length < k) (a : Accept) :
    Sim k (onNewConnection c a) (ServerLife.onNewConnection (c.at l) a) := by
  have hle := Nat.le_of_lt hk
  have herr : ∀ b, some (ServerLife.reads c.base true none (callUser c.base (.onError none) [])) = some b →
      Quiet c.base b := fun b hb => by
    cases hb
    refine base_reads_quiet ?_ true none
    exact callUser_quiet _ fun P _ => trivial
  cases a with
  | error =>
    have := quiet_sim hg hle herr
    simpa [onNewConnection, ServerLife.onNewConnection, QSt.at, ← base_reads_at, callUser] using this
  | noMemory =>
    have := quiet_sim hg hle herr
    simpa [onNewConnection, ServerLife.onNewConnection, QSt.at, ← base_reads_at, callUser] using this
  | client n accepted =>
    by_cases hn : (c.base.client n).st = .absent
    · cases accepted with
      | true =>
        simp only [onNewConnection, ServerLife.onNewConnection, if_pos hn, QSt.at, if_true]
        exact reads_sim hg hle (accept_good hg hn) (by simp; omega) true none
      | false =>
        have hon : Onward c.base.client (Function.update c.base.client n Handle.opened) :=
          .update (fun h => by rw [hn] at h; cases h) fun h => by cases h
        have := quiet_sim hg hle (o := ServerLife.onNewConnection c.base (.client n false)) fun b hb => by
          simp only [ServerLife.onNewConnection, if_pos hn] at hb
          cases hb
          refine base_reads_quiet ?_ true none
          exact ⟨rfl, hon, fun P _ => trivial⟩
        simpa [onNewConnection, ServerLife.onNewConnection, QSt.at, hn, ← base_reads_at, callUser] using this
    · have hnone : ServerLife.onNewConnection (c.at l) (.client n accepted) = none := if_neg hn
      have hnone' : ServerLife.onNewConnection c.base (.client n accepted) = none := if_neg hn
      rw [hnone]
      cases accepted with
      | true => rw [onNewConnection, if_neg hn]; exact .none
      | false =>
        show Sim k (lift c (ServerLife.onNewConnection c.base (.client n false))) none
        rw [hnone']
        exact .none

theorem onClosed_sim (hg : Good c l) (hk : l.length ≤ k) (hc : (c.base.client n).st = .closing) :
    Sim k (some (onClosed c n)) (some (ServerLife.onClosed (c.at l) n)) := by
  unfold onClosed ServerLife.onClosed
  have hzero : c.base.connFrees n = 0 := by
    by_contra h
    have := hg.freed n h
    rw [hc] at this
    cases this
  by_cases hn : c.conn n = true
  · have hm : n ∈ l := (hg.conn n).mpr ⟨hn, hzero⟩
    rw [if_pos hn, if_pos (show n ∈ (c.at l).sessions from hm)]
    refine reads_sim hg hk (?_ : Good _ l) hk true (some n)
    have hon : Onward c.base.client (Function.update c.base.client n (c.base.client n).finish) :=
      .update (fun _ => rfl) fun h => by cases h
    exact {
      rounds := hg.rounds
      conn := hg.conn
      freed := fun m hm => (hon m).1 (hg.freed m hm)
      known := fun m hm => hg.known m ((hon m).2 hm)
      removes := ⟨⟨hm, by simp [callUser]⟩, rfl⟩ }
  · have hm : n ∉ l := fun h => hn ((hg.conn n).mp h).1
    rw [if_neg hn, if_neg (show n ∉ (c.at l).sessions from hm)]
    exact .some _ l (hg.quiet (client_quiet (fun _ => rfl) fun h => by cases h)) hk

/-- What remove leaves of the server, with no more to go on with. -/
theorem remove_good {xs ys : List Nat} (hg : Good c (xs ++ n :: ys)) (hcl : (c.base.client n).st = .closed)
    (hout : Rounds (queueRemove c.links (some n)) none ((xs ++ ys).map some)) :
    Good { remove c n with base := { (remove c n).base with stack := [] } } (xs ++ ys) := by
  have hnd := hg.nodup
  have hfrees : (remove c n).base.connFrees = Function.update c.base.connFrees n (c.base.connFrees n + 1) := by
    unfold remove
    dsimp only
    split <;> rfl
  have hclient : (remove c n).base.client = Function.update c.base.client n (c.base.client n).free := by
    unfold remove
    dsimp only
    split <;> rfl
  have hst : ∀ m, (Function.update c.base.client n (c.base.client n).free m).st = (c.base.client m).st := by
    intro m
    by_cases e : m = n
    · subst e; simp
    · simp [e]
  refine ⟨hout, fun m => ?_, fun m hm => ?_, fun m hm => ?_, trivial⟩
  · simp only [hfrees]
    by_cases e : m = n
    · subst e
      have : m ∉ xs ++ ys := by grind
      simp [this]
    · have := hg.conn m
      simp only [List.mem_append, List.mem_cons, e, false_or] at this
      rw [List.mem_append, Function.update_of_ne e]
      exact this
  · simp only [hclient, hst]
    simp only [hfrees] at hm
    by_cases e : m = n
    · subst e; exact hcl
    · rw [Function.update_of_ne e] at hm
      exact hg.freed m hm
  · simp only [hclient, hst] at hm
    exact hg.known m hm

theorem remove_at {xs ys : List Nat} (hx : n ∉ xs)
    (hout : Rounds (queueRemove c.links (some n)) none ((xs ++ ys).map some)) :
    ServerLife.remove (c.at (xs ++ n :: ys)) n = (remove c n).at (xs ++ ys) := by
  have hempty : queueEmpty (queueRemove c.links (some n)) none = true ↔ xs ++ ys = [] := by
    rw [queueEmpty_iff hout, List.map_eq_nil_iff]
  have herase : (xs ++ n :: ys).erase n = xs ++ ys := by
    rw [List.erase_append_right _ hx, List.erase_cons_head]
  unfold remove ServerLife.remove QSt.at
  simp only [herase, hempty]
  split <;> rfl

theorem remove_sim {r : List Frame} (hg : Good c l) (hk : l.length ≤ k) (hst : c.base.stack = .remove n :: r) :
    Sim k (goOn c) (ServerLife.goOn (c.at l)) := by
  have hrem := hg.removes
  rw [hst] at hrem
  obtain ⟨⟨hn, hcl⟩, rfl⟩ := hrem
  obtain ⟨xs, ys, rfl, hx⟩ := List.eq_append_cons_of_mem hn
  have hring := hg.rounds
  rw [List.map_append, List.map_cons] at hring
  have hout : Rounds (queueRemove c.links (some n)) none ((xs ++ ys).map some) := by
    rw [List.map_append]
    exact (queueRemove_spec hring).1
  have hc : goOn c = some (reads c true (some n) { remove c n with base := { (remove c n).base with stack := [] } }) := by
    unfold goOn
    rw [hst]
  have hs : ServerLife.goOn (c.at (xs ++ n :: ys)) = some (ServerLife.reads (c.at (xs ++ n :: ys)) true (some n)
      { ServerLife.remove (c.at (xs ++ n :: ys)) n with stack := [] }) := by
    unfold ServerLife.goOn
    rw [show (c.at (xs ++ n :: ys)).stack = [.remove n] from hst]
  rw [hc, hs, remove_at hx hout]
  exact reads_sim hg hk (remove_good hg hcl hout) (by simp at hk ⊢; omega) true (some n)

theorem connClose_fold (c : QSt) (l : List Nat) :
    (l.map some).foldl connClose c = { c with base := l.foldl ServerLife.connClose c.base } := by
  induction l generalizing c with
  | nil => rfl
  | cons n l ih =>
    rw [List.map_cons, List.foldl_cons, ih]
    rfl

theorem connClose_fold_quiet (b : St) (l : List Nat) : Quiet b (l.foldl ServerLife.connClose b) := by
  induction l generalizing b with
  | nil => exact .of_eq rfl rfl rfl
  | cons n l ih =>
    obtain ⟨h1, h2, h3⟩ := ih (ServerLife.connClose b n)
    refine ⟨h1, fun m => ?_, h3⟩
    have := ServerLife.closeOnce_onward b.client n m
    exact ⟨fun h => (h2 m).1 (this.1 h), fun h => this.2 ((h2 m).2 h)⟩

theorem connClose_fold_at (b : St) (l l' : List Nat) :
    l'.foldl ServerLife.connClose { b with sessions := l } = { l'.foldl ServerLife.connClose b with sessions := l } := by
  induction l' generalizing b with
  | nil => rfl
  | cons n l' ih => exact ih (ServerLife.connClose b n)

theorem closeSessions_sim (hg : Good c l) (hf : l.length < fuel) :
    ∃ t, closeSessions fuel c = some t ∧ Good t l ∧ ServerLife.closeSessions (c.at l) = t.at l := by
  have hempty : queueEmpty c.links none = true ↔ l = [] := by rw [queueEmpty_iff hg.rounds, List.map_eq_nil_iff]
  unfold closeSessions ServerLife.closeSessions
  by_cases hl : l = []
  · rw [if_pos (hempty.mpr hl), if_pos (show (c.at l).sessions = [] from hl)]
    exact ⟨_, rfl, hg.quiet (.of_eq rfl rfl rfl), rfl⟩
  · rw [if_neg (fun h => hl (hempty.mp h)), if_neg (show (c.at l).sessions ≠ [] from hl)]
    have hwalk := queueForeach_eq QSt.links connClose hg.rounds
      (fun _ q _ s _ x _ => by cases q <;> rfl) (by simpa using hf)
    rw [hwalk, connClose_fold]
    exact ⟨_, rfl, hg.quiet (connClose_fold_quiet c.base l), connClose_fold_at c.base l l⟩

theorem closeHandle_sim {b : St} (hg : Good c l) (hk : l.length ≤ k) (hf : l.length < fuel) (hq : Quiet c.base b) :
    Sim k ((closeHandle fuel { c with base := b }).map (reads c true none))
      (some (ServerLife.reads (c.at l) true none (ServerLife.closeHandle { b with sessions := l }))) := by
  have hg' : Good { c with base := { b with
      listen := b.listen.closeOnce, asyncSend := b.asyncSend.close, asyncClose := b.asyncClose.close } } l :=
    hg.quiet ⟨hq.connFrees, hq.client, hq.stack⟩
  obtain ⟨t, ht, htg, he⟩ := closeSessions_sim hg' hf
  unfold closeHandle ServerLife.closeHandle
  rw [ht, Option.map_some]
  have := reads_sim hg hk htg hk true none
  rwa [← he] at this

/-- A step that both take under the same condition. -/
theorem guard_sim {p q : Prop} [Decidable p] [Decidable q] {o : Option QSt} {o' : Option St} (hpq : p ↔ q)
    (h : p → Sim k o o') : Sim k (if p then o else none) (if q then o' else none) := by
  by_cases hp : p
  · rw [if_pos hp, if_pos (hpq.mp hp)]
    exact h hp
  · rw [if_neg hp, if_neg (fun hq => hp (hpq.mpr hq))]
    exact .none

theorem lift_guard {p q : Prop} [Decidable p] [Decidable q] {o : Option St} {o' : Option St} (hpq : p ↔ q)
    (h : p → Sim k (lift c o) o') : Sim k (lift c (if p then o else none)) (if q then o' else none) := by
  have he : lift c (if p then o else none) = if p then lift c o else none := by split <;> rfl
  rw [he]
  exact guard_sim hpq h

theorem written_sim (hg : Good c l) (hk : l.length ≤ k) (i : Nat) :
    Sim k (lift c (c.base.inflight[i]?.map fun n =>
        ServerLife.reads c.base false (some n) { c.base with inflight := c.base.inflight.eraseIdx i }))
      ((c.at l).inflight[i]?.map fun n =>
        ServerLife.reads (c.at l) false (some n) { c.at l with inflight := (c.at l).inflight.eraseIdx i }) := by
  show Sim k _ (c.base.inflight[i]?.map _)
  cases c.base.inflight[i]? with
  | none => exact .none
  | some n =>
    have := quiet_sim hg hk (o := some (ServerLife.reads c.base false (some n)
      { c.base with inflight := c.base.inflight.eraseIdx i })) fun b hb => by
        cases hb
        refine base_reads_quiet ?_ false (some n)
        exact .of_eq rfl rfl rfl
    rw [Option.map_some, ← base_reads_at] at this
    exact this

/-- A change of the base that sessions, the clients, the connections and the stack are not part of. -/
theorem still_sim (hg : Good c l) (hk : l.length ≤ k) {b : St} (hq : Quiet c.base b) :
    Sim k (lift c (some b)) (some { b with sessions := l }) :=
  quiet_sim hg hk (o := some b) fun _ hb => by cases hb; exact hq

theorem onOwnClosed_sim (hg : Good c l) (hk : l.length ≤ k) (h : Own) :
    Sim k (lift c (ServerLife.onOwnClosed c.base h)) (ServerLife.onOwnClosed (c.at l) h) := by
  cases h <;> exact lift_guard .rfl fun _ => still_sim hg hk (.of_eq rfl rfl rfl)

/-- User code returns. -/
theorem ret_sim (hg : Good c l) (hk : l.length ≤ k) (hu : c.base.uaf = false) :
    Sim k (lift c (ServerLife.step c.base .ret)) (ServerLife.step (c.at l) .ret) := by
  rcases hs : c.base.stack with _ | ⟨f, r⟩
  · have h1 : ServerLife.step c.base .ret = none := by simp [ServerLife.step, hu, hs]
    have h2 : ServerLife.step (c.at l) .ret = none := by simp [ServerLife.step, QSt.at, hu, hs]
    rw [h1, h2]
    exact .none
  · cases f with
    | user cb =>
      have h1 : ServerLife.step c.base .ret = some { c.base with stack := r, log := c.base.log ++ [.ret cb] } := by
        simp [ServerLife.step, hu, hs]
      have h2 : ServerLife.step (c.at l) .ret =
          some { c.base with stack := r, log := c.base.log ++ [.ret cb], sessions := l } := by
        simp [ServerLife.step, QSt.at, hu, hs]
      rw [h1, h2]
      refine still_sim hg hk ?_
      exact pop_quiet (f := .user cb) hs (by simp) rfl (.refl _)
    | _ =>
      have h1 : ServerLife.step c.base .ret = none := by simp [ServerLife.step, hu, hs]
      have h2 : ServerLife.step (c.at l) .ret = none := by simp [ServerLife.step, QSt.at, hu, hs]
      rw [h1, h2]
      exact .none

theorem step_sim (hg : Good c l) (hk : l.length < k) (hf : l.length < fuel) (e : Ev) :
    Sim k (step fuel c e) (ServerLife.step (c.at l) e) := by
  have hle := Nat.le_of_lt hk
  unfold step
  by_cases hu : c.base.uaf = true
  · have h2 : ServerLife.step (c.at l) e = none := by
      unfold ServerLife.step
      rw [if_pos (show (c.at l).uaf = true from hu)]
    rw [if_pos hu, h2]
    exact .none
  rw [if_neg hu]
  cases e with
  | newConnection a =>
    unfold ServerLife.step
    rw [if_neg (show ¬ (c.at l).uaf = true from hu)]
    exact guard_sim .rfl fun _ => onNewConnection_sim hg hk a
  | closed n =>
    unfold ServerLife.step
    rw [if_neg (show ¬ (c.at l).uaf = true from hu)]
    exact guard_sim .rfl fun h => onClosed_sim hg hle h.2.1
  | asyncClose =>
    unfold ServerLife.step
    rw [if_neg (show ¬ (c.at l).uaf = true from hu)]
    exact guard_sim .rfl fun _ => closeHandle_sim hg hle hf (.of_eq rfl rfl rfl)
  | goOn =>
    unfold ServerLife.step
    rw [if_neg (show ¬ (c.at l).uaf = true from hu)]
    by_cases h : ∃ n r, c.base.stack = .remove n :: r
    · obtain ⟨n, r, h⟩ := h
      exact remove_sim hg hle h
    · have hc : goOn c = lift c (ServerLife.goOn c.base) := by
        unfold goOn
        split
        · rename_i n r hs
          exact absurd ⟨n, r, hs⟩ h
        · rfl
      show Sim k (goOn c) (ServerLife.goOn (c.at l))
      rw [hc]
      exact goOn_lift_sim hg hle fun n r hs => h ⟨n, r, hs⟩
  | send n malloc =>
    unfold ServerLife.step
    rw [if_neg (show ¬ (c.at l).uaf = true from hu)]
    exact guard_sim (and_congr_right fun _ => (hg.conn n).symm) fun _ => sendData_sim hg hle n malloc
  | close =>
    unfold ServerLife.step
    rw [if_neg (show ¬ (c.at l).uaf = true from hu)]
    exact guard_sim .rfl fun _ => closeHandle_sim hg hle hf (.of_eq rfl rfl rfl)
  | closer =>
    have h1 : ServerLife.step c.base .closer = ServerLife.closerStep c.base := by
      unfold ServerLife.step
      rw [if_neg hu]
    have h2 : ServerLife.step (c.at l) .closer = ServerLife.closerStep (c.at l) := by
      unfold ServerLife.step
      rw [if_neg (show ¬ (c.at l).uaf = true from hu)]
    show Sim k (lift c (ServerLife.step c.base .closer)) _
    rw [h1, h2]
    exact closerStep_sim hg hle
  | read n nread =>
    unfold ServerLife.step
    rw [if_neg (show ¬ (c.at l).uaf = true from hu)]
    simp only [if_neg hu]
    exact lift_guard .rfl fun _ => onConnRead_sim hg hle n nread
  | written i =>
    unfold ServerLife.step
    rw [if_neg (show ¬ (c.at l).uaf = true from hu)]
    simp only [if_neg hu]
    exact lift_guard .rfl fun _ => written_sim hg hle i
  | ownClosed h =>
    unfold ServerLife.step
    rw [if_neg (show ¬ (c.at l).uaf = true from hu)]
    simp only [if_neg hu]
    exact lift_guard .rfl fun _ => onOwnClosed_sim hg hle h
  | ret => exact ret_sim hg hle (by simpa using hu)

/-! ## Runs -/

theorem run_sim (hg : Good c l) (es : List Ev) (hk : l.length + es.length ≤ k) (hf : k < fuel) :
    Sim k (run (step fuel) c es) (run ServerLife.step (c.at l) es) := by
  induction es generalizing c l with
  | nil => exact .some c l hg hk
  | cons e es ih =>
    rw [List.length_cons] at hk
    have hstep : Sim (l.length + 1) (step fuel c e) (ServerLife.step (c.at l) e) := step_sim hg (by omega) (by omega) e
    simp only [run]
    generalize step fuel c e = o, ServerLife.step (c.at l) e = o' at hstep ⊢
    cases hstep with
    | none => exact .none
    | some c' l' hg' hl' => exact ih hg' (by omega)

theorem view_eq (hg : Good c l) (hf : l.length < fuel) : view fuel c = some (c.at l) := by
  have hwalk := queueForeach_eq (fun _ : List Nat => c.links) (fun l q => l ++ q.toList) (s := []) hg.rounds
    (fun _ _ _ _ _ _ _ => rfl) (by simpa using hf)
  have hfold : ∀ l acc : List Nat, (l.map some).foldl (fun l q => l ++ Option.toList q) acc = acc ++ l := by
    intro l
    induction l with
    | nil => simp
    | cons n l ih => intro acc; simp [ih]
  rw [view, sessions, hwalk, hfold]
  rfl

theorem pointers_refine (m : Links Node) {es : List Ev} {fuel : Nat} (h : es.length < fuel) :
    (run (step fuel) (init m) es).bind (view fuel) = run ServerLife.step ServerLife.init es ∧
      ∀ c, run (step fuel) (init m) es = some c →
        ∃ l : List Nat, Rounds c.links none (l.map some) ∧ l.length ≤ es.length ∧ ∀ n ∈ l, c.base.connFrees n = 0 := by
  have hsim : Sim es.length (run (step fuel) (init m) es) (run ServerLife.step ServerLife.init es) :=
    run_sim (init_good m) es (by simp) h
  generalize run (step fuel) (init m) es = o, run ServerLife.step ServerLife.init es = o' at hsim ⊢
  cases hsim with
  | none => exact ⟨rfl, fun c hc => by cases hc⟩
  | some c l hg hl =>
    refine ⟨view_eq hg (by omega), fun c' hc => ?_⟩
    cases hc
    exact ⟨l, hg.rounds, hl, fun n hn => ((hg.conn n).mp hn).2⟩

def disconnect : List Ev :=
  [.newConnection (.client 0 true), .ret, .goOn, .newConnection (.client 1 true), .ret, .goOn, .read 0 (-1), .ret, .goOn,
   .closed 0, .ret, .goOn]

theorem disconnect_refines :
    (run (step 13) (init ⟨id, id⟩) disconnect).bind (view 13) = run ServerLife.step ServerLife.init disconnect ∧
      (run (step 13) (init ⟨id, id⟩) disconnect).bind (sessions 13) = some [1] :=
  ⟨(pointers_refine ⟨id, id⟩ (show disconnect.length < 13 by decide)).1, by decide⟩

end UvWrapper.Net.ServerQueue
