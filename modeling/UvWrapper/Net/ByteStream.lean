/-
  UvWrapper.Net.ByteStream — the bytes given to tcp_client_send_data or tcp_server_send_data, from the
  sender's memory to the on_read of the other end (tcp_client.c, tcp_server.c).

      data --uv_write: place and length--> libuv's queue --the kernel--> the wire --read: buf--> on_read

  The calls are those of `UvWrapper.Net.SendPath`, on any number of connections and threads. Nothing is copied
  before the kernel takes it, in pieces of any length, so that what is written is what the memory holds
  then; anybody may store to it at any time (`store`). A request completes when all of it is
  taken. The other end reads at most MAX_BUF_LEN bytes at a time. No connection breaks, no read or
  write of the kernel's fails and no session is closed, so that uv_write takes every write.
  `stray` is what a `&buf` reads as whose call has returned.

  Proved, where no connection is sent to both on the loop's thread and on others, and data is left alone
  until its request has completed: on_read is given the messages byte for byte, one after another in the order
  of their writes, which no call that began later than another's write turns around; a call on another thread returns
  when its message is out, and data is the caller's again (`delivered`).
-/

import UvWrapper.Net.Echo
import UvWrapper.Net.ServerIsolation

namespace UvWrapper.Net.ByteStream

open UvWrapper.Lib UvWrapper.Lib.Trace
open UvWrapper.Net.SendPath (Call Cfg Buf Submit Req Frame Begun Submitted Completed Failed Owned acceptedStep derefBuf
  running)
open UvWrapper.Net.Echo (bytesAt bytesAt_length bytesAt_take maxBufLen)
open UvWrapper.Net.ServerIsolation (Kept reach_kept)

/-! ## State -/

/-- What is left of a write: where it is, and its bytes at uv_write. -/
structure Write where
  call : Nat
  off : Nat
  own : List UInt8
  deriving DecidableEq, Repr

structure Conn where
  queue : List Write
  wire : List UInt8
  /-- What the other end's on_read was given. -/
  reads : List (List UInt8)
  deriving DecidableEq, Repr

structure St where
  path : SendPath.St Unit
  mem : Nat → UInt8
  conn : Nat → Conn
  /-- The bytes at data when the call was made. -/
  told : Nat → List UInt8

def init (mem : Nat → UInt8) : St := ⟨SendPath.init (), mem, fun _ => ⟨[], [], []⟩, fun _ => []⟩

/-! ## Steps -/

variable (cfg : Cfg Unit) (stray : Buf)

def Write.advance (w : Write) (n : Nat) : Write := { w with off := w.off + n, own := w.own.drop n }

/-- The kernel takes `n` bytes of the first write. -/
def uvWrite (mem : Nat → UInt8) (x : Conn) (n : Nat) : Option Conn :=
  match x.queue with
  | w :: q =>
    if n ≤ w.own.length then
      some { x with queue := if n = w.own.length then q else w.advance n :: q, wire := x.wire ++ bytesAt mem w.off n }
    else none
  | [] => none

def onRead (x : Conn) (n : Nat) : Option Conn :=
  if 0 < n ∧ n ≤ maxBufLen ∧ n ≤ x.wire.length then
    some { x with wire := x.wire.drop n, reads := x.reads ++ [x.wire.take n] }
  else none

def enqueue (s : St) (k c : Nat) : Conn :=
  let b := (derefBuf cfg s.path (s.path.slot c).buf).getD stray
  { s.conn c with queue := (s.conn c).queue ++ [⟨k, b.base, bytesAt s.mem b.base b.len⟩] }

inductive Ev where
  /-- A step of a caller or of the loop. -/
  | path (e : SendPath.Ev)
  | store (a : Nat) (b : UInt8)
  | write (c n : Nat)
  | read (c n : Nat)
  deriving DecidableEq, Repr

def setConn (s : St) (c : Nat) (x : Conn) : St := { s with conn := Function.update s.conn c x }

/-- libuv calls back for a request that is not queued any more. -/
def finished (s : St) : SendPath.Ev → Bool
  | .written i =>
    match s.path.inflight[i]? with
    | some r => (s.conn r.conn).queue.all fun w => w.call != r.call
    | none => true
  | _ => true

/-- What a step of the send path does outside it. -/
def around (s : St) : SendPath.Ev → St
  | .call k => { s with told := Function.update s.told k (bytesAt s.mem (cfg.buf k).base (cfg.buf k).len) }
  | .loop true true =>
    match s.path.stack with
    | .sendData k c :: _ => setConn s c (enqueue cfg stray s k c)
    | _ => s
  | _ => s

def step (s : St) : Ev → Option St
  | .path e =>
    if finished s e then (SendPath.step cfg s.path e).map fun p => { around cfg stray s e with path := p } else none
  | .store a b => some { s with mem := Function.update s.mem a b }
  | .write c n => (uvWrite s.mem (s.conn c) n).map (setConn s c)
  | .read c n => (onRead (s.conn c) n).map (setConn s c)

/-! ## What is promised -/

def InUse (s : St) (k : Nat) : Prop := k ∈ s.path.live ∨ k ∈ s.path.inflight.map Req.call

/-- uv_write takes its write, and nothing is stored to data that is in use. -/
def quiet (s : St) : Ev → Bool
  | .path e => acceptedStep s.path e
  | .store a _ =>
    (s.path.live ++ s.path.inflight.map Req.call).all fun k =>
      !(decide ((cfg.buf k).base ≤ a) && decide (a < (cfg.buf k).base + (cfg.buf k).len))
  | _ => true

/-- The calls on a connection in the order of their writes. -/
def callsOn (s : St) (c : Nat) : List Nat := (s.path.submits.filter fun e => e.conn == c).map Submit.call

def messages (s : St) (c : Nat) : List UInt8 := (callsOn s c).flatMap s.told

def Conn.out (x : Conn) : List UInt8 := x.reads.flatten ++ x.wire

/-- The message of call `k` is out, in its place. -/
def Out (s : St) (k : Nat) : Prop :=
  ∃ pre post, callsOn s (cfg.conn k) = pre ++ k :: post ∧
    (pre ++ [k]).flatMap s.told <+: (s.conn (cfg.conn k)).out

def Ev.goesOn : Ev → Bool
  | .path e => e.goesOn
  | .write _ _ => true
  | _ => false

structure Delivered (s : St) : Prop where
  /-- What is out and what is queued are the messages. -/
  accounted : ∀ c, messages s c = (s.conn c).out ++ (s.conn c).queue.flatMap Write.own
  chunks : ∀ c, ∀ b ∈ (s.conn c).reads, 0 < b.length ∧ b.length ≤ maxBufLen
  /-- Each call's message is there once, on its own connection. -/
  once : (s.path.submits.map Submit.call).Nodup ∧ ∀ e ∈ s.path.submits, e.conn = cfg.conn e.call
  completed : ∀ k, Completed s.path k → Out cfg s k
  returned : ∀ k, s.path.h.pc k = .ret → (cfg.null k = true ∨ Failed s.path k ∨ Completed s.path k) ∧ ¬ InUse s k
  goesOn : ∀ k, running s.path k → ∃ e : Ev, e.goesOn = true ∧ (step cfg stray s e).isSome = true

variable {cfg stray} {s s' : St} {x x' : Conn} {mem : Nat → UInt8}

/-! ## One connection -/

/-- The writes that are queued, from the first one on, of which `head` is out already. -/
def Carries (told : Nat → List UInt8) (head : List UInt8) : List Write → Prop
  | [] => head = []
  | w :: q => head ++ w.own = told w.call ∧ ∀ v ∈ q, v.own = told v.call

def Write.held (mem : Nat → UInt8) (w : Write) : Prop := bytesAt mem w.off w.own.length = w.own

/-- The calls `l` have their messages out, or queued in this order. -/
structure Lined (told : Nat → List UInt8) (mem : Nat → UInt8) (l : List Nat) (x : Conn) : Prop where
  split : ∃ done head, l = done ++ x.queue.map Write.call ∧ x.out = done.flatMap told ++ head ∧ Carries told head x.queue
  held : ∀ w ∈ x.queue, w.held mem

variable {told : Nat → List UInt8} {l : List Nat}

theorem carries_own {head : List UInt8} {q : List Write} (h : Carries told head q) :
    head ++ q.flatMap Write.own = (q.map Write.call).flatMap told := by
  cases q with
  | nil =>
    obtain rfl : head = [] := h
    rfl
  | cons w q =>
    obtain ⟨hw, hq⟩ := h
    rw [List.flatMap_cons, List.map_cons, List.flatMap_cons, ← List.append_assoc, hw, List.flatMap_map]
    congr 1
    exact List.flatMap_congr hq

theorem Lined.whole (h : Lined told mem l x) : l.flatMap told = x.out ++ x.queue.flatMap Write.own := by
  obtain ⟨done, head, rfl, ho, hc⟩ := h.split
  rw [List.flatMap_append, ho, List.append_assoc, carries_own hc]

theorem held_advance {w : Write} (h : w.held mem) (n : Nat) : (w.advance n).held mem :=
  Echo.Write.held.advance (w := ⟨w.off, w.own⟩) h

theorem uvWrite_lined (hx : Lined told mem l x) {n : Nat} (h : uvWrite mem x n = some x') :
    Lined told mem l x' ∧ x'.reads = x.reads := by
  unfold uvWrite at h
  split at h
  · rename_i w q hq
    split at h
    · rename_i hn
      obtain rfl := Option.some.inj h
      obtain ⟨done, head, hl, ho, hc⟩ := hx.split
      rw [hq] at hl hc
      obtain ⟨hw, hrest⟩ := hc
      have hheld : ∀ v ∈ w :: q, v.held mem := fun v hv => hx.held v (hq ▸ hv)
      have hbytes : bytesAt mem w.off n = w.own.take n := by
        rw [← bytesAt_take mem w.off hn, hheld w List.mem_cons_self]
      have hout : x.reads.flatten ++ (x.wire ++ bytesAt mem w.off n) = done.flatMap told ++ (head ++ w.own.take n) := by
        rw [← List.append_assoc, show x.reads.flatten ++ x.wire = x.out from rfl, ho, hbytes, List.append_assoc]
      by_cases he : n = w.own.length
      · -- the whole of it is out
        refine ⟨⟨⟨done ++ [w.call], [], ?_, ?_, ?_⟩, fun v hv => ?_⟩, rfl⟩
        · rw [if_pos he, hl, List.map_cons, List.append_assoc]
          rfl
        · show x.reads.flatten ++ (x.wire ++ bytesAt mem w.off n) = _
          rw [hout, he, List.take_length, hw]
          simp
        · rw [if_pos he]
          cases q with
          | nil => rfl
          | cons v q => exact ⟨hrest v List.mem_cons_self, fun u hu => hrest u (List.mem_cons_of_mem _ hu)⟩
        · rw [if_pos he] at hv
          exact hheld v (List.mem_cons_of_mem _ hv)
      · refine ⟨⟨⟨done, head ++ w.own.take n, ?_, hout, ?_⟩, fun v hv => ?_⟩, rfl⟩
        · rw [if_neg he, hl]
          rfl
        · rw [if_neg he]
          refine ⟨?_, hrest⟩
          show head ++ w.own.take n ++ w.own.drop n = told w.call
          rw [List.append_assoc, List.take_append_drop, hw]
        · rw [if_neg he] at hv
          rcases List.mem_cons.mp hv with rfl | hv
          · exact held_advance (hheld w List.mem_cons_self) n
          · exact hheld v (List.mem_cons_of_mem _ hv)
    · cases h
  · cases h

theorem onRead_out {n : Nat} (h : onRead x n = some x') :
    x'.out = x.out ∧ x'.queue = x.queue ∧
      ((∀ b ∈ x.reads, 0 < b.length ∧ b.length ≤ maxBufLen) → ∀ b ∈ x'.reads, 0 < b.length ∧ b.length ≤ maxBufLen) := by
  unfold onRead at h
  split at h
  · rename_i hn
    obtain rfl := Option.some.inj h
    refine ⟨?_, rfl, fun hb b hm => ?_⟩
    · simp [Conn.out]
    · rcases mem_snoc.mp hm with hm | rfl
      · exact hb b hm
      · rw [List.length_take]
        omega
  · cases h

/-! ## The send path's steps -/

structure Calm (p p' : SendPath.St Unit) : Prop where
  submits : p'.submits = p.submits
  inflight : p'.inflight = p.inflight
  completed : p'.completed = p.completed
  live : ∀ k ∈ p'.live, k ∈ p.live

variable {p p' : SendPath.St Unit} {k : Nat}

theorem checkFlag_calm (cfg : Cfg Unit) (p : SendPath.St Unit) (k c : Nat) : Calm p (SendPath.checkFlag cfg p k c) := by
  unfold SendPath.checkFlag
  split
  · exact ⟨rfl, rfl, rfl, fun _ h => h⟩
  · split <;> exact ⟨rfl, rfl, rfl, fun _ h => h⟩

theorem callerStep_calm (h : SendPath.callerStep cfg p k = some p') : Calm p p' := by
  unfold SendPath.callerStep at h
  repeat' split at h
  all_goals cases h <;> exact ⟨rfl, rfl, rfl, fun _ h => h⟩

/-- A call that begins has no message yet. -/
theorem enter_new (hk : Kept cfg p) (h : SendPath.enter cfg p k = some p') :
    (p'.submits = p.submits ∧ p'.inflight = p.inflight ∧ p'.completed = p.completed ∧ ∀ j ∈ p'.live, j ∈ p.live ∨ j = k) ∧
      ¬ Submitted p k ∧ k ∉ p.live := by
  have hbegun : Submitted p k ∨ k ∈ p.live → Begun p k ∧ cfg.null k = false := by
    rintro (h | h)
    · exact hk.outcomes.submitted k h
    · exact ⟨(hk.outcomes.live k h).1, (hk.outcomes.live k h).2.1⟩
  have hnew : cfg.null k = true ∨ ¬ Begun p k → ¬ Submitted p k ∧ k ∉ p.live := by
    rintro (hn | hb)
    · have hno : ¬ (Submitted p k ∨ k ∈ p.live) := fun h => by
        rw [(hbegun h).2] at hn
        cases hn
      exact ⟨fun h => hno (.inl h), fun h => hno (.inr h)⟩
    · exact ⟨fun h => hb (hbegun (.inl h)).1, fun h => hb (hbegun (.inr h)).1⟩
  have haddr : SendPath.storeAddr cfg p k = p := by
    unfold SendPath.storeAddr
    split <;> rfl
  unfold SendPath.enter at h
  rw [haddr] at h
  unfold SendPath.dispatch at h
  split at h
  · rename_i hl
    split at h
    · split at h
      · rename_i hidle
        have hb : ¬ Begun p k := by
          rintro (hp | hp)
          · rw [(hk.inv.callers k).off hp] at hl
            cases hl
          · exact hp hidle
        split at h
        · cases h
          exact ⟨⟨rfl, rfl, rfl, fun _ h => .inl h⟩, hnew (.inr hb)⟩
        · cases h
          exact ⟨⟨rfl, rfl, rfl, fun _ h => mem_snoc.mp h⟩, hnew (.inr hb)⟩
      · cases h
    · cases h
  · rename_i hl
    split at h
    · rename_i hidle
      have hb : ¬ Begun p k := by
        rintro (hp | hp)
        · exact hp hidle
        · exact hl ((hk.inv.loops k).on hp)
      split at h
      · cases h
        exact ⟨⟨rfl, rfl, rfl, fun _ h => .inl h⟩, hnew (.inr hb)⟩
      · cases h
        exact ⟨⟨rfl, rfl, rfl, fun _ h => mem_snoc.mp h⟩, hnew (.inr hb)⟩
    · cases h

/-- The loop's next piece of code is a uv_write that takes its write, or submits nothing. -/
theorem loopStep_cases {malloc accepted : Bool} (ha : acceptedStep p (.loop malloc accepted) = true)
    (h : SendPath.loopStep cfg p malloc accepted = some p') :
    (∃ k c r, p.stack = .sendData k c :: r ∧ malloc = true ∧ accepted = true ∧ p' = SendPath.submit cfg p k c r true) ∨
      ((malloc = true → ∀ k c r, p.stack ≠ .sendData k c :: r) ∧ Calm p p') := by
  unfold SendPath.loopStep at h
  split at h
  · rename_i hst
    cases h
    exact .inr ⟨fun _ _ _ _ he => (by rw [hst] at he; cases he), ⟨rfl, rfl, rfl, fun _ h => h⟩⟩
  · rename_i hst
    cases h
    exact .inr ⟨fun _ _ _ _ he => (by rw [hst] at he; cases he), ⟨rfl, rfl, rfl, fun _ h => h⟩⟩
  · rename_i k c r hst
    split at h
    · rename_i hm
      cases h
      obtain rfl : malloc = true := hm
      have hacc : accepted = true := by simpa [acceptedStep, hst] using ha
      rw [hacc]
      exact .inl ⟨k, c, r, hst, rfl, rfl, rfl⟩
    · rename_i hm
      cases h
      exact .inr ⟨fun h => absurd h hm, ⟨rfl, rfl, rfl, fun _ h => List.mem_of_mem_erase h⟩⟩
  · rename_i k c r hst
    cases h
    obtain ⟨h1, h2, h3, h4⟩ := checkFlag_calm cfg p k c
    exact .inr ⟨fun _ _ _ _ he => (by rw [hst] at he; cases he), ⟨h1, h2, h3, h4⟩⟩
  · rename_i k c r hst
    cases h
    obtain ⟨h1, h2, h3, h4⟩ := checkFlag_calm cfg p k c
    exact .inr ⟨fun _ _ _ _ he => (by rw [hst] at he; cases he), ⟨h1, h2, h3, h4⟩⟩
  · cases h

theorem written_cases {i : Nat} (h : SendPath.onWrite cfg p i = some p') :
    ∃ q, p.inflight[i]? = some q ∧ p'.inflight = p.inflight.eraseIdx i ∧ p'.completed = p.completed ++ [q] ∧
      p'.submits = p.submits ∧ p'.live = p.live := by
  obtain ⟨q, -, hq, rfl | rfl⟩ := SendPath.onWrite_cases h
  · exact ⟨q, hq, rfl, rfl, rfl, rfl⟩
  · obtain ⟨h1, h2, h3, -⟩ := checkFlag_calm cfg (SendPath.completing p i q) q.call q.conn
    obtain ⟨-, -, h4, -⟩ := SendPath.checkFlag_same cfg (SendPath.completing p i q) q.call q.conn
    exact ⟨q, hq, h2, h3, h1, h4⟩

/-- uv_write reads the descriptor of the call that it is made for. -/
theorem derefBuf_own (hk : Kept cfg p) {c : Nat} {r : List Frame} (hst : p.stack = .sendData k c :: r) :
    derefBuf cfg p (p.slot c).buf = some (cfg.buf k) := by
  obtain ⟨-, -, -, hon, hoff⟩ := hk.inv.sending hst
  have halive : SendPath.alive p k = true := by
    unfold SendPath.alive
    cases hl : cfg.onLoop k with
    | true => simp [(hon hl).1]
    | false => simp [hoff hl]
  simp [derefBuf, hk.inv.top k c r hst, halive]

/-! ## The invariant -/

variable (cfg) in
/-- A queued write has its request, and lies within the data of its call. -/
structure Placed (p : SendPath.St Unit) (c : Nat) (w : Write) : Prop where
  request : ⟨w.call, c⟩ ∈ p.inflight
  pending : ¬ Completed p w.call
  low : (cfg.buf w.call).base ≤ w.off
  high : w.off + w.own.length ≤ (cfg.buf w.call).base + (cfg.buf w.call).len

variable (cfg) in
structure ConnOk (s : St) (c : Nat) (x : Conn) : Prop where
  lined : Lined s.told s.mem (callsOn s c) x
  queued : ∀ w ∈ x.queue, Placed cfg s.path c w
  chunks : ∀ b ∈ x.reads, 0 < b.length ∧ b.length ≤ maxBufLen

variable (cfg) in
structure Inv (s : St) : Prop where
  conns : ∀ c, ConnOk cfg s c (s.conn c)
  live : ∀ k ∈ s.path.live, s.told k = bytesAt s.mem (cfg.buf k).base (cfg.buf k).len

theorem init_inv (mem : Nat → UInt8) : Inv cfg (init mem) :=
  ⟨fun _ => ⟨⟨⟨[], [], rfl, rfl, rfl⟩, fun _ hw => (by cases hw)⟩, fun _ hw => (by cases hw), fun _ hb => (by cases hb)⟩,
    fun _ hk => (by cases hk)⟩

theorem Placed.keep {c : Nat} {w : Write} (h : Placed cfg p c w)
    (hr : ⟨w.call, c⟩ ∈ p.inflight → ⟨w.call, c⟩ ∈ p'.inflight) (hc : Completed p' w.call → Completed p w.call) :
    Placed cfg p' c w :=
  ⟨hr h.request, fun h' => h.pending (hc h'), h.low, h.high⟩

theorem Lined.keep {told' : Nat → List UInt8} {mem' : Nat → UInt8} (h : Lined told mem l x)
    (ht : ∀ k ∈ l, told' k = told k)
    (hm : ∀ w ∈ x.queue, bytesAt mem' w.off w.own.length = bytesAt mem w.off w.own.length) : Lined told' mem' l x := by
  obtain ⟨done, head, rfl, ho, hc⟩ := h.split
  have hq : ∀ w ∈ x.queue, told' w.call = told w.call := fun w hw =>
    ht _ (List.mem_append_right _ (List.mem_map_of_mem hw))
  refine ⟨⟨done, head, rfl, ?_, ?_⟩, fun w hw => (hm w hw).trans (h.held w hw)⟩
  · rw [ho, List.flatMap_congr fun k hk => (ht k (List.mem_append_left _ hk)).symm]
  · cases hqueue : x.queue with
    | nil =>
      rw [hqueue] at hc
      exact hc
    | cons w q =>
      rw [hqueue] at hc hq
      refine ⟨?_, fun v hv => ?_⟩
      · rw [hq w List.mem_cons_self]
        exact hc.1
      · rw [hq v (List.mem_cons_of_mem _ hv)]
        exact hc.2 v hv

/-- A connection that the step does not touch. -/
theorem ConnOk.keep {c : Nat} (h : ConnOk cfg s c x) (hl : callsOn s' c = callsOn s c)
    (ht : ∀ k ∈ callsOn s c, s'.told k = s.told k)
    (hm : ∀ w ∈ x.queue, bytesAt s'.mem w.off w.own.length = bytesAt s.mem w.off w.own.length)
    (hp : ∀ w ∈ x.queue, Placed cfg s.path c w → Placed cfg s'.path c w) : ConnOk cfg s' c x :=
  ⟨hl ▸ h.lined.keep ht hm, fun w hw => hp w hw (h.queued w hw), h.chunks⟩

theorem setConn_inv (hi : Inv cfg s) {c : Nat} (hx : ConnOk cfg s c x) : Inv cfg (setConn s c x) := by
  refine ⟨fun d => ?_, hi.live⟩
  by_cases e : d = c
  · subst e
    rw [show (setConn s d x).conn d = x from Function.update_self ..]
    exact hx.keep rfl (fun _ _ => rfl) (fun _ _ => rfl) fun _ _ h => h
  · rw [show (setConn s c x).conn d = s.conn d from Function.update_of_ne e ..]
    exact (hi.conns d).keep rfl (fun _ _ => rfl) (fun _ _ => rfl) fun _ _ h => h

/-! ## Steps keep it -/

theorem write_inv (hi : Inv cfg s) {c n : Nat} (h : uvWrite s.mem (s.conn c) n = some x') : Inv cfg (setConn s c x') := by
  have hc := hi.conns c
  obtain ⟨hlined, hreads⟩ := uvWrite_lined hc.lined h
  refine setConn_inv hi ⟨hlined, fun w hw => ?_, hreads ▸ hc.chunks⟩
  unfold uvWrite at h
  split at h
  · rename_i v q hq
    have hv := hc.queued v (hq ▸ List.mem_cons_self)
    have hrest : ∀ u ∈ q, Placed cfg s.path c u := fun u hu => hc.queued u (hq ▸ List.mem_cons_of_mem _ hu)
    split at h
    · rename_i hn
      obtain rfl := Option.some.inj h
      simp only at hw
      split at hw
      · exact hrest w hw
      · rcases List.mem_cons.mp hw with rfl | hw
        · refine ⟨hv.request, hv.pending, Nat.le_trans hv.low (Nat.le_add_right _ _), ?_⟩
          have hhigh := hv.high
          show v.off + n + (v.own.drop n).length ≤ (cfg.buf v.call).base + (cfg.buf v.call).len
          rw [List.length_drop]
          omega
        · exact hrest w hw
    · cases h
  · cases h

theorem read_inv (hi : Inv cfg s) {c n : Nat} (h : onRead (s.conn c) n = some x') : Inv cfg (setConn s c x') := by
  obtain ⟨ho, hq, hb⟩ := onRead_out h
  have hc := hi.conns c
  refine setConn_inv hi ⟨?_, fun w hw => hc.queued w (hq ▸ hw), hb hc.chunks⟩
  obtain ⟨⟨done, head, h1, h2, h3⟩, h4⟩ := hc.lined
  exact ⟨⟨done, head, hq ▸ h1, ho.trans h2, hq ▸ h3⟩, hq ▸ h4⟩

theorem bytesAt_store {a off len : Nat} {b : UInt8} (h : a < off ∨ off + len ≤ a) :
    bytesAt (Function.update mem a b) off len = bytesAt mem off len := by
  unfold Echo.bytesAt
  refine List.map_congr_left fun i hi => ?_
  have := List.mem_range.mp hi
  rw [Function.update_of_ne (by omega)]

theorem store_inv (hi : Inv cfg s) {a : Nat} {b : UInt8} (hg : quiet cfg s (.store a b) = true) :
    Inv cfg { s with mem := Function.update s.mem a b } := by
  have hout : ∀ k, InUse s k → a < (cfg.buf k).base ∨ (cfg.buf k).base + (cfg.buf k).len ≤ a := fun k hk => by
    have := List.all_eq_true.mp hg k (List.mem_append.mpr hk)
    simp only [Bool.not_eq_true', Bool.and_eq_false_iff, decide_eq_false_iff_not] at this
    omega
  refine ⟨fun c => (hi.conns c).keep rfl (fun _ _ => rfl) (fun w hw => ?_) fun _ _ h => h, fun k hk => ?_⟩
  · have hp := (hi.conns c).queued w hw
    have := hout w.call (.inr (List.mem_map_of_mem hp.request))
    have h1 := hp.low
    have h2 := hp.high
    exact bytesAt_store (by omega)
  · rw [hi.live k hk]
    exact (bytesAt_store (hout k (.inl hk))).symm

theorem calm_inv (hi : Inv cfg s) (h : Calm s.path p) : Inv cfg { s with path := p } := by
  have hcalls : ∀ c, callsOn { s with path := p } c = callsOn s c := fun c => by
    unfold callsOn
    rw [h.submits]
  refine ⟨fun c => (hi.conns c).keep (hcalls c) (fun _ _ => rfl) (fun _ _ => rfl) fun w _ hw => ?_, fun k hk => ?_⟩
  · refine hw.keep (fun hr => h.inflight ▸ hr) fun hc => ?_
    rwa [Completed, h.completed] at hc
  · exact hi.live k (h.live k hk)

theorem call_inv (hk : Kept cfg s.path) (hi : Inv cfg s) (h : SendPath.enter cfg s.path k = some p) :
    Inv cfg { around cfg stray s (.call k) with path := p } := by
  obtain ⟨⟨h1, h2, h3, h4⟩, hnew, hlive⟩ := enter_new hk h
  have htold : ∀ {j}, j ≠ k → (around cfg stray s (.call k)).told j = s.told j := fun hj => Function.update_of_ne hj ..
  have hcalls : ∀ c, callsOn { around cfg stray s (.call k) with path := p } c = callsOn s c := fun c => by
    show ((p.submits.filter _).map _) = _
    rw [h1]
    rfl
  refine ⟨fun c => (hi.conns c).keep (hcalls c) (fun j hj => htold ?_) (fun _ _ => rfl) fun w _ hw => ?_, fun j hj => ?_⟩
  · rintro rfl
    obtain ⟨e, he, rfl⟩ := List.mem_map.mp hj
    exact hnew (List.mem_map_of_mem (List.mem_filter.mp he).1)
  · refine hw.keep (fun hr => h2 ▸ hr) fun hc => ?_
    rwa [Completed, h3] at hc
  · by_cases e : j = k
    · rw [e]
      exact Function.update_self ..
    · exact (htold e).trans (hi.live j ((h4 j hj).resolve_right e))

theorem written_inv (hk : Kept cfg s.path) (hi : Inv cfg s) {i : Nat} (hf : finished s (.written i) = true)
    (h : SendPath.onWrite cfg s.path i = some p) : Inv cfg { s with path := p } := by
  obtain ⟨q, hq, h1, h2, h3, h4⟩ := written_cases h
  simp only [finished, hq, List.all_eq_true, bne_iff_ne] at hf
  have hqc : q.conn = cfg.conn q.call := (hk.inv.reqs q (List.mem_of_getElem? hq)).1
  have hcalls : ∀ c, callsOn { s with path := p } c = callsOn s c := fun c => by
    unfold callsOn
    rw [h3]
  refine ⟨fun c => (hi.conns c).keep (hcalls c) (fun _ _ => rfl) (fun _ _ => rfl) fun w hw hp => ?_,
    fun k hk => hi.live k (h4 ▸ hk)⟩
  -- the request that completes is not this write's
  have hne : w.call ≠ q.call := fun e => by
    have hc : c = cfg.conn w.call := (hk.inv.reqs _ hp.request).1
    rw [e, ← hqc] at hc
    subst hc
    exact hf w hw e
  refine hp.keep (fun hr => ?_) fun hc => ?_
  · obtain ⟨j, hj, he⟩ := List.getElem_of_mem hr
    obtain ⟨hi', hqi⟩ := List.getElem?_eq_some_iff.mp hq
    rw [h1]
    refine List.mem_eraseIdx_iff_getElem?.mpr ⟨j, fun hji => ?_, ?_⟩
    · subst hji
      rw [hqi] at he
      exact hne (congrArg Req.call he).symm
    · rw [List.getElem?_eq_getElem hj, he]
  · rw [Completed, h2, List.map_append, List.map_singleton, mem_snoc] at hc
    exact hc.resolve_right hne

theorem Lined.snoc (h : Lined told mem l x) {w : Write} (ht : w.own = told w.call) (hw : w.held mem) :
    Lined told mem (l ++ [w.call]) { x with queue := x.queue ++ [w] } := by
  obtain ⟨done, head, rfl, ho, hc⟩ := h.split
  refine ⟨⟨done, head, by simp, ho, ?_⟩, fun v hv => ?_⟩
  · show Carries told head (x.queue ++ [w])
    cases hq : x.queue with
    | nil =>
      rw [hq] at hc
      obtain rfl : head = [] := hc
      exact ⟨ht, fun v hv => (by cases hv)⟩
    | cons v q =>
      rw [hq] at hc
      refine ⟨hc.1, fun u hu => ?_⟩
      rcases mem_snoc.mp hu with hu | rfl
      · exact hc.2 u hu
      · exact ht
  · rcases mem_snoc.mp hv with hv | rfl
    · exact h.held v hv
    · exact hw

theorem callsOn_submit {c : Nat} {r : List Frame} (hp : s'.path = SendPath.submit cfg s.path k c r true) (d : Nat) :
    callsOn s' d = callsOn s d ++ if d = c then [k] else [] := by
  unfold callsOn
  rw [hp, show (SendPath.submit cfg s.path k c r true).submits = s.path.submits ++ [_] from rfl, List.filter_append,
    List.map_append]
  congr 1
  by_cases e : d = c
  · simp [e]
  · simp [e, Ne.symm e]

theorem placed_submit {c d : Nat} {r : List Frame} {w : Write} (hw : Placed cfg p d w) :
    Placed cfg (SendPath.submit cfg p k c r true) d w :=
  hw.keep (fun hr => List.mem_append_left _ hr) fun h => h

/-- The connection that is written to. -/
theorem enqueue_ok (hk : Kept cfg s.path) (hi : Inv cfg s) {c : Nat} {r : List Frame}
    (hst : s.path.stack = .sendData k c :: r) (ht : s'.told = s.told) (hm : s'.mem = s.mem)
    (hp : s'.path = SendPath.submit cfg s.path k c r true) : ConnOk cfg s' c (enqueue cfg stray s k c) := by
  obtain ⟨hc, hlive, hnew, -⟩ := hk.inv.sending hst
  have hcalls := callsOn_submit hp c
  rw [if_pos rfl] at hcalls
  have hx := hi.conns c
  have hplaced : ∀ w ∈ (s.conn c).queue, Placed cfg s'.path c w := fun w hw => hp ▸ placed_submit (hx.queued w hw)
  unfold enqueue
  rw [derefBuf_own hk hst]
  have htold : s.told k = bytesAt s.mem (cfg.buf k).base (cfg.buf k).len := hi.live k hlive
  refine ⟨?_, fun w hw => ?_, hx.chunks⟩
  · rw [hcalls, ht, hm]
    refine hx.lined.snoc (w := ⟨k, _, _⟩) htold.symm ?_
    unfold Write.held
    rw [bytesAt_length]
  · rcases mem_snoc.mp hw with hw | rfl
    · exact hplaced w hw
    · refine ⟨?_, fun h => hnew (hk.inv.submitted_of_completed ?_), Nat.le_refl _, by simp⟩
      · rw [hp]
        exact List.mem_append_right _ List.mem_cons_self
      · rw [hp] at h
        exact h

theorem submit_inv (hk : Kept cfg s.path) (hi : Inv cfg s) {c : Nat} {r : List Frame}
    (hst : s.path.stack = .sendData k c :: r) :
    Inv cfg { setConn s c (enqueue cfg stray s k c) with path := SendPath.submit cfg s.path k c r true } := by
  refine ⟨fun d => ?_, fun j hj => hi.live j (List.mem_of_mem_erase hj)⟩
  by_cases e : d = c
  · subst e
    rw [show (setConn s d (enqueue cfg stray s k d)).conn d = enqueue cfg stray s k d from Function.update_self ..]
    exact enqueue_ok hk hi hst rfl rfl rfl
  · rw [show (setConn s c (enqueue cfg stray s k c)).conn d = s.conn d from Function.update_of_ne e ..]
    refine (hi.conns d).keep ?_ (fun _ _ => rfl) (fun _ _ => rfl) fun w _ hw => placed_submit hw
    rw [callsOn_submit (k := k) (c := c) (r := r) rfl d, if_neg e, List.append_nil]

theorem around_loop {malloc accepted : Bool} (h : malloc = true → ∀ k c r, s.path.stack ≠ .sendData k c :: r) :
    around cfg stray s (.loop malloc accepted) = s := by
  cases malloc <;> cases accepted <;> try rfl
  simp only [around]
  split
  · rename_i hst
    exact absurd hst (h rfl _ _ _)
  · rfl

theorem path_inv (hk : Kept cfg s.path) (hi : Inv cfg s) {e : SendPath.Ev} (ha : acceptedStep s.path e = true)
    (hf : finished s e = true) (h : SendPath.step cfg s.path e = some p) :
    Inv cfg { around cfg stray s e with path := p } := by
  cases e with
  | callback =>
    simp only [SendPath.step] at h
    split at h <;> cases h
    exact calm_inv hi ⟨rfl, rfl, rfl, fun _ h => h⟩
  | ret =>
    simp only [SendPath.step] at h
    split at h <;> cases h
    exact calm_inv hi ⟨rfl, rfl, rfl, fun _ h => h⟩
  | call k => exact call_inv hk hi h
  | caller k => exact calm_inv hi (callerStep_calm h)
  | asyncSend =>
    simp only [SendPath.step, SendPath.asyncSendCb] at h
    split at h
    · obtain ⟨c, -, rfl⟩ := Option.map_eq_some_iff.mp h
      exact calm_inv hi ⟨rfl, rfl, rfl, fun _ h => h⟩
    · cases h
  | loop malloc accepted =>
    rcases loopStep_cases ha h with ⟨k, c, r, hst, rfl, rfl, rfl⟩ | ⟨hno, hcalm⟩
    · have he : around cfg stray s (.loop true true) = setConn s c (enqueue cfg stray s k c) := by simp only [around, hst]
      rw [he]
      exact submit_inv hk hi hst
    · rw [around_loop hno]
      exact calm_inv hi hcalm
  | written i => exact written_inv hk hi hf h

theorem step_inv (hk : Kept cfg s.path) (hi : Inv cfg s) {e : Ev} (hg : quiet cfg s e = true)
    (h : step cfg stray s e = some s') : Inv cfg s' := by
  cases e with
  | path e =>
    simp only [step] at h
    split at h
    · obtain ⟨p, hp, rfl⟩ := Option.map_eq_some_iff.mp h
      exact path_inv hk hi hg ‹_› hp
    · cases h
  | store a b =>
    obtain rfl := Option.some.inj h
    exact store_inv hi hg
  | write c n =>
    obtain ⟨x, hx, rfl⟩ := Option.map_eq_some_iff.mp h
    exact write_inv hi hx
  | read c n =>
    obtain ⟨x, hx, rfl⟩ := Option.map_eq_some_iff.mp h
    exact read_inv hi hx

/-! ## Runs -/

variable (cfg stray) in
abbrev Run : St → St → Prop := Reach (step cfg stray) fun s e => quiet cfg s e = true

variable (cfg) in
abbrev PathRun : SendPath.St Unit → Prop :=
  Reach (SendPath.step cfg) (fun p e => acceptedStep p e = true) (SendPath.init ())

theorem reach_inv (hown : Owned cfg) (hr : Run cfg stray (init mem) s) : Kept cfg s.path ∧ Inv cfg s := by
  -- without the memory and the wire it is a run of the send path
  suffices h : PathRun cfg s.path ∧ Inv cfg s from ⟨reach_kept hown h.1, h.2⟩
  refine hr.invariant (P := fun s => PathRun cfg s.path ∧ Inv cfg s) ⟨.init, init_inv mem⟩
    fun s e s' ⟨hp, hi⟩ hg h => ⟨?_, step_inv (reach_kept hown hp) hi hg h⟩
  cases e with
  | path e =>
    simp only [step] at h
    split at h
    · obtain ⟨p, he, rfl⟩ := Option.map_eq_some_iff.mp h
      exact .step e hp hg he
    · cases h
  | store a b =>
    obtain rfl := Option.some.inj h
    exact hp
  | _ =>
    obtain ⟨x, -, rfl⟩ := Option.map_eq_some_iff.mp h
    exact hp

/-- A completed request's message is not queued any more. -/
theorem completed_out (hk : Kept cfg s.path) (hi : Inv cfg s) (hc : Completed s.path k) : Out cfg s k := by
  obtain ⟨e, he, rfl⟩ := List.mem_map.mp (hk.inv.submitted_of_completed hc)
  have hmem : e.call ∈ callsOn s (cfg.conn e.call) :=
    List.mem_map_of_mem (List.mem_filter.mpr ⟨he, beq_iff_eq.mpr (hk.inv.submitOk e he).1⟩)
  obtain ⟨⟨done, head, hl, ho, -⟩, -⟩ := (hi.conns (cfg.conn e.call)).lined
  rw [hl] at hmem
  have hdone : e.call ∈ done := by
    rcases List.mem_append.mp hmem with h | h
    · exact h
    · obtain ⟨w, hw, he⟩ := List.mem_map.mp h
      exact absurd (he ▸ hc) ((hi.conns _).queued w hw).pending
  obtain ⟨pre, post, rfl⟩ := List.append_of_mem hdone
  refine ⟨pre, post ++ (s.conn (cfg.conn e.call)).queue.map Write.call, by rw [hl]; simp, ?_⟩
  rw [ho]
  simp only [List.flatMap_append, List.flatMap_cons, List.flatMap_nil, List.append_nil, ← List.append_assoc]
  rw [List.append_assoc _ _ head]
  exact List.prefix_append ..

theorem not_inUse (hk : Kept cfg s.path) (hp : s.path.h.pc k = .ret) : ¬ InUse s k := by
  have hoff := (hk.inv.callers k).off (by simp [hp])
  have hdone := hk.inv.ret_completed hp
  rintro (h | h)
  · obtain ⟨-, hn, hf, hs⟩ := hk.outcomes.live k h
    rcases hdone with h | h | h
    · rw [hn] at h
      cases h
    · exact hf h
    · exact hs (hk.inv.submitted_of_completed h)
  · obtain ⟨r, hr, rfl⟩ := List.mem_map.mp h
    obtain ⟨-, -, hw⟩ := hk.inv.reqs r hr
    rw [if_neg (by simp [hoff]), hp] at hw
    cases hw

/-- Where the send path waits for a completion, the kernel may still have to take the write. -/
theorem goes_on (hk : Kept cfg s.path) (hr : running s.path k) :
    ∃ e : Ev, e.goesOn = true ∧ (step cfg stray s e).isSome = true := by
  obtain ⟨e, hg, he⟩ := SendPath.goes_on hk.inv hk.flagged hr
  by_cases hf : finished s e = true
  · exact ⟨.path e, hg, by simp [step, hf, he]⟩
  · cases e with
    | written i =>
      simp only [finished] at hf
      split at hf
      · rename_i r hr
        cases hq : (s.conn r.conn).queue with
        | nil => simp [hq] at hf
        | cons w q => exact ⟨.write r.conn w.own.length, rfl, by simp [step, uvWrite, hq]⟩
      · exact absurd rfl hf
    | _ => exact absurd rfl hf

/-- Writes are not taken back. -/
theorem submits_grow (hown : Owned cfg) (hr : Run cfg stray (init mem) s) (ht : Run cfg stray s s') :
    s.path.submits <+: s'.path.submits := by
  refine (ht.invariant (P := fun t => Run cfg stray (init mem) t ∧ s.path.submits <+: t.path.submits)
    ⟨hr, List.prefix_refl _⟩ fun t e t' ⟨hrt, hp⟩ hg h => ⟨.step e hrt hg h, ?_⟩).2
  cases e with
  | path e =>
    simp only [step] at h
    split at h
    · obtain ⟨p, he, rfl⟩ := Option.map_eq_some_iff.mp h
      obtain ⟨-, heff⟩ := SendPath.step_effect (reach_inv hown hrt).1.inv he
      have hsub : p.submits = t.path.submits ∨ ∃ x, p.submits = t.path.submits ++ [x] := by
        cases heff with
        | submits k c r x _ _ _ hs => exact .inr ⟨x, hs⟩
        | _ => exact .inl ‹p.submits = _›
      rcases hsub with hs | ⟨x, hs⟩
      · exact hs ▸ hp
      · exact hp.trans (hs ▸ List.prefix_append ..)
    · cases h
  | store a b =>
    obtain rfl := Option.some.inj h
    exact hp
  | _ =>
    obtain ⟨x, -, rfl⟩ := Option.map_eq_some_iff.mp h
    exact hp

theorem delivered (cfg : Cfg Unit) (stray : Buf) (hown : Owned cfg) {mem : Nat → UInt8} {s : St}
    (hr : Run cfg stray (init mem) s) :
    Delivered cfg stray s ∧ ∀ t, Run cfg stray s t → ∀ j k, Submitted s.path j → ¬ Begun s.path k → Submitted t.path k →
      After (t.path.submits.map Submit.call) j k := by
  obtain ⟨hk, hi⟩ := reach_inv hown hr
  refine ⟨⟨fun c => (hi.conns c).lined.whole, fun c => (hi.conns c).chunks,
    ⟨hk.inv.submitOnce, fun e he => (hk.inv.submitOk e he).1⟩, fun k => completed_out hk hi,
    fun k hp => ⟨hk.inv.ret_completed hp, not_inUse hk hp⟩, fun k => goes_on hk⟩, fun t ht j k hj hb hkt => ?_⟩
  obtain ⟨post, hpost⟩ := submits_grow hown hr ht
  rw [Submitted, ← hpost, List.map_append] at hkt
  have hlater : k ∈ post.map Submit.call :=
    (List.mem_append.mp hkt).resolve_left fun h => hb (hk.outcomes.submitted k h).1
  obtain ⟨l1, l2, hl⟩ := List.append_of_mem hj
  refine ⟨l1, l2 ++ post.map Submit.call, ?_, List.mem_append_right _ hlater⟩
  rw [← hpost, List.map_append, hl]
  simp

/-- Two threads' calls from the same memory, which is used again in between. -/
def reused (k : Nat) : Call Unit := ⟨2 + k, 1, 100, 3, ()⟩

theorem reused_delivered :
    ∃ mem s, Run (ServerSend.tcpServer 1 reused) ⟨0, 0⟩ (init mem) s ∧
      ((s.conn 1).reads = [[1, 2, 3, 7], [2, 3]] ∧ s.path.h.pc 1 = .ret) ∧
      Delivered (ServerSend.tcpServer 1 reused) ⟨0, 0⟩ s := by
  obtain ⟨s, hr, h⟩ := reach_of_runIf (step (ServerSend.tcpServer 1 reused) ⟨0, 0⟩)
    (quiet (ServerSend.tcpServer 1 reused)) (init fun a => if a = 100 then 1 else if a = 101 then 2 else 3)
    (fun s => (s.conn 1).reads = [[1, 2, 3, 7], [2, 3]] ∧ s.path.h.pc 1 = .ret)
    ([.path (.call 0), .path (.caller 0), .path (.caller 0), .path (.caller 0), .path (.caller 0), .path (.caller 0),
      .path .asyncSend, .path (.loop true true), .write 1 2, .write 1 1, .path (.written 0), .path (.caller 0),
      .path (.caller 0), .store 100 7, .path (.call 1), .path (.caller 1), .path (.caller 1), .path (.caller 1),
      .path (.caller 1), .path (.caller 1), .path .asyncSend, .path (.loop true true), .write 1 1, .read 1 4, .write 1 2,
      .path (.written 0), .read 1 2, .path (.caller 1), .path (.caller 1)]) ⟨_, rfl, by decide⟩
  refine ⟨_, s, hr, h, (delivered _ _ (fun j k _ _ _ => ?_) hr).1⟩
  have hoff : ∀ k, (ServerSend.tcpServer 1 reused).onLoop k = false := fun k => by
    have : 1 ≠ 2 + k := by omega
    simp [Cfg.onLoop, ServerSend.tcpServer, reused, this]
  rw [hoff j, hoff k]

end UvWrapper.Net.ByteStream
