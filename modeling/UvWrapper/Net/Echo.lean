/-
  UvWrapper.Net.Echo — a tcp_server whose on_read passes the bytes it was given on with
  tcp_server_send_data (tcp_server.c; samples/test_tcp_server.c), to any open connections.

  Every connection is read into the one tcp_server->buf, and uv_write keeps a pointer and a length:
  what the kernel does not take at once is written later from where it was in buf. Loop thread only,
  one callback at a time; on_read sends any number of times. uv_write tries at once if nothing is
  queued on the connection, and takes every write, since the connection is open.

  Proved: as long as no write request's malloc fails, and no read leaves another byte in buf where an
  open connection has a queued write, each connection is written a prefix of what it was sent; a read
  that does is enough for the kernel to take other bytes than a message's (`reads_apart`). Two
  connections and a partial write come to it (`overwritten`).
-/

import UvWrapper.Lib.Trace

namespace UvWrapper.Net.Echo

open UvWrapper.Lib.Trace

/-! ## State -/

def maxBufLen : Nat := 4096

/-- What is left of a write: where it is in buf, and its bytes at the call. uv_buf_t holds the place
    and the length only. -/
structure Write where
  off : Nat
  own : List UInt8
  deriving DecidableEq, Repr

inductive Phase where
  | absent
  | opened
  | closed
  deriving DecidableEq, Repr

structure Conn where
  st : Phase
  queue : List Write
  /-- What the kernel has taken, and the messages of all calls of tcp_server_send_data. -/
  written : List UInt8
  asked : List UInt8
  deriving DecidableEq, Repr

structure St where
  buf : Nat → UInt8
  conn : Nat → Conn
  /-- The `len` of the on_read that runs. -/
  reading : Option Nat

def init : St := ⟨fun _ => 0, fun _ => ⟨.absent, [], [], []⟩, none⟩

/-! ## Steps -/

def bytesAt (buf : Nat → UInt8) (off len : Nat) : List UInt8 := (List.range len).map fun i => buf (off + i)

/-- What read(2) leaves in buf. -/
def fill (buf : Nat → UInt8) (bytes : List UInt8) : Nat → UInt8 := fun i => bytes[i]?.getD (buf i)

def Write.advance (w : Write) (k : Nat) : Write := ⟨w.off + k, w.own.drop k⟩

/-- libuv writes the first of the queue, and the kernel takes `k` bytes. -/
def uvWrite (buf : Nat → UInt8) (c : Conn) (k : Nat) : Option Conn :=
  match c.queue with
  | w :: q =>
    if k ≤ w.own.length then
      some { c with
        queue := if k = w.own.length then q else w.advance k :: q
        written := c.written ++ bytesAt buf w.off k }
    else none
  | [] => none

/-- `tcp_server_send_data(conn, buf, len)` and `send_data`; `k` is what the kernel takes at once. -/
def sendData (buf : Nat → UInt8) (c : Conn) (len : Nat) (malloc : Bool) (k : Nat) : Option Conn :=
  let message := bytesAt buf 0 len
  let asked := { c with asked := c.asked ++ message }
  if malloc then
    if c.queue = [] then uvWrite buf { asked with queue := [⟨0, message⟩] } k
    else some { asked with queue := c.queue ++ [⟨0, message⟩] }
  else some asked

def setConn (s : St) (c : Nat) (x : Conn) : St := { s with conn := Function.update s.conn c x }

inductive Ev where
  | accept (c : Nat)
  /-- alloc_buffer, read(2), and on_conn_read up to on_read. -/
  | read (c : Nat) (bytes : List UInt8)
  /-- on_read sends what it was given to connection `c`. -/
  | send (c : Nat) (malloc : Bool) (k : Nat)
  | ret
  /-- The connection's socket is writable. -/
  | write (c : Nat) (k : Nat)
  /-- uv_close: what is queued is not written any more. -/
  | close (c : Nat)
  deriving DecidableEq, Repr

def step (s : St) : Ev → Option St
  | .accept c =>
    if s.reading = none ∧ (s.conn c).st = .absent then some (setConn s c { s.conn c with st := .opened }) else none
  | .read c bytes =>
    if s.reading = none ∧ (s.conn c).st = .opened ∧ 0 < bytes.length ∧ bytes.length ≤ maxBufLen then
      some { s with buf := fill s.buf bytes, reading := some bytes.length }
    else none
  | .send c malloc k =>
    match s.reading with
    | some len => if (s.conn c).st = .opened then (sendData s.buf (s.conn c) len malloc k).map (setConn s c) else none
    | none => none
  | .ret => if s.reading.isSome then some { s with reading := none } else none
  | .write c k =>
    if s.reading = none ∧ (s.conn c).st = .opened then (uvWrite s.buf (s.conn c) k).map (setConn s c) else none
  | .close c =>
    if (s.conn c).st = .opened then some (setConn s c { s.conn c with st := .closed }) else none

/-! ## What is written -/

/-- Each connection is written a prefix of its messages. -/
def Faithful (s : St) : Prop := ∀ c, (s.conn c).written <+: (s.conn c).asked

/-- No malloc fails, and a read leaves buf as it is where an open connection has a queued write. -/
def Apart (s : St) : Ev → Prop
  | .send _ malloc _ => malloc = true
  | .read _ bytes =>
    ∀ d, (s.conn d).st ≠ .closed → ∀ w ∈ (s.conn d).queue,
      bytesAt (fill s.buf bytes) w.off w.own.length = bytesAt s.buf w.off w.own.length
  | _ => True

structure Echoed (s : St) : Prop where
  faithful : Faithful s
  /-- From a read against the condition on, what the kernel takes can be another message's. -/
  breaks : ∀ c bytes s', step s (.read c bytes) = some s' → ¬ Apart s (.read c bytes) →
    ∃ t, Reach step Free s' t ∧ ¬ Faithful t

def Conn.ok (c : Conn) : Prop := c.asked = c.written ++ c.queue.flatMap Write.own

def Write.held (buf : Nat → UInt8) (w : Write) : Prop := bytesAt buf w.off w.own.length = w.own

structure Conn.Good (buf : Nat → UInt8) (c : Conn) : Prop where
  ok : c.ok
  held : c.st ≠ .closed → ∀ w ∈ c.queue, w.held buf
  fresh : c.st = .absent → c.queue = []

variable {s s' : St} {buf : Nat → UInt8} {c c' : Conn}

@[simp] theorem bytesAt_length (buf : Nat → UInt8) (off len : Nat) :
    (bytesAt buf off len).length = len := by simp [bytesAt]

theorem bytesAt_take (buf : Nat → UInt8) (off : Nat) {len k : Nat} (hk : k ≤ len) :
    (bytesAt buf off len).take k = bytesAt buf off k := by
  unfold bytesAt
  rw [← List.map_take, List.take_range, Nat.min_eq_left hk]

/-- The rest of a write, with what the kernel took before it. -/
theorem advance_own (w : Write) (k : Nat) (q : List Write) :
    w.own.take k ++ (if k = w.own.length then q else w.advance k :: q).flatMap Write.own =
      w.own ++ q.flatMap Write.own := by
  split
  · rename_i e
    rw [List.take_of_length_le (Nat.le_of_eq e.symm)]
  · rw [List.flatMap_cons, Write.advance, ← List.append_assoc, List.take_append_drop]

theorem uvWrite_ok (hc : c.ok) {k : Nat} {w : Write} {q : List Write} (hq : c.queue = w :: q)
    (hb : bytesAt buf w.off k = w.own.take k) (h : uvWrite buf c k = some c') : c'.ok := by
  unfold uvWrite at h
  rw [hq] at h
  simp only at h
  split at h <;> cases h
  rename_i hk
  have := advance_own w k q
  unfold Conn.ok at hc ⊢
  rw [hq, List.flatMap_cons] at hc
  simp only [hb, List.append_assoc, this]
  exact hc

/-- A write of other bytes than the message's is not a prefix any more. -/
theorem uvWrite_breaks (hc : c.ok) {k : Nat} {w : Write} {q : List Write} (hq : c.queue = w :: q)
    (hb : bytesAt buf w.off k ≠ w.own.take k) (h : uvWrite buf c k = some c') : ¬ c'.written <+: c'.asked := by
  unfold uvWrite at h
  rw [hq] at h
  simp only at h
  split at h <;> cases h
  rename_i hk
  intro hp
  unfold Conn.ok at hc
  rw [hq, List.flatMap_cons] at hc
  simp only [hc] at hp
  have hp := (List.prefix_append_right_inj _).mp hp
  rw [List.prefix_iff_eq_take, bytesAt_length, List.take_append_of_le_length hk] at hp
  exact hb hp

theorem setConn_self (s : St) (c : Nat) (x : Conn) : (setConn s c x).conn c = x := Function.update_self ..

theorem setConn_ne (s : St) {c d : Nat} (x : Conn) (h : d ≠ c) : (setConn s c x).conn d = s.conn d :=
  Function.update_of_ne h ..

/-- What holds of all connections, and of what one of them becomes, holds of all after it. -/
theorem setConn_all {P : Conn → Prop} (h : ∀ d, P (s.conn d)) {c : Nat} {x : Conn} (hx : P x) (d : Nat) :
    P ((setConn s c x).conn d) := by
  by_cases e : d = c
  · subst e; rw [setConn_self]; exact hx
  · rw [setConn_ne s x e]; exact h d

theorem Write.held.advance {w : Write} (hw : w.held buf) {k : Nat} : (w.advance k).held buf := by
  unfold held Write.advance at *
  rw [List.length_drop]
  conv => rhs; rw [← hw]
  unfold bytesAt
  rw [← List.map_drop]
  apply List.ext_getElem
  · simp
  · intro i h1 h2
    simp [Nat.add_assoc]

theorem message_held (len : Nat) : (Write.mk 0 (bytesAt buf 0 len)).held buf := by
  unfold Write.held
  rw [bytesAt_length]

theorem uvWrite_good (hc : c.Good buf) (ho : c.st = .opened) {k : Nat} (h : uvWrite buf c k = some c') :
    c'.Good buf := by
  have hheld := hc.held (by simp [ho])
  cases hq : c.queue with
  | nil => simp [uvWrite, hq] at h
  | cons w q =>
    rw [hq] at hheld
    have hw : w.held buf := hheld w List.mem_cons_self
    have hq' : ∀ x ∈ q, x.held buf := fun x hx => hheld x (List.mem_cons_of_mem _ hx)
    have hk : k ≤ w.own.length := by
      simp only [uvWrite, hq] at h
      split at h
      · assumption
      · cases h
    have hb : bytesAt buf w.off k = w.own.take k := by rw [← bytesAt_take buf w.off hk, hw]
    have hok := uvWrite_ok hc.ok hq hb h
    simp only [uvWrite, hq, if_pos hk, Option.some.injEq] at h
    subst h
    refine ⟨hok, fun _ x hx => ?_, fun ha => ?_⟩
    · simp only at hx
      split at hx
      · exact hq' x hx
      · rcases List.mem_cons.mp hx with rfl | hx
        · exact hw.advance
        · exact hq' x hx
    · rw [show c.st = .absent from ha] at ho
      cases ho

theorem sendData_good (hc : c.Good buf) (ho : c.st = .opened) {len k : Nat} (h : sendData buf c len true k = some c') :
    c'.Good buf := by
  have hok := hc.ok
  unfold Conn.ok at hok
  unfold sendData at h
  simp only [if_true] at h
  split at h
  · rename_i hq
    refine uvWrite_good (c := { c with asked := c.asked ++ bytesAt buf 0 len, queue := [⟨0, bytesAt buf 0 len⟩] })
      ⟨?_, fun _ w hw => ?_, fun ha => ?_⟩ ho h
    · rw [hq, List.flatMap_nil, List.append_nil] at hok
      simp [Conn.ok, hok]
    · rw [List.mem_singleton.mp hw]
      exact message_held len
    · rw [show c.st = .absent from ha] at ho
      cases ho
  · cases h
    refine ⟨by simp [Conn.ok, hok], fun _ w hw => ?_, fun ha => ?_⟩
    · rcases List.mem_append.mp hw with hw | hw
      · exact hc.held (by simp [ho]) w hw
      · rw [List.mem_singleton.mp hw]
        exact message_held len
    · rw [show c.st = .absent from ha] at ho
      cases ho

theorem step_good (hi : ∀ d, (s.conn d).Good s.buf) {e : Ev} (hg : Apart s e) (h : step s e = some s') :
    ∀ d, (s'.conn d).Good s'.buf := by
  cases e with
  | accept c =>
    simp only [step] at h
    split at h
    · rename_i ha
      cases h
      exact setConn_all (P := fun c => c.Good s.buf) hi 
        ⟨(hi c).ok, fun _ => (hi c).held (by simp [ha.2]), fun _ => (hi c).fresh ha.2⟩
    · cases h
  | read c bytes =>
    simp only [step] at h
    split at h <;> cases h
    refine fun d => ⟨(hi d).ok, fun ho w hw => ?_, (hi d).fresh⟩
    exact (hg d ho w hw).trans ((hi d).held ho w hw)
  | send c malloc k =>
    simp only [Apart] at hg
    subst hg
    simp only [step] at h
    split at h
    · split at h
      · rename_i ho
        obtain ⟨x, hx, rfl⟩ := Option.map_eq_some_iff.mp h
        exact setConn_all (P := fun c => c.Good s.buf) hi (sendData_good (hi c) ho hx)
      · cases h
    · cases h
  | ret =>
    simp only [step] at h
    split at h <;> cases h
    exact hi
  | write c k =>
    simp only [step] at h
    split at h
    · rename_i ho
      obtain ⟨x, hx, rfl⟩ := Option.map_eq_some_iff.mp h
      exact setConn_all (P := fun c => c.Good s.buf) hi (uvWrite_good (hi c) ho.2 hx)
    · cases h
  | close c =>
    simp only [step] at h
    split at h <;> cases h
    exact setConn_all (P := fun c => c.Good s.buf) hi 
      ⟨(hi c).ok, fun ho => absurd rfl ho, fun ha => by cases ha⟩

theorem Conn.ok.prefix_asked (hc : c.ok) : c.written <+: c.asked := by
  rw [hc]
  exact List.prefix_append ..

/-! ## A queued write whose bytes are gone -/

/-- The kernel takes a whole write. -/
theorem step_write (hr : s.reading = none) {d : Nat} (ho : (s.conn d).st = .opened) {w : Write} {q : List Write}
    (hq : (s.conn d).queue = w :: q) :
    ∃ x, uvWrite s.buf (s.conn d) w.own.length = some x ∧ x.st = .opened ∧ x.queue = q ∧
      step s (.write d w.own.length) = some (setConn s d x) := by
  refine ⟨{ s.conn d with queue := q, written := (s.conn d).written ++ bytesAt s.buf w.off w.own.length }, ?_, ho, rfl,
    ?_⟩
  · simp [uvWrite, hq]
  · simp [step, hr, ho, uvWrite, hq]

/-- The kernel takes the queue up to it, and then its bytes. -/
theorem flush_breaks {d : Nat} {q : List Write} {s : St} (hs : Reach step Free s0 s) (hr : s.reading = none)
    (ho : (s.conn d).st = .opened) (hq : (s.conn d).queue = q) (hok : (s.conn d).ok) (hw : ∃ w ∈ q, ¬ w.held s.buf) :
    ∃ t, Reach step Free s0 t ∧ ¬ Faithful t := by
  induction q generalizing s with
  | nil =>
    obtain ⟨w, hw, -⟩ := hw
    cases hw
  | cons w q ih =>
    obtain ⟨x, hx, hox, hqx, hstep⟩ := step_write hr ho hq
    have hreach := Reach.step _ hs trivial hstep
    have hself := setConn_self s d x
    by_cases h : w.held s.buf
    · have hokx : x.ok := uvWrite_ok hok hq (by rw [List.take_length]; exact h) hx
      have hrest : ∃ v ∈ q, ¬ v.held s.buf := by
        obtain ⟨v, hv, hn⟩ := hw
        rcases List.mem_cons.mp hv with rfl | hv
        · exact absurd h hn
        · exact ⟨v, hv, hn⟩
      refine ih hreach hr ?_ ?_ ?_ hrest
      · rw [hself]; exact hox
      · rw [hself]; exact hqx
      · rw [hself]; exact hokx
    · refine ⟨_, hreach, fun hf => ?_⟩
      have hp := hf d
      rw [hself] at hp
      exact uvWrite_breaks hok hq (by rw [List.take_length]; exact h) hx hp

theorem read_breaks (hi : ∀ d, (s.conn d).Good s.buf) {c : Nat} {bytes : List UInt8}
    (h : step s (.read c bytes) = some s') (hn : ¬ Apart s (.read c bytes)) :
    ∃ t, Reach step Free s' t ∧ ¬ Faithful t := by
  simp only [Apart] at hn
  push Not at hn
  obtain ⟨d, hd, w, hw, hne⟩ := hn
  have hopen : (s.conn d).st = .opened := by
    cases hst : (s.conn d).st with
    | absent => rw [(hi d).fresh hst] at hw; cases hw
    | opened => rfl
    | closed => exact absurd hst hd
  have hheld := (hi d).held hd w hw
  simp only [step] at h
  split at h <;> cases h
  have hstart : Reach step Free { s with buf := fill s.buf bytes, reading := some bytes.length } _ := .init
  have hret := hstart.step .ret trivial rfl
  exact flush_breaks hret rfl hopen rfl (hi d).ok ⟨w, hw, fun e => hne (e.trans hheld.symm)⟩

/-! ## Runs -/

theorem reads_apart (hr : Reach step Apart init s) : Echoed s := by
  have hi : ∀ d, (s.conn d).Good s.buf :=
    hr.invariant (fun _ => ⟨rfl, fun _ w hw => (by cases hw), fun _ => rfl⟩) fun _ _ _ hi hg h => step_good hi hg h
  exact ⟨fun c => (hi c).ok.prefix_asked, fun c bytes s' => read_breaks hi⟩

/-- The first write is cut short; a read on the other connection stores one byte, where nothing is
    left to write. -/
theorem echoed_around_a_read : ∃ s, Reach step Apart init s ∧
    ((s.conn 1).written = [1, 2, 3, 4] ∧ (s.conn 2).written = [9]) ∧ Echoed s := by
  have h1 : Reach step Apart init _ := .step (Ev.accept 1) .init trivial rfl
  have h2 : Reach step Apart init _ := .step (Ev.accept 2) h1 trivial rfl
  have h3 : Reach step Apart init _ := .step (Ev.read 1 [1, 2, 3, 4]) h2 ?_ rfl
  have h4 : Reach step Apart init _ := .step (Ev.send 1 true 2) h3 rfl rfl
  have h5 : Reach step Apart init _ := .step Ev.ret h4 trivial rfl
  have h6 : Reach step Apart init _ := .step (Ev.read 2 [9]) h5 ?_ rfl
  have h7 : Reach step Apart init _ := .step (Ev.send 2 true 1) h6 rfl rfl
  have h8 : Reach step Apart init _ := .step Ev.ret h7 trivial rfl
  have h9 : Reach step Apart init _ := .step (Ev.write 1 2) h8 trivial rfl
  · exact ⟨_, h9, by decide, reads_apart h9⟩
  · -- two bytes of connection 1 are left to write, and the read stores before them
    intro d _ w hw
    by_cases e : d = 1
    · subst e
      have hw : w ∈ [Write.mk 2 [3, 4]] := hw
      rw [List.mem_singleton.mp hw]
      decide
    · exact absurd hw (by simp [setConn, init, e, Function.update_apply, apply_ite])
  · intro d _ w hw
    refine absurd hw (List.eq_nil_iff_forall_not_mem.mp ?_ w)
    exact setConn_all (P := fun c => c.queue = [])
      (setConn_all (P := fun c => c.queue = []) (fun _ => rfl) rfl) rfl d

/-- The same with a longer read: connection 1 is written what connection 2 said. -/
theorem overwritten : ∃ s, Reach step Free init s ∧ ¬ Faithful s := by
  obtain ⟨s, hr, h⟩ := reach_of_run step init
    (fun s => (s.conn 1).written = [1, 2, 7, 6] ∧ (s.conn 1).asked = [1, 2, 3, 4])
    [.accept 1, .accept 2, .read 1 [1, 2, 3, 4], .send 1 true 2, .ret, .read 2 [9, 8, 7, 6], .send 2 true 4, .ret,
      .write 1 2]
    ⟨_, rfl, by decide⟩
  refine ⟨s, hr, fun hf => ?_⟩
  have := hf 1
  rw [h.1, h.2] at this
  exact absurd this (by decide)

end UvWrapper.Net.Echo
