/-
  UvWrapper.Net.ServerSendAll — a server that only its loop's thread uses: its life
  (`UvWrapper.Net.ServerLife`) without the closing thread, from any outcome of tcp_server_run, and with
  user code that also calls tcp_server_send_data_2_all.

  Such a call is under way as long as its QUEUE_FOREACH is; while it is inside a send's user
  callback, that callback may close the server, send, or start a traversal of its own, so
  the traversals under way are a stack. Libuv calls nothing back before they are through.

  Proved: whenever no callback is running, conn_count is the number of sessions, and sessions are,
  in accept order, the accepted connections whose close callback has not run; and each
  connection's callbacks keep to the protocol (`sessions_accounted`).
-/

import UvWrapper.Net.ServerSessions

namespace UvWrapper.Net.ServerSendAll

open UvWrapper.Lib UvWrapper.Lib.Trace UvWrapper.Net.ServerLife

/-! ## State -/

/-- Where a traversal is: before its loop test, with `none` the list's head, or
    after the send to `n`, still to read the next node from it. -/
inductive Pos where
  | test (q : Option Nat)
  | sent (n : Nat)
  deriving DecidableEq, Repr

/-- A tcp_server_send_data_2_all under way, and the stack of its caller. -/
structure Traversal where
  base : List Frame
  pos : Pos
  deriving DecidableEq, Repr

structure St where
  life : ServerLife.St
  all : List Traversal

/-- `tcp_server_run` once its allocations are made, by what uv_tcp_bind and uv_listen return. -/
def tcpServerRun (bind listen : Int) : St :=
  ⟨if bind ≠ 0 then tcpServerClose ServerLife.init
   else if listen ≠ 0 then tcpServerClose ServerLife.init
   else ServerLife.init, []⟩

/-! ## Steps -/

def queueNext (sessions : List Nat) (n : Nat) : Option Nat := sessions[sessions.idxOf n + 1]?

/-- The innermost traversal has the thread: no callback of one of its sends is under way. -/
def busy (s : St) : Bool := s.all.head?.any (·.base == s.life.stack)

def traverse (s : St) (malloc : Bool) : Option St :=
  match s.all with
  | [] => none
  | t :: r =>
    match t.pos with
    | .test none => some { s with all := r }
    | .test (some n) => some ⟨sendData s.life n malloc, ⟨t.base, .sent n⟩ :: r⟩
    | .sent n => some ⟨reads s.life false (some n) s.life, ⟨t.base, .test (queueNext s.life.sessions n)⟩ :: r⟩

inductive Ev where
  | life (e : ServerLife.Ev)
  /-- User code calls tcp_server_send_data_2_all. -/
  | sendAll
  | traverse (malloc : Bool)
  deriving DecidableEq, Repr

def step (s : St) (e : Ev) : Option St :=
  if s.life.uaf then none
  else match e with
  | .life e => if busy s = true ∨ e = .closer then none else (ServerLife.step s.life e).map fun t => { s with life := t }
  | .sendAll =>
    if busy s = false ∧ userRuns s.life.stack = true ∧ s.life.frees = 0 then
      some { s with all := ⟨s.life.stack, .test s.life.sessions.head?⟩ :: s.all }
    else none
  | .traverse malloc => if busy s = true then traverse s malloc else none

/-! ## What a run accepted and closed -/

def Ev.accepted? : Ev → Option Nat
  | .life e => e.accepted?
  | _ => none

def Ev.closed? : Ev → Option Nat
  | .life e => e.closed?
  | _ => none

def accepted (es : List Ev) : List Nat := es.filterMap Ev.accepted?

def closeRan (es : List Ev) : List Nat := es.filterMap Ev.closed?

/-! ## The invariant -/

/-- A traversal's caller waits under frames of sends, and its node is in sessions. -/
structure TraversalOk (s : ServerLife.St) (t : Traversal) : Prop where
  under : ∃ above, s.stack = above ++ t.base ∧ ∀ f ∈ above, f.nested = true
  user : userRuns t.base = true
  test : ∀ n, t.pos = .test (some n) → n ∈ s.sessions
  sent : ∀ n, t.pos = .sent n → n ∈ s.sessions

structure Alone (s : ServerLife.St) : Prop where
  closer : s.closer = .idle ∨ s.closer = .done
  pending : s.closePending = false

structure Inv (s : St) : Prop where
  life : ServerLife.Inv s.life
  alone : Alone s.life
  all : ∀ t ∈ s.all, TraversalOk s.life t
  /-- An inner traversal is called from further up the stack. -/
  inner : s.all.Pairwise fun t u => u.base.length < t.base.length

variable {s s' : St}

/-- is_closing is never set while close_handle is still to come. -/
theorem Inv.orderly (hi : Inv s) (e : ServerLife.Ev) : ServerLife.orderly s.life e = true := by
  have hc : s.life.isClosing = true → s.life.listen.st ≠ .opened := by
    intro h ho
    have hu := hi.life.phase.up (.inl ho)
    have hp := hi.life.phase
    rcases hi.alone.closer with hc | hc
    · rw [hc] at hp; rw [hp.2.1] at h; cases h
    · rw [hc] at hp
      rcases hp.2 with ⟨-, hpend⟩ | ⟨hd, -⟩
      · rw [hi.alone.pending] at hpend; cases hpend
      · have := hd.listen; rw [Handle.not_closing_of_opened ho] at this; cases this
  cases e with
  | goOn =>
    simp only [ServerLife.orderly]
    split
    · cases h : s.life.isClosing with
      | false => rfl
      | true => simp [hc h]
    · rfl
  | _ => rfl

/-- tcp_server_run leaves a server that nobody has used yet, or one that it has closed itself. -/
theorem tcpServerRun_cases {P : ServerLife.St → Prop} (h0 : P ServerLife.init)
    (h1 : ∀ l, ServerLife.step ServerLife.init .close = some l → P l) (bind listen : Int) :
    P (tcpServerRun bind listen).life := by
  unfold tcpServerRun
  simp only
  split
  · exact h1 _ rfl
  · split
    · exact h1 _ rfl
    · exact h0

theorem TraversalOk.keep {l l' : ServerLife.St} {t : Traversal} (h : TraversalOk l t) (hs : l'.sessions = l.sessions)
    (hst : ∃ above, l'.stack = above ++ t.base ∧ ∀ f ∈ above, f.nested = true) : TraversalOk l' t :=
  ⟨hst, h.user, fun n hn => hs ▸ h.test n hn, fun n hn => hs ▸ h.sent n hn⟩

/-- While no traversal has the thread, each waits under some frame. -/
theorem Inv.waiting (hi : Inv s) (hb : busy s = false) {t : Traversal} (ht : t ∈ s.all) :
    ∃ f above, s.life.stack = f :: above ++ t.base ∧ f.nested = true ∧ ∀ g ∈ above, g.nested = true := by
  have hne : t.base.length < s.life.stack.length := by
    cases hall : s.all with
    | nil => rw [hall] at ht; cases ht
    | cons u r =>
      have hle : u.base.length ≤ s.life.stack.length := by
        obtain ⟨above, h, -⟩ := (hi.all u (by rw [hall]; exact List.mem_cons_self)).under
        rw [h, List.length_append]; omega
      rw [hall] at ht
      rcases List.mem_cons.mp ht with rfl | ht
      · -- the innermost traversal is at the top only when it has the thread
        obtain ⟨above, h, -⟩ := (hi.all t (by rw [hall]; exact List.mem_cons_self)).under
        cases above with
        | nil =>
          have h : s.life.stack = t.base := h
          simp [busy, hall, h] at hb
        | cons f above => rw [h]; simp only [List.cons_append, List.length_cons, List.length_append]; omega
      · have hin := hi.inner
        rw [hall] at hin
        have := (List.pairwise_cons.mp hin).1 t ht
        omega
  obtain ⟨above, h, hn⟩ := (hi.all t ht).under
  cases above with
  | nil => rw [h, List.nil_append] at hne; omega
  | cons f above => exact ⟨f, above, h, hn f List.mem_cons_self, fun g hg => hn g (List.mem_cons_of_mem _ hg)⟩

/-- A step of the server's life under the traversals: it starts or ends a callback of one of their sends. -/
theorem life_all (hi : Inv s) (hb : busy s = false) {e : ServerLife.Ev} {l : ServerLife.St}
    (h : ServerLife.step s.life e = some l) {t : Traversal} (ht : t ∈ s.all) : TraversalOk l t := by
  obtain ⟨f, above, hst, hf, hn⟩ := hi.waiting hb ht
  have hok := hi.all t ht
  have hne : s.life.stack ≠ [] := by rw [hst]; simp
  have hpop : ∀ {g : Frame} {r : List Frame}, s.life.stack = g :: r →
      ∃ above, r = above ++ t.base ∧ ∀ g ∈ above, g.nested = true := by
    intro g r hg
    rw [hst] at hg
    exact ⟨above, (List.cons.inj hg).2.symm, hn⟩
  cases step_effect hi.life h with
  | accept _ _ hnil => exact absurd hnil hne
  | close _ _ hnil => exact absurd hnil hne
  | remove n _ hrem =>
    rw [hrem] at hst
    rw [← (List.cons.inj hst).1] at hf
    cases hf
  | start cb r _ _ _ _ hs _ hst' _ hr _ =>
    refine hok.keep hs ⟨.user cb :: r ++ f :: above, by rw [hst', hst]; simp, fun g hg => ?_⟩
    rcases List.mem_append.mp hg with hg | hg
    · rcases List.mem_cons.mp hg with rfl | hg
      · rfl
      · exact hr hne g hg
    · rcases List.mem_cons.mp hg with rfl | hg
      · exact hf
      · exact hn g hg
  | ret cb _ _ hs _ hpop' _ => exact hok.keep hs (hpop hpop')
  | quiet _ _ hs _ hst' _ =>
    rcases hst' with he | ⟨g, hg, -⟩
    · exact hok.keep hs (he ▸ hok.under)
    · exact hok.keep hs (hpop hg)

theorem Alone.reads {l t : ServerLife.St} (hl : Alone l) (ht : Alone t) {server : Bool} {n : Option Nat} :
    Alone (reads l server n t) := by
  unfold ServerLife.reads
  split
  · exact ⟨hl.closer, hl.pending⟩
  · exact ht

theorem goOn_alone {l l' : ServerLife.St} (ha : Alone l) (h : goOn l = some l') : Alone l' := by
  have hsame : ∀ {t : ServerLife.St}, t.closer = l.closer → t.closePending = l.closePending → Alone t :=
    fun h1 h2 => ⟨h1 ▸ ha.closer, h2 ▸ ha.pending⟩
  have hreads : ∀ {server : Bool} {n : Option Nat} {t : ServerLife.St}, t.closer = l.closer →
      t.closePending = l.closePending → Alone (reads l server n t) := fun h1 h2 => ha.reads (hsame h1 h2)
  unfold goOn at h
  split at h
  · cases h; exact hsame rfl rfl
  · cases h; exact hsame rfl rfl
  · cases h; exact hreads rfl rfl
  · cases h
    rw [remove_eq]
    exact hreads rfl rfl
  · cases h; exact hreads rfl rfl
  · cases h

theorem sendData_alone {l : ServerLife.St} (ha : Alone l) (n : Nat) (malloc : Bool) : Alone (sendData l n malloc) := by
  unfold sendData
  refine ha.reads ?_
  split
  · exact ⟨ha.closer, ha.pending⟩
  · exact ⟨ha.closer, ha.pending⟩

theorem life_alone {l l' : ServerLife.St} (hi : ServerLife.Inv l) (ha : Alone l) {e : ServerLife.Ev} (he : e ≠ .closer)
    (h : ServerLife.step l e = some l') : Alone l' := by
  have hsame : ∀ {t : ServerLife.St}, t.closer = l.closer → t.closePending = l.closePending → Alone t :=
    fun h1 h2 => ⟨h1 ▸ ha.closer, h2 ▸ ha.pending⟩
  have hreads : ∀ {server : Bool} {n : Option Nat} {t : ServerLife.St}, t.closer = l.closer →
      t.closePending = l.closePending → Alone (reads l server n t) := fun h1 h2 => ha.reads (hsame h1 h2)
  unfold ServerLife.step at h
  rw [if_neg (by simp [hi.uaf])] at h
  cases e with
  | newConnection a =>
    simp only at h
    split at h
    · cases a with
      | client n accepted =>
        simp only [onNewConnection] at h
        split at h
        · cases h
          refine ha.reads ?_
          split
          · exact hsame rfl rfl
          · exact hsame rfl rfl
        · cases h
      | _ => cases h; exact hreads rfl rfl
    · cases h
  | read n nread =>
    simp only at h
    split at h <;> cases h
    refine ha.reads ?_
    split
    · exact hsame rfl rfl
    · split
      · exact ha
      · exact hsame rfl rfl
  | written i =>
    simp only at h
    split at h
    · cases hq : l.inflight[i]? with
      | none => rw [hq] at h; cases h
      | some n => rw [hq] at h; cases h; exact hreads rfl rfl
    · cases h
  | closed n =>
    simp only at h
    split at h <;> cases h
    unfold onClosed
    split
    · exact hreads rfl rfl
    · exact hsame rfl rfl
  | ownClosed o =>
    simp only at h
    split at h
    · cases o <;> (simp only [onOwnClosed] at h; split at h <;> cases h; exact hsame rfl rfl)
    · cases h
  | asyncClose =>
    simp only at h
    split at h <;> cases h
    rename_i hc
    rw [ha.pending] at hc; cases hc.2.1
  | goOn => exact goOn_alone ha h
  | ret =>
    simp only at h
    split at h
    · cases h; exact hsame rfl rfl
    · cases h
  | send n malloc =>
    simp only at h
    split at h <;> cases h
    exact sendData_alone ha n malloc
  | close =>
    simp only at h
    split at h <;> cases h
    refine ha.reads ?_
    unfold tcpServerClose
    rw [closeHandle_eq (s := { l with isClosing := true, closer := .done }) hi.nodup]
    exact ⟨.inr rfl, ha.pending⟩
  | closer => exact absurd rfl he

/-- A traversal's send is a send of its caller's. -/
theorem send_step (hi : Inv s) (hb : busy s = true) {t : Traversal} {r : List Traversal} (hall : s.all = t :: r) {n : Nat}
    (hpos : t.pos = .test (some n)) (malloc : Bool) :
    ServerLife.step s.life (.send n malloc) = some (sendData s.life n malloc) := by
  have hok := hi.all t (by rw [hall]; exact List.mem_cons_self)
  have hbase : t.base = s.life.stack := by simpa [busy, hall] using hb
  unfold ServerLife.step
  rw [if_neg (by simp [hi.life.uaf])]
  exact if_pos ⟨hbase ▸ hok.user, hok.test n hpos⟩

theorem sendData_stack {l : ServerLife.St} (hi : ServerLife.Inv l) {n : Nat} (hn : n ∈ l.sessions) (malloc : Bool) :
    (sendData l n malloc).sessions = l.sessions ∧
      ∃ above, (sendData l n malloc).stack = above ++ l.stack ∧ ∀ f ∈ above, f.nested = true := by
  unfold sendData
  rw [hi.reads_conn hn]
  split
  · exact ⟨rfl, [], rfl, fun _ h => absurd h List.not_mem_nil⟩
  · refine ⟨rfl, [.user (.onError (some n)), .sendFailed n], rfl, fun f hf => ?_⟩
    rcases List.mem_cons.mp hf with rfl | hf
    · rfl
    · rw [List.mem_singleton.mp hf]; rfl

/-- The life of the server goes on by one step that accepts and closes what the event does, or stays. -/
theorem step_life (hi : Inv s) {e : Ev} (h : step s e = some s') :
    (∃ f, f ≠ .closer ∧ ServerLife.step s.life f = some s'.life ∧ f.accepted? = e.accepted? ∧ f.closed? = e.closed?) ∨
      (s'.life = s.life ∧ e.accepted? = none ∧ e.closed? = none) := by
  unfold step at h
  rw [if_neg (by simp [hi.life.uaf])] at h
  cases e with
  | life f =>
    simp only at h
    split at h
    · cases h
    · rename_i hc
      cases hl : ServerLife.step s.life f with
      | none => rw [hl] at h; cases h
      | some l => rw [hl] at h; cases h; exact .inl ⟨f, fun he => hc (.inr he), hl, rfl, rfl⟩
  | sendAll =>
    simp only at h
    split at h <;> cases h
    exact .inr ⟨rfl, rfl, rfl⟩
  | traverse malloc =>
    simp only at h
    split at h
    · rename_i hb
      unfold traverse at h
      split at h
      · cases h
      · rename_i t r hall
        split at h
        · cases h; exact .inr ⟨rfl, rfl, rfl⟩
        · rename_i n hpos
          cases h
          exact .inl ⟨.send n malloc, by simp, send_step hi hb hall hpos malloc, rfl, rfl⟩
        · rename_i n hpos
          have hn := (hi.all t (by rw [hall]; exact List.mem_cons_self)).sent n hpos
          rw [hi.life.reads_conn hn] at h
          cases h
          exact .inr ⟨rfl, rfl, rfl⟩
    · cases h

/-- The innermost traversal moves its cursor. -/
theorem cursor_inv (hi : Inv s) {t : Traversal} {r : List Traversal} (hall : s.all = t :: r) {p : Pos}
    (ht : ∀ n, p = .test (some n) → n ∈ s.life.sessions) (hs : ∀ n, p = .sent n → n ∈ s.life.sessions) :
    Inv ⟨s.life, ⟨t.base, p⟩ :: r⟩ := by
  have hin := hi.inner
  rw [hall] at hin
  refine ⟨hi.life, hi.alone, fun u hu => ?_, List.pairwise_cons.mpr ⟨(List.pairwise_cons.mp hin).1, hin.tail⟩⟩
  rcases List.mem_cons.mp hu with rfl | hu
  · have hok := hi.all t (by rw [hall]; exact List.mem_cons_self)
    exact ⟨hok.under, hok.user, ht, hs⟩
  · exact hi.all u (by rw [hall]; exact List.mem_cons_of_mem _ hu)

theorem traverse_inv (hi : Inv s) (hb : busy s = true) {malloc : Bool} (h : traverse s malloc = some s') : Inv s' := by
  unfold traverse at h
  split at h
  · cases h
  · rename_i t r hall
    have hok := hi.all t (by rw [hall]; exact List.mem_cons_self)
    split at h
    · cases h
      have hin := hi.inner
      rw [hall] at hin
      exact ⟨hi.life, hi.alone, fun u hu => hi.all u (by rw [hall]; exact List.mem_cons_of_mem _ hu), hin.tail⟩
    · rename_i n hpos
      cases h
      have hn := hok.test n hpos
      obtain ⟨hs, above, hst, hnest⟩ := sendData_stack hi.life hn malloc
      have h1 := cursor_inv hi hall (p := .sent n) (fun m hm => by cases hm) fun m hm => by cases hm; exact hn
      refine ⟨step_inv hi.life rfl (send_step hi hb hall hpos malloc), sendData_alone hi.alone n malloc, fun u hu => ?_,
        h1.inner⟩
      have hu := h1.all u hu
      obtain ⟨abv, hst', hnest'⟩ := hu.under
      refine hu.keep hs ⟨above ++ abv, by rw [hst, hst', List.append_assoc], fun f hf => ?_⟩
      rcases List.mem_append.mp hf with hf | hf
      · exact hnest f hf
      · exact hnest' f hf
    · rename_i n hpos
      have hn := hok.sent n hpos
      rw [hi.life.reads_conn hn] at h
      cases h
      exact cursor_inv hi hall (fun m hm => List.mem_of_getElem? (Pos.test.inj hm)) fun m hm => by cases hm

theorem step_keeps (hi : Inv s) {e : Ev} (h : step s e = some s') : Inv s' := by
  unfold step at h
  rw [if_neg (by simp [hi.life.uaf])] at h
  cases e with
  | life f =>
    simp only at h
    split at h
    · cases h
    · rename_i hc
      have hb : busy s = false := by simpa using fun hb => hc (.inl hb)
      cases hl : ServerLife.step s.life f with
      | none => rw [hl] at h; cases h
      | some l =>
        rw [hl] at h; cases h
        exact ⟨step_inv hi.life (hi.orderly f) hl, life_alone hi.life hi.alone (fun he => hc (.inr he)) hl,
          fun t ht => life_all hi hb hl ht, hi.inner⟩
  | sendAll =>
    simp only at h
    split at h <;> cases h
    rename_i hc
    refine ⟨hi.life, hi.alone, fun t ht => ?_, List.pairwise_cons.mpr ⟨fun t ht => ?_, hi.inner⟩⟩
    · rcases List.mem_cons.mp ht with rfl | ht
      · exact ⟨⟨[], rfl, fun _ h => absurd h List.not_mem_nil⟩, hc.2.1,
          fun n hn => List.mem_of_mem_head? (Pos.test.inj hn), fun n hn => by cases hn⟩
      · exact hi.all t ht
    · obtain ⟨f, above, hst, -⟩ := hi.waiting hc.1 ht
      show t.base.length < s.life.stack.length
      rw [hst]
      simp only [List.cons_append, List.length_cons, List.length_append]
      omega
  | traverse malloc =>
    simp only at h
    split at h
    · rename_i hb; exact traverse_inv hi hb h
    · cases h

theorem tcpServerRun_inv (bind listen : Int) : Inv (tcpServerRun bind listen) := by
  refine ⟨?_, ?_, fun _ h => absurd h List.not_mem_nil, .nil⟩
  · exact tcpServerRun_cases ServerLife.init_inv (fun l h => step_inv ServerLife.init_inv rfl h) bind listen
  · exact tcpServerRun_cases ⟨.inl rfl, rfl⟩
      (fun l h => life_alone ServerLife.init_inv ⟨.inl rfl, rfl⟩ (by simp) h) bind listen

/-! ## Sessions -/

structure Kept (es : List Ev) (s : St) : Prop where
  inv : Inv s
  accounted : Accounted (accepted es) (closeRan es) s.life
  called : Called (accepted es) (closeRan es) s.life

theorem accepted_snoc (es : List Ev) (e : Ev) : accepted (es ++ [e]) = accepted es ++ e.accepted?.toList := by
  simp only [accepted, List.filterMap_append, List.filterMap_cons, List.filterMap_nil]
  cases e.accepted? <;> rfl

theorem closeRan_snoc (es : List Ev) (e : Ev) : closeRan (es ++ [e]) = closeRan es ++ e.closed?.toList := by
  simp only [closeRan, List.filterMap_append, List.filterMap_cons, List.filterMap_nil]
  cases e.closed? <;> rfl

theorem kept {bind listen : Int} {es : List Ev} (h : run step (tcpServerRun bind listen) es = some s) : Kept es s := by
  refine run_induction (P := Kept) ⟨tcpServerRun_inv bind listen, ?_, ?_⟩ (fun es s e s' _ hk h => ?_) h
  · exact tcpServerRun_cases init_accounted (fun l h => step_accounted ServerLife.init_inv init_accounted h) bind listen
  · exact tcpServerRun_cases init_called
      (fun l h => step_called ServerLife.init_inv init_accounted init_called h) bind listen
  refine ⟨step_keeps hk.inv h, ?_, ?_⟩
  · rw [accepted_snoc, closeRan_snoc]
    rcases step_life hk.inv h with ⟨f, -, hf, h1, h2⟩ | ⟨hl, h1, h2⟩
    · rw [← h1, ← h2]; exact step_accounted hk.inv.life hk.accounted hf
    · rw [h1, h2, hl]
      simpa using hk.accounted
  · rw [accepted_snoc, closeRan_snoc]
    rcases step_life hk.inv h with ⟨f, -, hf, h1, h2⟩ | ⟨hl, h1, h2⟩
    · rw [← h1, ← h2]; exact step_called hk.inv.life hk.accounted hk.called hf
    · rw [h1, h2, hl]
      simpa using hk.called

structure SessionsAccounted (es : List Ev) (s : St) : Prop where
  /-- Whenever no callback is running. -/
  count : s.life.stack = [] → s.life.connCount = s.life.sessions.length
  sessions : s.life.stack = [] → s.life.sessions = (accepted es).filter fun n => decide (n ∉ closeRan es)
  nodup : s.life.sessions.Nodup
  protocol : Protocol (accepted es) (closeRan es) s.life.log

theorem sessions_accounted {es : List Ev} (h : run step (tcpServerRun 0 0) es = some s) : SessionsAccounted es s := by
  have hk := kept h
  refine ⟨fun _ => hk.accounted.count, fun hst => ?_, hk.inv.life.nodup, hk.called.protocol⟩
  rw [hk.accounted.sessions]
  refine List.filter_congr fun n _ => ?_
  rw [hst]
  simp

/-- Two connections, a broadcast from on_read whose first send fails and closes the server, and one
    close callback. -/
theorem closed_during_broadcast : ∃ es s, run step (tcpServerRun 0 0) es = some s ∧
    (s.life.connCount = 1 ∧ s.life.sessions = [2]) ∧ SessionsAccounted es s :=
  ⟨[.life (.newConnection (.client 1 true)), .life .ret, .life .goOn, .life (.newConnection (.client 2 true)), .life .ret,
    .life .goOn, .life (.read 1 7), .sendAll, .traverse false, .life .close, .life .ret, .life .goOn, .traverse true,
    .traverse true, .traverse true, .traverse true, .life .ret, .life (.closed 1), .life .ret, .life .goOn],
    _, rfl, by decide, sessions_accounted rfl⟩

end UvWrapper.Net.ServerSendAll
