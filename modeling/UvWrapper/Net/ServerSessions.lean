/-
  UvWrapper.Net.ServerSessions — the sessions of a server and the callbacks it makes for
  them (see `UvWrapper.Net.ServerLife`).

  `Effect` says what a step does to sessions, conn_count, the stack and the log; from it:
  - `Accounted`: conn_count is the length of sessions, and sessions are the accepted connections,
    in order, less those whose close callback has run;
  - `Protocol`: per connection, on_conn_open once and first, on_conn_close once and with the
    close callback, no on_read after its start and nothing after its return.
-/

import UvWrapper.Net.ServerLifeProofs

namespace UvWrapper.Net.ServerLife

open UvWrapper.Lib UvWrapper.Lib.Trace

/-! ## What a run accepted and closed -/

def Ev.accepted? : Ev → Option Nat
  | .newConnection (.client n true) => some n
  | _ => none

def Ev.closed? : Ev → Option Nat
  | .closed n => some n
  | _ => none

def Cb.conn? : Cb → Option Nat
  | .onOpen n | .onRead n | .onClose n => some n
  | .onError n => n

/-! ## What a step does -/

/-- A user callback other than on_conn_open and on_conn_close, and what holds when it starts. -/
def Allowed (s : St) : Cb → Prop
  | .onRead n => n ∈ s.sessions ∧ (s.client n).st = .opened
  | .onError (some n) => n ∈ s.sessions
  | .onError none => True
  | _ => False

inductive Effect (s : St) (e : Ev) (s' : St) : Prop
  | accept (n : Nat) (he : e = .newConnection (.client n true)) (hst : s.stack = []) (hn : (s.client n).st = .absent)
      (hs : s'.sessions = s.sessions ++ [n]) (hc : s'.connCount = s.connCount + 1)
      (hst' : s'.stack = [.user (.onOpen n), .readStart n]) (hl : s'.log = s.log ++ [.start (.onOpen n)])
  | close (n : Nat) (he : e = .closed n) (hst : s.stack = []) (hn : n ∈ s.sessions) (hcl : (s.client n).st = .closing)
      (hs : s'.sessions = s.sessions) (hc : s'.connCount = s.connCount)
      (hst' : s'.stack = [.user (.onClose n), .remove n]) (hl : s'.log = s.log ++ [.start (.onClose n)])
  | remove (n : Nat) (he : e = .goOn) (hst : s.stack = [.remove n]) (hs : s'.sessions = s.sessions.erase n)
      (hc : s'.connCount = s.connCount - 1) (hst' : s'.stack = []) (hl : s'.log = s.log)
  | start (cb : Cb) (r : List Frame) (ha : e.accepted? = none) (hcl : e.closed? = none) (hu : userRuns s.stack = true)
      (hcb : Allowed s cb) (hs : s'.sessions = s.sessions) (hc : s'.connCount = s.connCount)
      (hst' : s'.stack = .user cb :: r ++ s.stack) (hr : ∀ f ∈ r, (∀ n, f ≠ .remove n) ∧ ∀ c, f ≠ .user c)
      (hn : s.stack ≠ [] → ∀ f ∈ r, f.nested = true) (hl : s'.log = s.log ++ [.start cb])
  | ret (cb : Cb) (ha : e.accepted? = none) (hcl : e.closed? = none) (hs : s'.sessions = s.sessions)
      (hc : s'.connCount = s.connCount) (hst : s.stack = .user cb :: s'.stack) (hl : s'.log = s.log ++ [.ret cb])
  | quiet (ha : e.accepted? = none) (hcl : ∀ n, e.closed? = some n → n ∉ s.sessions ∧ (s.client n).st = .closing)
      (hs : s'.sessions = s.sessions) (hc : s'.connCount = s.connCount)
      (hst' : s'.stack = s.stack ∨ ∃ f, s.stack = f :: s'.stack ∧ (∀ n, f ≠ .remove n) ∧ ∀ c, f ≠ .user c)
      (hl : s'.log = s.log)

variable {s s' : St}

theorem closeHandle_effect (hn : s.sessions.Nodup) : (closeHandle s).sessions = s.sessions ∧
    (closeHandle s).connCount = s.connCount ∧ (closeHandle s).stack = s.stack ∧ (closeHandle s).log = s.log := by
  rw [closeHandle_eq hn]
  exact ⟨rfl, rfl, rfl, rfl⟩

theorem onNewConnection_effect (hi : Inv s) {a : Accept} (hst : s.stack = []) (ho : s.listen.st = .opened)
    (h : onNewConnection s a = some s') : Effect s (.newConnection a) s' := by
  have hup := hi.phase.up (.inl ho)
  have hreads : ∀ t, reads s true none t = t := fun t => reads_eq (fun _ => hup.frees) fun m h => by cases h
  have hu : userRuns s.stack = true := by rw [hst]; rfl
  cases a with
  | error =>
    simp only [onNewConnection, hreads, Option.some.injEq] at h
    subst h
    exact .start (.onError none) [] rfl rfl hu trivial rfl rfl (by rw [hst]; rfl) (by simp) (by simp) rfl
  | noMemory =>
    simp only [onNewConnection, hreads, Option.some.injEq] at h
    subst h
    exact .start (.onError none) [] rfl rfl hu trivial rfl rfl (by rw [hst]; rfl) (by simp) (by simp) rfl
  | client n accepted =>
    simp only [onNewConnection, hreads] at h
    split at h
    · rename_i hn
      cases accepted with
      | true =>
        simp only [if_true, Option.some.injEq] at h
        subst h
        exact .accept n rfl hst hn rfl rfl rfl rfl
      | false =>
        simp only [Bool.false_eq_true, if_false, Option.some.injEq] at h
        subst h
        exact .start (.onError none) [.refuse n] rfl rfl hu trivial rfl rfl (by rw [hst]; rfl) (by simp)
          (fun h => absurd hst h) rfl
    · cases h

theorem onConnRead_effect (hi : Inv s) {n : Nat} {nread : Int} (hst : s.stack = []) (hr : s.reading n = true)
    (ho : (s.client n).st = .opened) : Effect s (.read n nread) (onConnRead s n nread) := by
  have hn := hi.reading n hr ho
  have hu : userRuns s.stack = true := by rw [hst]; rfl
  unfold onConnRead
  rw [hi.reads_conn hn]
  split
  · exact .start (.onRead n) [] rfl rfl hu ⟨hn, ho⟩ rfl rfl (by rw [hst]; rfl) (by simp) (by simp) rfl
  · split
    · exact .quiet rfl (fun _ h => by cases h) rfl rfl (.inl rfl) rfl
    · exact .start (.onError (some n)) [.readError n] rfl rfl hu hn rfl rfl (by rw [hst]; rfl) (by simp)
        (fun h => absurd hst h) rfl

theorem onClosed_effect (hi : Inv s) {n : Nat} (hst : s.stack = []) (hc : (s.client n).st = .closing) :
    Effect s (.closed n) (onClosed s n) := by
  unfold onClosed
  split
  · rename_i hn
    rw [hi.reads_conn hn]
    exact .close n rfl hst hn hc rfl rfl rfl rfl
  · rename_i hn
    exact .quiet rfl (fun m hm => by cases hm; exact ⟨hn, hc⟩) rfl rfl (.inl rfl) rfl

theorem goOn_effect (hi : Inv s) (h : goOn s = some s') : Effect s .goOn s' := by
  have hpop : ∀ {f : Frame} {r : List Frame} {t : St}, s.stack = f :: r → ((∀ n, f ≠ .remove n) ∧ ∀ c, f ≠ .user c) →
      t.sessions = s.sessions → t.connCount = s.connCount → t.stack = r → t.log = s.log → Effect s .goOn t :=
    fun hst hf h1 h2 h3 h4 => .quiet rfl (fun _ h => by cases h) h1 h2 (.inr ⟨_, h3 ▸ hst, hf⟩) h4
  unfold goOn at h
  split at h
  · rename_i n r hst; cases h; exact hpop hst (by simp) rfl rfl rfl rfl
  · rename_i n r hst; cases h; exact hpop hst (by simp) rfl rfl rfl rfl
  · rename_i n r hst
    rw [hi.reads_conn (hi.frames (.readError n) (by rw [hst]; exact List.mem_cons_self) n rfl)] at h
    cases h; exact hpop hst (by simp) rfl rfl rfl rfl
  · rename_i n r hst
    rw [hi.reads_conn (hi.frames (.remove n) (by rw [hst]; exact List.mem_cons_self) n rfl)] at h
    cases h
    have hr := hi.under hst rfl
    subst hr
    rw [remove_eq]
    exact .remove n rfl hst rfl rfl rfl rfl
  · rename_i n r hst
    rw [hi.reads_conn (hi.frames (.sendFailed n) (by rw [hst]; exact List.mem_cons_self) n rfl)] at h
    cases h; exact hpop hst (by simp) rfl rfl rfl rfl
  · cases h

theorem sendData_effect (hi : Inv s) {n : Nat} {malloc : Bool} (hu : userRuns s.stack = true) (hn : n ∈ s.sessions) :
    Effect s (.send n malloc) (sendData s n malloc) := by
  unfold sendData
  rw [hi.reads_conn hn]
  split
  · exact .quiet rfl (fun _ h => by cases h) rfl rfl (.inl rfl) rfl
  · exact .start (.onError (some n)) [.sendFailed n] rfl rfl hu hn rfl rfl rfl (by simp)
      (fun _ f hf => by rw [List.mem_singleton.mp hf]; rfl) rfl

theorem closerStep_effect (hi : Inv s) (h : closerStep s = some s') : Effect s .closer s' := by
  have hp := hi.phase
  have hreads : Up s → ∀ t, reads s true none t = t := fun hu t => reads_eq (fun _ => hu.frees) fun m h => by cases h
  have hq : s'.sessions = s.sessions ∧ s'.connCount = s.connCount ∧ s'.stack = s.stack ∧ s'.log = s.log := by
    unfold closerStep at h
    cases hc : s.closer with
    | done => rw [hc] at h; cases h
    | _ =>
      rw [hc] at h hp
      simp only [hreads hp.1, Option.some.injEq] at h
      subst h
      exact ⟨rfl, rfl, rfl, rfl⟩
  exact .quiet rfl (fun _ h => by cases h) hq.1 hq.2.1 (.inl hq.2.2.1) hq.2.2.2

theorem step_effect (hi : Inv s) {e : Ev} (h : step s e = some s') : Effect s e s' := by
  unfold step at h
  rw [if_neg (by simp [hi.uaf])] at h
  cases e with
  | newConnection a =>
    simp only at h
    split at h
    · rename_i hc; exact onNewConnection_effect hi hc.1 hc.2 h
    · cases h
  | read n nread =>
    simp only at h
    split at h <;> cases h
    rename_i hc; exact onConnRead_effect hi hc.1 hc.2.1 hc.2.2
  | written i =>
    simp only at h
    split at h
    · cases hq : s.inflight[i]? with
      | none => rw [hq] at h; cases h
      | some n =>
        rw [hq, Option.map_some, hi.reads_conn (hi.inflight n (List.mem_of_getElem? hq)).1] at h
        cases h
        exact .quiet rfl (fun _ h => by cases h) rfl rfl (.inl rfl) rfl
    · cases h
  | closed n =>
    simp only at h
    split at h <;> cases h
    rename_i hc; exact onClosed_effect hi hc.1 hc.2.1
  | ownClosed o =>
    simp only at h
    split at h
    · cases o <;>
        (simp only [onOwnClosed] at h; split at h <;> cases h; exact .quiet rfl (fun _ h => by cases h) rfl rfl (.inl rfl) rfl)
    · cases h
  | asyncClose =>
    simp only at h
    split at h
    · rename_i hc
      have hu := hi.phase.up (.inr hc.2.2)
      rw [reads_eq (fun _ => hu.frees) fun m h => by cases h] at h
      cases h
      obtain ⟨h1, h2, h3, h4⟩ := closeHandle_effect (s := { s with closePending := false }) hi.nodup
      exact .quiet rfl (fun _ h => by cases h) h1 h2 (.inl h3) h4
    · cases h
  | goOn => exact goOn_effect hi h
  | ret =>
    simp only at h
    split at h
    · rename_i cb r hst; cases h; exact .ret cb rfl rfl rfl rfl hst rfl
    · cases h
  | send n malloc =>
    simp only at h
    split at h <;> cases h
    rename_i hc; exact sendData_effect hi hc.1 hc.2
  | close =>
    simp only at h
    split at h
    · rename_i hc
      have hp := hi.phase
      rw [hc.2] at hp
      rw [reads_eq (fun _ => hp.1.frees) fun m h => by cases h] at h
      cases h
      obtain ⟨h1, h2, h3, h4⟩ :=
        closeHandle_effect (s := { s with isClosing := true, closer := .done }) hi.nodup
      exact .quiet rfl (fun _ h => by cases h) h1 h2 (.inl h3) h4
    · cases h
  | closer => exact closerStep_effect hi h

/-! ## Clients only move on -/

/-- No client comes back from being closed, or to being absent. -/
def Onward (c c' : Nat → Handle) : Prop :=
  ∀ n, ((c n).st = .closed → (c' n).st = .closed) ∧ ((c' n).st = .absent → (c n).st = .absent)

theorem Onward.refl (c : Nat → Handle) : Onward c c := fun _ => ⟨fun h => h, fun h => h⟩

theorem Onward.update {c : Nat → Handle} {n : Nat} {h : Handle} (h1 : (c n).st = .closed → h.st = .closed)
    (h2 : h.st = .absent → (c n).st = .absent) : Onward c (Function.update c n h) := by
  intro m
  by_cases e : m = n
  · subst e; rw [Function.update_self]; exact ⟨h1, h2⟩
  · rw [Function.update_of_ne e]; exact ⟨fun h => h, fun h => h⟩

theorem closeOnce_onward (c : Nat → Handle) (n : Nat) : Onward c (Function.update c n (c n).closeOnce) :=
  .update Handle.closeOnce_closed.mpr Handle.closeOnce_absent.mp

theorem closeHandle_onward (hn : s.sessions.Nodup) : Onward s.client (closeHandle s).client := by
  rw [closeHandle_eq hn]
  intro n
  by_cases hm : n ∈ s.sessions
  · simp only [if_pos hm]; exact ⟨Handle.closeOnce_closed.mpr, Handle.closeOnce_absent.mp⟩
  · simp only [if_neg hm]; exact ⟨fun h => h, fun h => h⟩

theorem reads_client (s : St) (server : Bool) (n : Option Nat) (t : St) :
    (reads s server n t).client = s.client ∨ (reads s server n t).client = t.client := by
  unfold reads
  split
  · exact .inl rfl
  · exact .inr rfl

theorem Onward.reads {server : Bool} {n : Option Nat} {t : St} (h : Onward s.client t.client) :
    Onward s.client (reads s server n t).client := by
  rcases reads_client s server n t with he | he <;> rw [he]
  · exact .refl _
  · exact h

theorem goOn_onward (h : goOn s = some s') : Onward s.client s'.client := by
  unfold goOn at h
  split at h
  · cases h; exact .refl _
  · cases h; exact closeOnce_onward s.client _
  · cases h; exact Onward.reads (closeOnce_onward s.client _)
  · cases h
    refine Onward.reads ?_
    rw [remove_eq]
    exact .update (fun h => h) fun h => h
  · cases h; exact Onward.reads (.refl _)
  · cases h

theorem step_onward (hi : Inv s) {e : Ev} (h : step s e = some s') : Onward s.client s'.client := by
  unfold step at h
  rw [if_neg (by simp [hi.uaf])] at h
  cases e with
  | newConnection a =>
    simp only at h
    split at h
    · cases a with
      | client n accepted =>
        simp only [onNewConnection] at h
        split at h
        · rename_i hn
          cases h
          refine Onward.reads ?_
          have h1 : Onward s.client (Function.update s.client n Handle.opened) :=
            .update (fun hc => by rw [hn] at hc; cases hc) fun hc => by cases hc
          cases accepted <;> exact h1
        · cases h
      | _ => cases h; exact Onward.reads (.refl _)
    · cases h
  | read n nread =>
    simp only at h
    split at h <;> cases h
    refine Onward.reads ?_
    split
    · exact .refl _
    · split <;> exact .refl _
  | written i =>
    simp only at h
    split at h
    · cases hq : s.inflight[i]? with
      | none => rw [hq] at h; cases h
      | some n => rw [hq] at h; cases h; exact Onward.reads (.refl _)
    · cases h
  | closed n =>
    simp only at h
    split at h <;> cases h
    unfold onClosed
    split
    · exact Onward.reads (.update (fun _ => rfl) fun h => by cases h)
    · exact .update (fun _ => rfl) fun h => by cases h
  | ownClosed o =>
    simp only at h
    split at h
    · cases o <;> (simp only [onOwnClosed] at h; split at h <;> cases h; exact .refl _)
    · cases h
  | asyncClose =>
    simp only at h
    split at h <;> cases h
    exact Onward.reads (closeHandle_onward (s := { s with closePending := false }) hi.nodup)
  | goOn => exact goOn_onward h
  | ret =>
    simp only at h
    split at h
    · cases h; exact .refl _
    · cases h
  | send n malloc =>
    simp only at h
    split at h <;> cases h
    refine Onward.reads ?_
    split <;> exact .refl _
  | close =>
    simp only at h
    split at h <;> cases h
    exact Onward.reads (closeHandle_onward (s := { s with isClosing := true, closer := .done }) hi.nodup)
  | closer =>
    simp only at h
    unfold closerStep at h
    cases hc : s.closer <;> rw [hc] at h <;> cases h <;> exact Onward.reads (.refl _)

theorem closed_client (hi : Inv s) {n : Nat} (h : step s (.closed n) = some s') : (s'.client n).st = .closed := by
  unfold step at h
  rw [if_neg (by simp [hi.uaf])] at h
  simp only at h
  split at h <;> cases h
  unfold onClosed
  split
  · rename_i hn
    rw [hi.reads_conn hn]
    simp [callUser]
  · simp

/-! ## conn_count and sessions -/

/-- `acc`: the connections accepted so far, in order; `ran`: the clients whose close callback has run. -/
structure Accounted (acc ran : List Nat) (s : St) : Prop where
  count : s.connCount = s.sessions.length
  sessions : s.sessions = acc.filter fun n => decide (n ∉ ran ∨ .remove n ∈ s.stack)
  nodup : acc.Nodup
  known : ∀ n ∈ acc, (s.client n).st ≠ .absent
  closed : ∀ n ∈ ran, (s.client n).st = .closed
  removing : ∀ n, .remove n ∈ s.stack → n ∈ ran

theorem init_accounted : Accounted [] [] init where
  count := rfl
  sessions := rfl
  nodup := List.nodup_nil
  known := fun _ h => by cases h
  closed := fun _ h => by cases h
  removing := fun _ h => by cases h

variable {acc ran : List Nat} {log : List Mark}

theorem Accounted.mem (ha : Accounted acc ran s) {n : Nat} :
    n ∈ s.sessions ↔ n ∈ acc ∧ (n ∉ ran ∨ .remove n ∈ s.stack) := by
  rw [ha.sessions, List.mem_filter, decide_eq_true_eq]

/-- A step that accepts nothing, and leaves sessions and the frames of on_close_connection. -/
theorem Accounted.same (ha : Accounted acc ran s) {l : List Nat} (hc : s'.connCount = s.connCount)
    (hs : s'.sessions = s.sessions) (hst : ∀ n, .remove n ∈ s'.stack ↔ .remove n ∈ s.stack)
    (ho : Onward s.client s'.client) (hl : ∀ n ∈ l, n ∉ acc ∧ (s'.client n).st = .closed) :
    Accounted acc (ran ++ l) s' where
  count := by rw [hc, hs, ha.count]
  sessions := by
    rw [hs, ha.sessions]
    refine List.filter_congr fun n hn => ?_
    have : n ∉ l := fun h => (hl n h).1 hn
    simp only [List.mem_append, this, or_false, hst]
  nodup := ha.nodup
  known := fun n hn h => ha.known n hn ((ho n).2 h)
  closed := fun n hn => by
    rcases List.mem_append.mp hn with hn | hn
    · exact (ho n).1 (ha.closed n hn)
    · exact (hl n hn).2
  removing := fun n hn => List.mem_append_left _ (ha.removing n ((hst n).mp hn))

theorem step_accounted (hi : Inv s) (ha : Accounted acc ran s) {e : Ev} (h : step s e = some s') :
    Accounted (acc ++ e.accepted?.toList) (ran ++ e.closed?.toList) s' := by
  have ho := step_onward hi h
  cases step_effect hi h with
  | accept n he hst hn hs hc hst' =>
    subst he
    have hacc : n ∉ acc := fun hm => ha.known n hm hn
    have hran : n ∉ ran := fun hm => by rw [ha.closed n hm] at hn; cases hn
    have hrem : ∀ m, Frame.remove m ∉ s'.stack := fun m hm => by rw [hst'] at hm; simp at hm
    have hrem' : ∀ m, Frame.remove m ∉ s.stack := fun m hm => by rw [hst] at hm; cases hm
    show Accounted (acc ++ [n]) (ran ++ []) s'
    rw [List.append_nil]
    refine ⟨?_, ?_, ?_, fun m hm hm' => ?_, fun m hm => (ho m).1 (ha.closed m hm), fun m hm => absurd hm (hrem m)⟩
    · rw [hc, hs, ha.count]; simp
    · rw [hs, ha.sessions, List.filter_append]
      congr 1
      · refine List.filter_congr fun m _ => ?_
        simp only [hrem, hrem']
      · simp [hran]
    · exact nodup_snoc ha.nodup hacc
    · rcases List.mem_append.mp hm with hm | hm
      · exact ha.known m hm ((ho m).2 hm')
      · rw [List.mem_singleton.mp hm] at hm'
        have hmem : n ∈ s'.sessions := by rw [hs]; exact List.mem_append_right _ (List.mem_singleton.mpr rfl)
        exact ((step_inv hi rfl h).fresh n hm').1 hmem
  | close n he hst hn hcl hs hc hst' =>
    subst he
    have hran : n ∉ ran := fun hm => by rw [ha.closed n hm] at hcl; cases hcl
    show Accounted (acc ++ []) (ran ++ [n]) s'
    rw [List.append_nil]
    refine ⟨by rw [hc, hs, ha.count], ?_, ha.nodup, fun m hm hm' => ha.known m hm ((ho m).2 hm'), fun m hm => ?_,
      fun m hm => ?_⟩
    · rw [hs, ha.sessions]
      refine List.filter_congr fun m _ => ?_
      rw [hst, hst']
      by_cases e : m = n
      · subst e; simp [hran]
      · simp [e]
    · rcases List.mem_append.mp hm with hm | hm
      · exact (ho m).1 (ha.closed m hm)
      · rw [List.mem_singleton.mp hm]; exact closed_client hi h
    · rw [hst'] at hm
      have : m = n := by simpa using hm
      rw [this]; exact List.mem_append_right _ (List.mem_singleton.mpr rfl)
  | remove n he hst hs hc hst' =>
    subst he
    have hn := hi.frames (.remove n) (by rw [hst]; exact List.mem_cons_self) n rfl
    have hran : n ∈ ran := ha.removing n (by rw [hst]; exact List.mem_cons_self)
    show Accounted (acc ++ []) (ran ++ []) s'
    rw [List.append_nil, List.append_nil]
    refine ⟨?_, ?_, ha.nodup, fun m hm hm' => ha.known m hm ((ho m).2 hm'), fun m hm => (ho m).1 (ha.closed m hm),
      fun m hm => by rw [hst'] at hm; cases hm⟩
    · have hpos : 0 < s.sessions.length := List.length_pos_of_mem hn
      rw [hc, hs, ha.count, List.length_erase_of_mem hn]
      omega
    · rw [hs, hi.nodup.erase_eq_filter, ha.sessions, List.filter_filter]
      refine List.filter_congr fun m _ => ?_
      rw [hst, hst']
      by_cases e : m = n
      · subst e; simp [hran]
      · simp [e]
  | start cb r hacc hcl hu hcb hs hc hst' hr =>
    rw [hacc, hcl]
    show Accounted (acc ++ []) (ran ++ []) s'
    rw [List.append_nil]
    refine ha.same hc hs (fun n => ?_) ho fun _ h => by cases h
    have : Frame.remove n ∉ r := fun h => (hr _ h).1 n rfl
    simp [hst', this]
  | ret cb hacc hcl hs hc hst =>
    rw [hacc, hcl]
    show Accounted (acc ++ []) (ran ++ []) s'
    rw [List.append_nil]
    exact ha.same hc hs (fun n => by simp [hst]) ho fun _ h => by cases h
  | quiet hacc hcl hs hc hst' =>
    rw [hacc]
    show Accounted (acc ++ []) _ s'
    rw [List.append_nil]
    refine ha.same hc hs (fun n => ?_) ho fun n hn => ?_
    · rcases hst' with he | ⟨f, hf, hne, -⟩
      · rw [he]
      · rw [hf, List.mem_cons]
        exact ⟨.inr, fun h => h.resolve_left fun e => hne n e.symm⟩
    · have he : e.closed? = some n := by simpa using hn
      obtain ⟨h1, h2⟩ := hcl n he
      have hran : n ∉ ran := fun hm => by rw [ha.closed n hm] at h2; cases h2
      refine ⟨fun hm => h1 (ha.mem.mpr ⟨hm, .inl hran⟩), ?_⟩
      cases e with
      | closed m => cases he; exact closed_client hi h
      | _ => cases he

/-! ## The callbacks of a connection -/

structure Protocol (acc ran : List Nat) (log : List Mark) : Prop where
  opened : ∀ n, log.count (.start (.onOpen n)) = if n ∈ acc then 1 else 0
  closed : ∀ n, log.count (.start (.onClose n)) = if n ∈ acc ∧ n ∈ ran then 1 else 0
  first : ∀ n cb, cb.conn? = some n → cb ≠ .onOpen n → .start cb ∈ log → After log (.start (.onOpen n)) (.start cb)
  noRead : ∀ n, ¬ After log (.start (.onClose n)) (.start (.onRead n))
  last : ∀ n cb, cb.conn? = some n → ¬ After log (.ret (.onClose n)) (.start cb)

/-- The protocol, and where on_conn_close stands in the stack and in the log. -/
structure Called (acc ran : List Nat) (s : St) : Prop where
  protocol : Protocol acc ran s.log
  /-- Under on_conn_close is on_close_connection. -/
  under : ∀ n r, .user (.onClose n) :: r <:+ s.stack → r = [.remove n]
  gone : ∀ n, .ret (.onClose n) ∈ s.log → n ∈ ran ∧ (n ∉ s.sessions ∨ s.stack = [.remove n])

theorem init_called : Called [] [] init := by
  refine ⟨⟨fun n => rfl, fun n => rfl, fun n cb _ _ h => absurd h List.not_mem_nil, fun n h => ?_,
    fun n cb _ h => ?_⟩, fun n r h => ?_, fun n h => absurd h List.not_mem_nil⟩
  · exact absurd h.mem.1 (by simp [init])
  · exact absurd h.mem.1 (by simp [init])
  · exact absurd (List.suffix_nil.mp h) (by simp)

/-- A log entry that is no on_conn_open and no on_conn_close. -/
theorem Protocol.snoc (hp : Protocol acc ran log) {m : Mark} (ho : ∀ n, m ≠ .start (.onOpen n))
    (hc : ∀ n, m ≠ .start (.onClose n))
    (hf : ∀ n cb, m = .start cb → cb.conn? = some n → .start (.onOpen n) ∈ log)
    (hr : ∀ n, m = .start (.onRead n) → .start (.onClose n) ∉ log)
    (hl : ∀ n cb, m = .start cb → cb.conn? = some n → .ret (.onClose n) ∉ log) : Protocol acc ran (log ++ [m]) where
  opened := fun n => by rw [count_snoc, if_neg (ho n), Nat.add_zero]; exact hp.opened n
  closed := fun n => by rw [count_snoc, if_neg (hc n), Nat.add_zero]; exact hp.closed n
  first := fun n cb hn hne hm => by
    rcases List.mem_append.mp hm with hm | hm
    · exact after_snoc.mpr (.inl (hp.first n cb hn hne hm))
    · have e := (List.mem_singleton.mp hm).symm
      exact after_snoc.mpr (.inr ⟨e.symm, hf n cb e hn⟩)
  noRead := fun n h => by
    rcases after_snoc.mp h with h | ⟨e, h⟩
    · exact hp.noRead n h
    · exact hr n e.symm h
  last := fun n cb hn h => by
    rcases after_snoc.mp h with h | ⟨e, h⟩
    · exact hp.last n cb hn h
    · exact hl n cb e.symm hn h

theorem Protocol.mem_open (hp : Protocol acc ran log) {n : Nat} (hn : n ∈ acc) : .start (.onOpen n) ∈ log := by
  have := hp.opened n
  rw [if_pos hn] at this
  exact List.count_pos_iff.mp (by omega)

theorem Protocol.mem_close (hp : Protocol acc ran log) {n : Nat} (h : .start (.onClose n) ∈ log) : n ∈ acc ∧ n ∈ ran := by
  have := List.count_pos_iff.mpr h
  rw [hp.closed n] at this
  by_contra hn
  rw [if_neg hn] at this
  omega

/-- New frames on top, none of them user code but perhaps the first. -/
theorem suffix_push {f : Frame} {r l st : List Frame} (h : f :: r <:+ l ++ st) (hf : f ∉ l) : f :: r <:+ st := by
  induction l with
  | nil => exact h
  | cons g l ih =>
    rcases List.suffix_cons_iff.mp h with h | h
    · cases h; exact absurd List.mem_cons_self hf
    · exact ih h fun hm => hf (List.mem_cons_of_mem _ hm)

theorem step_called (hi : Inv s) (ha : Accounted acc ran s) (hc : Called acc ran s) {e : Ev} (h : step s e = some s') :
    Called (acc ++ e.accepted?.toList) (ran ++ e.closed?.toList) s' := by
  have hp := hc.protocol
  -- a connection in sessions is past on_conn_open, and not past on_conn_close
  have hopen : ∀ n ∈ s.sessions, .start (.onOpen n) ∈ s.log := fun n hn => hp.mem_open (ha.mem.mp hn).1
  have hlast : ∀ n ∈ s.sessions, (∀ m, s.stack ≠ [.remove m]) → .ret (.onClose n) ∉ s.log := fun n hn hst hm => by
    rcases (hc.gone n hm).2 with h | h
    · exact h hn
    · exact hst n h
  cases step_effect hi h with
  | accept n he hst hn hs _ hst' hl =>
    subst he
    have hacc : n ∉ acc := fun hm => ha.known n hm hn
    have hran : n ∉ ran := fun hm => by rw [ha.closed n hm] at hn; cases hn
    show Called (acc ++ [n]) (ran ++ []) s'
    rw [List.append_nil]
    refine ⟨?_, fun m r hm => ?_, fun m hm => ?_⟩
    · rw [hl]
      refine ⟨fun m => ?_, fun m => ?_, fun m cb hm hne hmem => ?_, fun m h => ?_, fun m cb hm h => ?_⟩
      · rw [count_snoc, hp.opened m]
        by_cases e : m = n
        · subst e; simp [hacc]
        · simp [e, Ne.symm e]
      · rw [count_snoc, hp.closed m]
        by_cases e : m = n
        · subst e; simp [hran]
        · simp [e]
      · rcases List.mem_append.mp hmem with hmem | hmem
        · exact after_snoc.mpr (.inl (hp.first m cb hm hne hmem))
        · cases List.mem_singleton.mp hmem; cases hm; exact absurd rfl hne
      · rcases after_snoc.mp h with h | ⟨e, -⟩
        · exact hp.noRead m h
        · cases e
      · rcases after_snoc.mp h with h | ⟨e, hret⟩
        · exact hp.last m cb hm h
        · cases e; cases hm; exact hran (hc.gone n hret).1
    · rw [hst'] at hm
      rcases List.suffix_cons_iff.mp hm with hm | hm
      · cases hm
      · rcases List.suffix_cons_iff.mp hm with hm | hm
        · cases hm
        · exact absurd (List.suffix_nil.mp hm) (by simp)
    · rw [hl] at hm
      rcases List.mem_append.mp hm with hm | hm
      · obtain ⟨h1, h2⟩ := hc.gone m hm
        refine ⟨h1, .inl fun h3 => ?_⟩
        rw [hs] at h3
        rcases List.mem_append.mp h3 with h3 | h3
        · rcases h2 with h2 | h2
          · exact h2 h3
          · rw [hst] at h2; cases h2
        · rw [List.mem_singleton.mp h3] at h1; exact hran h1
      · cases List.mem_singleton.mp hm
  | close n he hst hn hcl hs _ hst' hl =>
    subst he
    obtain ⟨hacc, -⟩ := ha.mem.mp hn
    have hran : n ∉ ran := fun hm => by rw [ha.closed n hm] at hcl; cases hcl
    have hne : ∀ m, s.stack ≠ [.remove m] := fun m h => by rw [hst] at h; cases h
    show Called (acc ++ []) (ran ++ [n]) s'
    rw [List.append_nil]
    refine ⟨?_, fun m r hm => ?_, fun m hm => ?_⟩
    · rw [hl]
      refine ⟨fun m => ?_, fun m => ?_, fun m cb hm hcb hmem => ?_, fun m h => ?_, fun m cb hm h => ?_⟩
      · rw [count_snoc, hp.opened m]; simp
      · rw [count_snoc, hp.closed m]
        by_cases e : m = n
        · subst e; simp [hacc, hran]
        · simp [e, Ne.symm e]
      · rcases List.mem_append.mp hmem with hmem | hmem
        · exact after_snoc.mpr (.inl (hp.first m cb hm hcb hmem))
        · cases List.mem_singleton.mp hmem; cases hm
          exact after_snoc.mpr (.inr ⟨rfl, hopen n hn⟩)
      · rcases after_snoc.mp h with h | ⟨e, -⟩
        · exact hp.noRead m h
        · cases e
      · rcases after_snoc.mp h with h | ⟨e, hret⟩
        · exact hp.last m cb hm h
        · cases e; cases hm; exact hlast n hn hne hret
    · rw [hst'] at hm
      rcases List.suffix_cons_iff.mp hm with hm | hm
      · cases hm; rfl
      · rcases List.suffix_cons_iff.mp hm with hm | hm
        · cases hm
        · exact absurd (List.suffix_nil.mp hm) (by simp)
    · rw [hl] at hm
      rcases List.mem_append.mp hm with hm | hm
      · obtain ⟨h1, h2⟩ := hc.gone m hm
        exact ⟨List.mem_append_left _ h1, .inl (hs ▸ h2.resolve_right (hne m))⟩
      · cases List.mem_singleton.mp hm
  | remove n he hst hs _ hst' hl =>
    subst he
    show Called (acc ++ []) (ran ++ []) s'
    rw [List.append_nil, List.append_nil]
    refine ⟨hl ▸ hp, fun m r hm => ?_, fun m hm => ?_⟩
    · rw [hst'] at hm; exact absurd (List.suffix_nil.mp hm) (by simp)
    · obtain ⟨h1, h2⟩ := hc.gone m (hl ▸ hm)
      refine ⟨h1, .inl fun h3 => ?_⟩
      rw [hs] at h3
      rcases h2 with h2 | h2
      · exact h2 (List.mem_of_mem_erase h3)
      · rw [hst] at h2; cases h2
        exact ((hi.nodup.mem_erase_iff).mp h3).1 rfl
  | start cb r hacc hcl hu hcb hs _ hst' hr _ hl =>
    rw [hacc, hcl]
    show Called (acc ++ []) (ran ++ []) s'
    rw [List.append_nil, List.append_nil]
    have hne : ∀ m, s.stack ≠ [.remove m] := fun m h => by rw [h] at hu; cases hu
    have hmem : ∀ n, cb.conn? = some n → n ∈ s.sessions := fun n hn => by
      cases cb with
      | onRead m => cases hn; exact hcb.1
      | onError o => cases hn; exact hcb
      | onOpen m => exact hcb.elim
      | onClose m => exact hcb.elim
    refine ⟨?_, fun m t hm => ?_, fun m hm => ?_⟩
    · rw [hl]
      refine hp.snoc (fun n h => ?_) (fun n h => ?_) (fun n c h hn => ?_) (fun n h hm => ?_) fun n c h hn => ?_
      · cases h; exact hcb
      · cases h; exact hcb
      · cases h; exact hopen n (hmem n hn)
      · cases h
        have := ha.closed n (hp.mem_close hm).2
        rw [hcb.2] at this; cases this
      · cases h; exact hlast n (hmem n hn) hne
    · rw [hst', List.cons_append] at hm
      rcases List.suffix_cons_iff.mp hm with hm | hm
      · cases hm; exact hcb.elim
      · exact hc.under m t (suffix_push hm fun h => (hr _ h).2 _ rfl)
    · rw [hl] at hm
      rcases List.mem_append.mp hm with hm | hm
      · obtain ⟨h1, h2⟩ := hc.gone m hm
        exact ⟨h1, .inl (hs ▸ h2.resolve_right (hne m))⟩
      · cases List.mem_singleton.mp hm
  | ret cb hacc hcl hs _ hst hl =>
    rw [hacc, hcl]
    show Called (acc ++ []) (ran ++ []) s'
    rw [List.append_nil, List.append_nil]
    refine ⟨?_, fun m t hm => hc.under m t (hst ▸ List.suffix_cons_iff.mpr (.inr hm)), fun m hm => ?_⟩
    · rw [hl]
      exact hp.snoc (fun n h => by cases h) (fun n h => by cases h) (fun n c h => by cases h) (fun n h => by cases h)
        fun n c h => by cases h
    · rw [hl] at hm
      rcases List.mem_append.mp hm with hm | hm
      · obtain ⟨h1, h2⟩ := hc.gone m hm
        refine ⟨h1, .inl (hs ▸ h2.resolve_right fun h => ?_)⟩
        rw [hst] at h; cases h
      · cases List.mem_singleton.mp hm
        have hr := hc.under m s'.stack (by rw [hst])
        have hrem : Frame.remove m ∈ s.stack := by rw [hst, hr]; simp
        exact ⟨ha.removing m hrem, .inr hr⟩
  | quiet hacc hcl hs _ hst' hl =>
    rw [hacc]
    show Called (acc ++ []) _ s'
    rw [List.append_nil]
    -- the client whose close callback runs here never was a connection
    have hl' : ∀ n ∈ e.closed?.toList, n ∉ acc := fun n hn hm => by
      obtain ⟨h1, h2⟩ := hcl n (by simpa using hn)
      refine h1 (ha.mem.mpr ⟨hm, .inl fun hr => ?_⟩)
      rw [ha.closed n hr] at h2; cases h2
    refine ⟨⟨hl ▸ hp.opened, fun n => ?_, hl ▸ hp.first, hl ▸ hp.noRead, hl ▸ hp.last⟩, fun m t hm => ?_, fun m hm => ?_⟩
    · rw [hl, hp.closed n]
      have : n ∈ acc → (n ∈ ran ++ e.closed?.toList ↔ n ∈ ran) := fun hm => by
        rw [List.mem_append]
        exact ⟨fun h => h.resolve_right fun h => hl' n h hm, .inl⟩
      by_cases hm : n ∈ acc
      · simp only [hm, true_and, this hm]
      · simp only [hm, false_and]
    · refine hc.under m t ?_
      rcases hst' with he | ⟨f, hf, -⟩
      · rw [← he]; exact hm
      · rw [hf]; exact List.suffix_cons_iff.mpr (.inr hm)
    · obtain ⟨h1, h2⟩ := hc.gone m (hl ▸ hm)
      refine ⟨List.mem_append_left _ h1, ?_⟩
      rcases h2 with h2 | h2
      · exact .inl (hs ▸ h2)
      · rcases hst' with he | ⟨f, hf, hne, -⟩
        · exact .inr (he.trans h2)
        · rw [h2] at hf; exact absurd (List.cons.inj hf).1.symm (hne m)

end UvWrapper.Net.ServerLife
