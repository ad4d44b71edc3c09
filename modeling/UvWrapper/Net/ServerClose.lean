/-
  UvWrapper.Net.ServerClose — what tcp_server_close promises: the server is freed once,
  after its handles are on their way and its sessions are gone, and nobody reads it
  afterwards.

  Proved: a run keeps this in every state if and only if no on_close_connection removes
  the last session between is_closing and close_handle (`released_iff`). A disconnect of the last
  client there frees the server under the closing thread (`freed_too_early`).
-/

import UvWrapper.Net.ServerLifeProofs

namespace UvWrapper.Net.ServerLife

open UvWrapper.Lib UvWrapper.Lib.Trace

/-- The close is through, and the loop has nothing left to call back. -/
structure Drained (s : St) : Prop where
  closer : s.closer = .done
  pending : s.closePending = false
  stack : s.stack = []
  clients : ∀ n, (s.client n).st ≠ .closing

structure Released (s : St) : Prop where
  once : s.frees ≤ 1
  after : 0 < s.frees → s.listen.isClosing = true ∧ s.asyncSend.isClosing = true ∧ s.asyncClose.isClosing = true ∧
    s.sessions = []
  uaf : s.uaf = false
  freed : Drained s → s.frees = 1

variable {s s' : St}

theorem Inv.down (hi : Inv s) (h : 0 < s.frees ∨ Drained s) : Down s := by
  have hp := hi.phase
  have hup : Up s → Down s := fun hu => by
    rcases h with h | h
    · have := hu.frees; omega
    · rw [h.closer] at hp
      rcases hp.2 with ⟨-, hpend⟩ | ⟨hd, -⟩
      · rw [h.pending] at hpend; cases hpend
      · exact hd
  cases hc : s.closer <;> rw [hc] at hp
  · exact hup hp.1
  · exact hup hp.1
  · exact hup hp.1
  · rcases hp.2 with ⟨hu, -⟩ | ⟨hd, -⟩
    · exact hup hu
    · exact hd

theorem Inv.released (hi : Inv s) : Released s := by
  have hfree : Down s → s.frees ≤ 1 := fun hd => by rw [hd.frees]; split <;> omega
  refine ⟨?_, fun h => ?_, hi.uaf, fun hd => ?_⟩
  · by_cases h : 0 < s.frees
    · exact hfree (hi.down (.inl h))
    · omega
  · have hd := hi.down (.inl h)
    refine ⟨hd.listen, hd.asyncSend, hd.asyncClose, ?_⟩
    by_contra hne
    rw [hd.frees, if_neg hne] at h
    omega
  · -- every session is closing, so its close callback is still to come or under way
    have hdn := hi.down (.inr hd)
    rw [hdn.frees, if_pos]
    rw [List.eq_nil_iff_forall_not_mem]
    intro n hn
    have hc := hdn.clients n hn
    have hcl : (s.client n).st = .closed := by
      cases hs : (s.client n).st with
      | closing => exact absurd hs (hd.clients n)
      | closed => rfl
      | _ => simp [Handle.isClosing, hs] at hc
    have := hi.closed n hn hcl
    rw [hd.stack] at this
    cases this

theorem not_orderly_breaks (hi : Inv s) {e : Ev} (hg : orderly s e = false) (h : step s e = some s') :
    ¬ Released s' := by
  intro hr
  cases e with
  | goOn =>
    unfold step at h
    rw [if_neg (by simp [hi.uaf])] at h
    simp only [orderly] at hg
    split at hg
    · rename_i n r hst
      have hn := hi.frames (.remove n) (by rw [hst]; exact List.mem_cons_self) n rfl
      obtain ⟨hc, ho, he⟩ : s.isClosing = true ∧ s.listen.st = .opened ∧ s.sessions.erase n = [] := by
        simpa only [Bool.not_eq_false', Bool.and_eq_true, beq_iff_eq, List.isEmpty_iff, and_assoc] using hg
      simp only [goOn, hst, hi.reads_conn hn, Option.some.injEq] at h
      have hfree : 0 < s'.frees := by
        rw [← h]
        show 0 < (remove s n).frees
        unfold remove
        simp only
        rw [if_pos ⟨hc, he⟩]
        exact Nat.succ_pos _
      have hlisten : s'.listen = s.listen := by
        rw [← h]
        show (remove s n).listen = s.listen
        unfold remove
        simp only
        rw [if_pos ⟨hc, he⟩]
      have := (hr.after hfree).1
      rw [hlisten, Handle.not_closing_of_opened ho] at this
      cases this
    · cases hg
  | _ => cases hg

theorem released_iff (es : List Ev) :
    Always step Released init es ↔ Steps step (fun s e => orderly s e = true) init es :=
  always_iff (fun _ hr => (reach_inv hr).released)
    (fun _ _ _ hr h hg => not_orderly_breaks (reach_inv hr) (by simpa using hg) h) es

/-- The only client disconnects when the closing thread has set is_closing and no more. -/
def earlyRun : List Ev :=
  [.newConnection (.client 1 true), .ret, .goOn, .closer, .read 1 (-4095), .ret, .goOn, .closed 1, .ret, .goOn]

theorem freed_too_early : ∃ s, Reach step Free init s ∧ ¬ Released s := by
  obtain ⟨s, hr, hf, hl⟩ := reach_of_run step init
    (fun s => s.frees = 1 ∧ s.listen.isClosing = false) earlyRun ⟨_, rfl, by decide⟩
  refine ⟨s, hr, fun h => ?_⟩
  have := (h.after (by omega)).1
  rw [hl] at this; cases this

/-- The closing thread goes on with the freed server. -/
example : ∃ s, run step init (earlyRun ++ [.closer]) = some s ∧ s.uaf = true := ⟨_, rfl, by decide⟩

end UvWrapper.Net.ServerLife
