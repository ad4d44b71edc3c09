/-
  UvWrapper.Net.ServerSend — tcp_server_send_data from the loop thread and from other
  threads, any number of connections, completions of any order.

  Proved: with all connections open and every uv_write accepted, as long as no step
  overwrites a slot that another call still needs (`SendPath.apart`) and no loop-thread call
  clears a flag that is waited on (`SendPath.flagKept`), a call submits at most once and
  then its own data on its own connection, it has done so when it returns, an off-thread
  call returns only after the completion of its own write, the semaphore is 0 whenever the
  mutex is free, and no call is ever stuck (`mixed_sends_own`). The echo and the broadcast
  of the samples on one connection break it (`echo_breaks_broadcast`).
-/

import UvWrapper.Net.SendPathPost

namespace UvWrapper.Net.ServerSend

open UvWrapper.Lib.Trace UvWrapper.Net.SendPath

/-- A server's send path: `uv_write` has no destination, and `on_conn_write` makes no
    user callback. -/
def tcpServer (threadId : Nat) (calls : Nat → Call Unit) : Cfg Unit := ⟨threadId, calls, false⟩

structure SendsOwn (cfg : Cfg Unit) (s : St Unit) : Prop where
  own : ∀ k, submitsOf s k = [] ∨ submitsOf s k = [cfg.asked k]
  once : ∀ k, returned s k → cfg.null k = true ∨ Failed s k ∨ submitsOf s k = [cfg.asked k]
  after : ∀ k, s.h.pc k = .ret → cfg.null k = true ∨ Failed s k ∨ Completed s k
  idle : s.h.mutex = none → s.h.sem = 0
  goesOn : ∀ k, running s k → ∃ e : Ev, e.goesOn = true ∧ (step cfg s e).isSome = true

/-! ## The echo and the broadcast -/

/-- Call 0 is the broadcast thread's, call 1 the loop thread's echo, both on connection 1. -/
def echoCalls (k : Nat) : Call Unit := if k = 0 then ⟨2, 1, 100, 5, ()⟩ else ⟨1, 1, 200, 7, ()⟩

def echoRun : List Ev :=
  [.call 0, .caller 0, .caller 0, .caller 0, .caller 0, .caller 0, .callback, .call 1, .loop true true,
    .loop true true, .loop true true, .ret, .asyncSend, .loop true true]

/-- The write submitted for the broadcast reads the echo's buffer, which is gone. -/
theorem echo_breaks_broadcast :
    ∃ s, Reach (step (tcpServer 1 echoCalls)) (fun s e => acceptedStep s e = true) (init ()) s ∧
      ¬ SendsOwn (tcpServer 1 echoCalls) s := by
  obtain ⟨s, hr, h⟩ := reach_of_runIf (step (tcpServer 1 echoCalls)) acceptedStep (init ())
    (fun s => submitsOf s 0 = [⟨0, 1, none, ()⟩]) echoRun ⟨_, rfl, by decide⟩
  refine ⟨s, hr, fun hs => ?_⟩
  have := hs.own 0
  rw [h] at this
  exact absurd this (by decide)

/-! ## Calls that keep apart -/

theorem mixed_sends_own (threadId : Nat) (calls : Nat → Call Unit) (hsize : ∀ k, (calls k).size < 2 ^ 32) {s : St Unit}
    (hr : Reach (step (tcpServer threadId calls))
      (fun s e => (acceptedStep s e && apart (tcpServer threadId calls) s e &&
        flagKept (tcpServer threadId calls) s e) = true) (init ()) s) :
    SendsOwn (tcpServer threadId calls) s := by
  obtain ⟨hi, hf⟩ := reach_flagged (fun s e h => by
    simp only [Bool.and_eq_true] at h
    exact ⟨h.1.2, h.2, h.1.1⟩) hr
  have hown : ∀ k, (tcpServer threadId calls).own k = (tcpServer threadId calls).asked k := fun k =>
    Cfg.own_eq_asked (hsize k)
  refine ⟨fun k => ?_, fun k hk => ?_, fun k hk => hi.ret_completed hk, fun hm => (hi.hand.sem_idle hm).1,
    fun k hk => goes_on hi hf hk⟩
  · rw [← hown]; exact hi.submitsOf_cases k
  · rw [← hown]; exact hi.ret_submitted hk

/-- The broadcast's write completes before the echo. -/
theorem echo_after_broadcast :
    ∃ s, Reach (step (tcpServer 1 echoCalls)) (fun s e => (acceptedStep s e && apart (tcpServer 1 echoCalls) s e &&
        flagKept (tcpServer 1 echoCalls) s e) = true) (init ()) s ∧
      (s.h.pc 0 = .ret ∧ s.loop 1 = .ret ∧
        s.submits = [(tcpServer 1 echoCalls).asked 0, (tcpServer 1 echoCalls).asked 1]) ∧
      SendsOwn (tcpServer 1 echoCalls) s := by
  obtain ⟨s, hr, h⟩ := reach_of_runIf (step (tcpServer 1 echoCalls))
    (fun s e => acceptedStep s e && apart (tcpServer 1 echoCalls) s e && flagKept (tcpServer 1 echoCalls) s e) (init ())
    (fun s => s.h.pc 0 = .ret ∧ s.loop 1 = .ret ∧
      s.submits = [(tcpServer 1 echoCalls).asked 0, (tcpServer 1 echoCalls).asked 1])
    ([.call 0, .caller 0, .caller 0, .caller 0, .caller 0, .caller 0, .asyncSend, .loop true true, .written 0,
      .caller 0, .caller 0, .callback, .call 1, .loop true true, .loop true true, .loop true true, .ret, .written 0])
    ⟨_, rfl, by decide⟩
  refine ⟨s, hr, h, mixed_sends_own 1 echoCalls (fun k => ?_) hr⟩
  unfold echoCalls
  split <;> decide

end UvWrapper.Net.ServerSend
