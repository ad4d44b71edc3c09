/-
  UvWrapper.Lib.WaitGraph — agents that wait for each other along a relation.

  - `wf_of_acyclic`: on finitely many agents, a relation without a cycle is well-founded.
  - `exists_free`: where waits go along such a relation, behind every agent that waits is one
    that waits for somebody who does not.
  - `closed_of_cycle`: from a cycle, agents of whom each has one to wait for among them.
  - `sum_update`: a sum over the agents, when one summand changes.
-/

import Mathlib.Algebra.BigOperators.Group.Finset.Piecewise
import Mathlib.Data.Fintype.EquivFin
import Mathlib.Logic.Relation

namespace UvWrapper.Lib.WaitGraph

open Relation

variable {ι : Type} {r : ι → ι → Prop}

theorem wf_of_acyclic [Finite ι] (h : ∀ i, ¬ TransGen r i i) : WellFounded (flip r) := by
  have hirr : Std.Irrefl (TransGen (flip r)) := ⟨fun i hi => h i (transGen_swap.mp hi)⟩
  have htrans : IsTrans ι (TransGen (flip r)) := ⟨fun _ _ _ => TransGen.trans⟩
  exact Subrelation.wf (fun h => TransGen.single h) (Finite.wellFounded_of_trans_of_irrefl (TransGen (flip r)))

/-- Along the waits, to their end. -/
theorem exists_free (hwf : WellFounded (flip r)) {waits : ι → Option ι} (hr : ∀ i j, waits i = some j → r i j) {i j : ι}
    (hi : waits i = some j) : ∃ k l, waits k = some l ∧ waits l = none := by
  induction i using hwf.induction generalizing j with
  | _ i ih =>
    cases hj : waits j with
    | none => exact ⟨i, j, hi, hj⟩
    | some k => exact ih j (hr i j hi) hj

theorem closed_of_cycle {i : ι} (h : TransGen r i i) : ∃ S : Set ι, i ∈ S ∧ ∀ x ∈ S, ∃ y ∈ S, r x y := by
  refine ⟨{x | TransGen r x x}, h, fun x hx => ?_⟩
  obtain ⟨y, hy, hyx⟩ := TransGen.head'_iff.mp hx
  exact ⟨y, TransGen.tail' hyx hy, hy⟩

theorem sum_update [Fintype ι] [DecidableEq ι] (f : ι → Nat) (i : ι) (b : Nat) :
    ∑ x, Function.update f i b x + f i = ∑ x, f x + b := by
  rw [Finset.sum_update_of_mem (Finset.mem_univ i), ← Finset.add_sum_erase _ f (Finset.mem_univ i),
    ← Finset.sdiff_singleton_eq_erase]
  omega

end UvWrapper.Lib.WaitGraph
