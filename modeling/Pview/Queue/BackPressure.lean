import Mathlib.Data.Fintype.Card
import Pview.Queue.Wakeup

/-!
# Back-pressure

`add_stmts` pushes first and waits afterwards, so the queue may pass
`kTooManyInfoWaitThreshold`, but only by what the suspended producers have
pushed.
-/

namespace Pview.Queue

open Pview.Foundation
open Pview.Foundation.CondVar

variable {P C : Type} [Fintype P] [DecidableEq P] [Fintype C] [DecidableEq C]

/-- Producer `p` is in `add_stmts` before this step, or calls it in this step,
and is out of it afterwards. -/
def IndexQueue.Returns (s : IndexQueue P C) (p : P) (a : Action P C)
    (s' : IndexQueue P C) : Prop :=
  ((s.producers p).Suspended ∨ ∃ input wake, a = .addStmts p input wake) ∧
    s'.producers p = .running

private theorem length_lt_of_addStmts {s s' : IndexQueue P C} {p : P}
    {input : Batch} {wake : Option C} (h : s.addStmts p input wake = some s')
    (hstop : s.stop = false) (hrunning : s'.producers p = .running) :
    s'.stmts.length < kTooManyInfoWaitThreshold := by
  simp only [IndexQueue.addStmts, Option.ite_none_right_eq_some,
    Option.map_eq_some_iff] at h
  obtain ⟨-, consumers, -, rfl⟩ := h
  by_contra hmany
  rw [Nat.not_lt] at hmany
  split at hmany
  · rename_i hfull
    rw [if_pos hfull] at hrunning
    simp only [List.length_append, List.length_singleton] at hfull
    simp [IndexQueue.afterCheck, IndexQueue.producerBreakCond, hstop,
      hfull] at hrunning
  · contradiction

private theorem length_lt_of_resumes {s s' : IndexQueue P C} {p : P}
    {a : Action P C} (h : s.Effect a s') (hstop : s.stop = false)
    (hsuspended : (s.producers p).Suspended)
    (hrunning : s'.producers p = .running) :
    s'.stmts.length < kTooManyInfoWaitThreshold := by
  have hnot : s.producers p ≠ .running := by
    intro heq
    simp [heq, Phase.Suspended] at hsuspended
  cases h with
  | push q input wake consumers phase free was =>
      rcases update_eq_cases hrunning with ⟨rfl, -⟩ | heq
      · contradiction
      · contradiction
  | pop c wake res rest producers phase free was head woken =>
      have heq : producers p = .running ↔ s.producers p = .running :=
        (notifyProducers_woken woken).eq_iff (by simp) (by simp) p
      exact absurd (heq.mp hrunning) hnot
  | producer a q phase move =>
      rcases update_eq_cases hrunning with ⟨rfl, hphase⟩ | heq
      · cases move with
        | returns free was breaks =>
            simpa [IndexQueue.producerBreakCond, hstop] using breaks
        | checks => contradiction
        | blocks => contradiction
        | wakes => contradiction
        | leaves => contradiction
      · contradiction
  | notifyStop =>
      have heq : notifyAll s.producers p = .running ↔
          s.producers p = .running :=
        (Woken.of_notifyAll s.producers).eq_iff (by simp) (by simp) p
      exact absurd (heq.mp hrunning) hnot
  | _ => contradiction

theorem IndexQueue.length_lt_of_returns {s s' : IndexQueue P C} {p : P}
    {a : Action P C} (h : s.step a = some s') (hstop : s.stop = false)
    (hreturns : s.Returns p a s') :
    s'.stmts.length < kTooManyInfoWaitThreshold := by
  obtain ⟨hsuspended | ⟨input, wake, rfl⟩, hrunning⟩ := hreturns
  · exact length_lt_of_resumes (effect_of_step h) hstop hsuspended hrunning
  · exact length_lt_of_addStmts h hstop hrunning

/-- Each batch from the threshold on belongs to a suspended producer. -/
def IndexQueue.Bounded (s : IndexQueue P C) : Prop :=
  s.stop = false → s.stmts.length <
    kTooManyInfoWaitThreshold + (suspended s.producers).card

theorem IndexQueue.Bounded.step {s s' : IndexQueue P C} {a : Action P C}
    (hs : s.Bounded) (h : s.step a = some s') : s'.Bounded := by
  intro hstop'
  have heffect := effect_of_step h
  cases heffect with
  | push p input wake consumers phase free was woken becomes =>
      have hlength := hs hstop'
      by_cases hphase : phase = .running
      · have hbelow := length_lt_of_returns h hstop'
          ⟨.inr ⟨input, wake, rfl⟩, by simpa using hphase⟩
        exact Nat.lt_add_right _ hbelow
      · have hblocking : phase = .blocking := by grind
        have hp : p ∉ suspended s.producers := by
          simp [was, Phase.Suspended]
        rw [suspended_update (by simp [hblocking, Phase.Suspended]),
          Finset.card_insert_of_notMem hp]
        simp only [List.length_append, List.length_singleton]
        omega
  | pop c wake res rest producers phase free was head woken =>
      have hlength := hs hstop'
      rw [head, List.length_cons] at hlength
      rw [(notifyProducers_woken woken).suspended_eq]
      exact Nat.lt_of_succ_lt hlength
  | producer a p phase move =>
      have hlength := hs hstop'
      by_cases hreturns : (s.producers p).Suspended ∧ phase = .running
      · have hbelow := length_lt_of_returns (p := p) h hstop'
          ⟨.inl hreturns.1, by simpa using hreturns.2⟩
        exact Nat.lt_add_right _ hbelow
      · have hle : (suspended s.producers).card ≤
            (suspended (Function.update s.producers p phase)).card := by
          cases move with
          | returns free was => simp [was, Phase.Suspended] at hreturns
          | leaves was =>
              rw [suspended_update_of_not (by simp [was, Phase.Suspended])
                (by simp [Phase.Suspended])]
          | _ =>
              rw [suspended_update (by simp [Phase.Suspended])]
              exact Finset.card_le_card (Finset.subset_insert _ _)
        exact Nat.lt_of_lt_of_le hlength (Nat.add_le_add_left hle _)
  | notifyStop =>
      rw [(Woken.of_notifyAll _).suspended_eq]
      exact hs hstop'
  | nullptr => exact hs hstop'
  | consumer => exact hs hstop'
  | storeStop => contradiction

theorem IndexQueue.Bounded.of_reachable {s : IndexQueue P C}
    (h : (queueSystem P C).Reachable s) : s.Bounded :=
  System.ReachWhere.invariant (I := IndexQueue.Bounded)
    (by simp [Bounded, queueSystem, empty, kTooManyInfoWaitThreshold])
    (fun hs _ => hs.step) h

/-- As long as the queue is not stopped, it exceeds the threshold by less than
the number of producers, and `add_stmts` returns below the threshold. -/
theorem queue_bounded {s : IndexQueue P C}
    (h : (queueSystem P C).Reachable s) (hstop : s.stop = false) :
    s.stmts.length ≤ kTooManyInfoWaitThreshold - 1 + Fintype.card P ∧
    ∀ p a s', s.step a = some s' → s.Returns p a s' →
      s'.stmts.length < kTooManyInfoWaitThreshold := by
  constructor
  · have hbounded := IndexQueue.Bounded.of_reachable h hstop
    have hcard := Finset.card_le_univ (suspended s.producers)
    unfold kTooManyInfoWaitThreshold at hbounded ⊢
    omega
  · intro p a s' hstep hreturns
    exact IndexQueue.length_lt_of_returns hstep hstop hreturns

theorem queue_bounded_one_batch : ∃ s : IndexQueue Unit Unit,
    s.stmts = [["a"]] ∧
    s.stmts.length ≤ kTooManyInfoWaitThreshold - 1 + Fintype.card Unit := by
  have hstmts : ((queueSystem Unit Unit).run .empty
      [.addStmts () ["a"] none]).map (fun s => (s.stmts, s.stop)) =
      some ([["a"]], false) := by decide
  obtain ⟨s, hrun, hqueued⟩ := Option.map_eq_some_iff.mp hstmts
  simp only [Prod.mk.injEq] at hqueued
  have hreach := System.Reachable.of_run hrun
  exact ⟨s, hqueued.1, (queue_bounded hreach hqueued.2).1⟩

end Pview.Queue
