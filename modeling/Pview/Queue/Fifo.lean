import Mathlib.Data.List.ReduceOption
import Pview.Queue.IndexQueue

/-!
# First in, first out

Nothing is lost, duplicated or reordered between `add_stmts` and `get_stmts`,
`num_stmts_` counts the queued statements, and `nullptr` is returned only by a
stopped, empty queue.
-/

namespace Pview.Queue

open Pview.Foundation
open Pview.Foundation.CondVar

variable {P C : Type} [Fintype P] [DecidableEq P] [Fintype C] [DecidableEq C]

structure IndexQueue.Fifo (s : IndexQueue P C) : Prop where
  order : s.returned.reduceOption ++ s.stmts = s.added
  count : s.numStmts = (s.stmts.map List.length).sum

private theorem fetchSub_add (value subtrahend : Nat) :
    fetchSub (subtrahend + value) subtrahend = value := by
  unfold fetchSub
  rw [if_pos (Nat.le_add_right _ _), Nat.add_sub_cancel_left]

theorem IndexQueue.Fifo.step {s s' : IndexQueue P C} {a : Action P C}
    (hs : s.Fifo) (h : s.step a = some s') : s'.Fifo := by
  have horder := hs.order
  have hcount := hs.count
  cases effect_of_step h with
  | push p input =>
      constructor
      · simp [← horder]
      · simp [hcount]
  | nullptr c wake free was drained stop =>
      constructor
      · simpa [List.reduceOption_append] using horder
      · simpa using hcount
  | pop c wake res rest producers phase free was head =>
      rw [head] at horder hcount
      constructor
      · simp [← horder, List.reduceOption_append]
      · simp [hcount, fetchSub_add]
  | producer => exact ⟨horder, hcount⟩
  | consumer => exact ⟨horder, hcount⟩
  | storeStop => exact ⟨horder, hcount⟩
  | notifyStop => exact ⟨horder, hcount⟩

theorem IndexQueue.Fifo.of_reachable {s : IndexQueue P C}
    (h : (queueSystem P C).Reachable s) : s.Fifo :=
  System.ReachWhere.invariant (I := IndexQueue.Fifo)
    ⟨by simp [queueSystem, empty], by simp [queueSystem, empty]⟩
    (fun hs _ => hs.step) h

/-! ## What a step adds to the history -/

theorem IndexQueue.added_of_step {s s' : IndexQueue P C} {a : Action P C}
    (h : s.step a = some s') :
    s'.added = s.added ∨ ∃ p input wake, a = .addStmts p input wake ∧
      s'.added = s.added ++ [input] := by
  cases effect_of_step h with
  | push p input wake => exact .inr ⟨p, input, wake, rfl, rfl⟩
  | _ => exact .inl rfl

theorem IndexQueue.returned_of_step {s s' : IndexQueue P C} {a : Action P C}
    (h : s.step a = some s') :
    s'.returned = s.returned ∨ ∃ c wake res, a = .getStmts c wake ∧
      s'.returned = s.returned ++ [res] := by
  cases effect_of_step h with
  | nullptr c wake => exact .inr ⟨c, wake, none, rfl, rfl⟩
  | pop c wake res => exact .inr ⟨c, wake, some res, rfl, rfl⟩
  | _ => exact .inl rfl

theorem IndexQueue.stop_of_step {s s' : IndexQueue P C} {a : Action P C}
    (h : s.step a = some s') : s'.stop = s.stop ∨ a = .storeStop := by
  cases effect_of_step h with
  | storeStop => exact .inr rfl
  | _ => exact .inl rfl

theorem IndexQueue.added_eq_of_step {s s' : IndexQueue P C} {a : Action P C}
    (ha : ∀ p input wake, a ≠ .addStmts p input wake)
    (h : s.step a = some s') : s'.added = s.added := by
  rcases IndexQueue.added_of_step h with hsame | ⟨p, input, wake, hact, -⟩
  · exact hsame
  · exact absurd hact (ha p input wake)

theorem IndexQueue.returned_eq_of_step {s s' : IndexQueue P C}
    {a : Action P C} (ha : ∀ c wake, a ≠ .getStmts c wake)
    (h : s.step a = some s') : s'.returned = s.returned := by
  rcases IndexQueue.returned_of_step h with hsame | ⟨c, wake, res, hact, -⟩
  · exact hsame
  · exact absurd hact (ha c wake)

theorem IndexQueue.stop_of_nullptr {s s' : IndexQueue P C}
    {a : Action P C} (h : s.step a = some s')
    (hnull : s'.returned = s.returned ++ [none]) :
    s.stop = true ∧ s.stmts = [] := by
  cases effect_of_step h with
  | nullptr c wake free was drained stop => exact ⟨stop, drained⟩
  | push => simp at hnull
  | pop => simp at hnull
  | producer => simp at hnull
  | consumer => simp at hnull
  | storeStop => simp at hnull
  | notifyStop => simp at hnull

def NothingAddedAfterStop (s : IndexQueue P C) (a : Action P C) : Prop :=
  s.stop = true → ∀ p input wake, a ≠ .addStmts p input wake

/-- After the first `nullptr` the queue is stopped and stays empty. -/
def IndexQueue.Drained (s : IndexQueue P C) : Prop :=
  none ∈ s.returned → s.stop = true ∧ s.stmts = []

theorem IndexQueue.Drained.step {s s' : IndexQueue P C} {a : Action P C}
    (hs : s.Drained) (hadd : NothingAddedAfterStop s a)
    (h : s.step a = some s') : s'.Drained := by
  cases effect_of_step h with
  | push p input wake =>
      intro hnull
      exact absurd rfl (hadd (hs hnull).1 p input wake)
  | nullptr c wake free was drained stop => exact fun _ => ⟨stop, drained⟩
  | pop c wake res rest producers phase free was head =>
      intro hnull
      simp only [List.mem_append, List.mem_singleton, reduceCtorEq,
        or_false] at hnull
      have hempty := (hs hnull).2
      rw [head] at hempty
      contradiction
  | producer => exact hs
  | consumer => exact hs
  | storeStop => exact fun hnull => ⟨rfl, (hs hnull).2⟩
  | notifyStop => exact hs

theorem IndexQueue.Drained.of_reachWhere {s : IndexQueue P C}
    (h : (queueSystem P C).ReachWhere NothingAddedAfterStop s) :
    s.Drained :=
  System.ReachWhere.invariant (I := IndexQueue.Drained)
    (by simp [Drained, queueSystem, empty])
    (fun hs hadd => hs.step hadd) h

/-- What `get_stmts` has handed out and what is still queued is what
`add_stmts` was given. -/
theorem queue_fifo {s : IndexQueue P C} (h : (queueSystem P C).Reachable s) :
    s.returned.reduceOption ++ s.stmts = s.added ∧
    s.numStmts = (s.stmts.map List.length).sum ∧
    (∀ res rest, s.stmts = res :: rest → res.length ≤ s.numStmts) ∧
    (∀ a s', s.step a = some s' → s'.returned = s.returned ++ [none] →
      s.stop = true ∧ s.stmts = []) ∧
    ((queueSystem P C).ReachWhere NothingAddedAfterStop s →
      none ∈ s.returned → s.returned.reduceOption = s.added) := by
  have hfifo := IndexQueue.Fifo.of_reachable h
  refine ⟨hfifo.order, hfifo.count, ?_, ?_, ?_⟩
  · intro res rest hstmts
    rw [hfifo.count, hstmts]
    simp
  · intro a s' hstep hnull
    exact IndexQueue.stop_of_nullptr hstep hnull
  · intro hadd hnull
    have hempty := (IndexQueue.Drained.of_reachWhere hadd hnull).2
    rw [← hfifo.order, hempty, List.append_nil]

theorem queue_fifo_one_taken : ∃ s : IndexQueue Unit Unit,
    (queueSystem Unit Unit).Reachable s ∧ s.stmts = [["b"]] ∧
      s.returned.reduceOption ++ s.stmts = s.added := by
  let schedule : List (Action Unit Unit) :=
    [.addStmts () ["a", "a"] none, .addStmts () ["b"] none, .getStmts () none]
  have hstmts : ((queueSystem Unit Unit).run .empty schedule).map
      (fun s => s.stmts) = some [["b"]] := by decide
  obtain ⟨s, hrun, hqueued⟩ := Option.map_eq_some_iff.mp hstmts
  have hreach := System.Reachable.of_run hrun
  exact ⟨s, hreach, hqueued, (queue_fifo hreach).1⟩

end Pview.Queue
