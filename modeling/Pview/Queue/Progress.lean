import Pview.Foundation.Termination
import Pview.Queue.Wakeup

/-!
# What a call on the queue comes to

The calls one by one, each with everything that it changes: what a run is made
of when its steps are counted.  A thread that waits comes to rest unless the
queue changes or it is woken for no reason.
-/

namespace Pview.Queue

open Pview.Foundation
open Pview.Foundation.CondVar

variable {P C : Type} [Fintype P] [DecidableEq P] [Fintype C] [DecidableEq C]

namespace IndexQueue

variable {s s' : IndexQueue P C}

theorem of_addStmts {p : P} {input : Batch} {wake : Option C}
    (h : s.step (.addStmts p input wake) = some s') :
    s.producers p = .running ∧ ∃ consumers phase,
      notifyOne s.consumers wake = some consumers ∧
      (phase = .running ∨ phase = .blocking) ∧
      s' = { s with
        stmts := s.stmts ++ [input]
        numStmts := s.numStmts + input.length
        producers := Function.update s.producers p phase
        consumers := consumers
        added := s.added ++ [input] } := by
  simp only [step, addStmts, Option.ite_none_right_eq_some,
    Option.map_eq_some_iff] at h
  obtain ⟨⟨-, hrunning⟩, consumers, hwoken, rfl⟩ := h
  refine ⟨hrunning, consumers, ?_⟩
  split
  · refine ⟨_, hwoken, ?_, rfl⟩
    unfold afterCheck
    split
    · exact .inl rfl
    · exact .inr rfl
  · refine ⟨.running, hwoken, .inl rfl, ?_⟩
    rw [← hrunning, Function.update_eq_self]

inductive Gets (s : IndexQueue P C) (c : C) : IndexQueue P C → Prop
  | nullptr (drained : s.stmts = []) (stop : s.stop = true) :
      Gets s c { s with
        consumers := Function.update s.consumers c .finished
        returned := s.returned ++ [none] }
  | pop (res : Batch) (rest : List Batch) (numStmts lowerTimes : Nat)
      (producers : P → Phase) (head : s.stmts = res :: rest)
      (woken : Woken s.producers producers) :
      Gets s c { s with
        stmts := rest
        numStmts := numStmts
        lowerTimes := lowerTimes
        producers := producers
        consumers := Function.update s.consumers c
          (if res.isEmpty then .finished else .running)
        returned := s.returned ++ [some res] }
  | waits (breaks : s.consumerBreakCond = false) :
      Gets s c { s with
        consumers := Function.update s.consumers c .blocking }

theorem of_getStmts {c : C} {wake : Option P}
    (h : s.step (.getStmts c wake) = some s') :
    (s.consumers c = .running ∨ s.consumers c = .notified) ∧ s.Gets c s' := by
  simp only [step, getStmts, Option.ite_none_right_eq_some] at h
  obtain ⟨⟨-, hfrom⟩, h⟩ := h
  refine ⟨hfrom, ?_⟩
  cases hbreak : s.consumerBreakCond with
  | false =>
      rw [hbreak, if_neg (by simp)] at h
      cases h
      exact .waits hbreak
  | true =>
      rw [hbreak, if_pos rfl] at h
      cases hstmts : s.stmts with
      | nil =>
          simp only [hstmts] at h
          cases h
          have hstop : s.stop = true := by
            simpa [consumerBreakCond, hstmts] using hbreak
          simpa [hstmts] using Gets.nullptr (c := c) hstmts hstop
      | cons res rest =>
          simp only [hstmts, Option.map_eq_some_iff] at h
          obtain ⟨producers, hwoken, rfl⟩ := h
          exact .pop res rest _ _ producers hstmts
            (notifyProducers_woken hwoken)

/-! ## A free mutex -/

omit [Fintype C] [DecidableEq C] in
theorem exists_notifyProducers (s : IndexQueue P C) (size : Nat) :
    ∃ wake producers, s.notifyProducers size wake = some producers := by
  obtain ⟨wake, producers, hwoken⟩ := exists_notifyOne s.producers
  unfold notifyProducers
  split_ifs
  · exact ⟨none, _, rfl⟩
  · exact ⟨wake, producers, hwoken⟩
  · exact ⟨none, _, rfl⟩

theorem exists_addStmts {p : P} (free : s.MutexFree)
    (hrunning : s.producers p = .running) (input : Batch) :
    ∃ wake s', s.step (.addStmts p input wake) = some s' := by
  obtain ⟨wake, consumers, hwoken⟩ := exists_notifyOne s.consumers
  refine ⟨wake, ?_⟩
  simp [step, addStmts, free, hrunning, hwoken]

theorem exists_getStmts {c : C} (free : s.MutexFree)
    (hfrom : s.consumers c = .running ∨ s.consumers c = .notified) :
    ∃ wake s', s.step (.getStmts c wake) = some s' := by
  simp only [step, getStmts, if_pos (And.intro free hfrom)]
  cases hbreak : s.consumerBreakCond with
  | false => exact ⟨none, _, rfl⟩
  | true =>
      cases hstmts : s.stmts with
      | nil => exact ⟨none, _, rfl⟩
      | cons res rest =>
          obtain ⟨wake, producers, hwoken⟩ :=
            s.exists_notifyProducers rest.length
          refine ⟨wake, ?_⟩
          simp [hwoken]

omit [Fintype P] [DecidableEq P] [Fintype C] [DecidableEq C] in
theorem exists_block (hheld : ¬s.MutexFree) :
    (∃ p, s.producers p = .blocking) ∨ ∃ c, s.consumers c = .blocking := by
  unfold MutexFree at hheld
  simpa only [not_and_or, not_forall, not_not] using hheld

end IndexQueue

/-! ## Waiting threads -/

namespace IndexQueue

omit [DecidableEq P] [DecidableEq C] in
def phaseWork (s : IndexQueue P C) : Nat :=
  total phaseWeight s.producers + total phaseWeight s.consumers

variable {s s' : IndexQueue P C}

omit [DecidableEq C] in
theorem phaseWork_producer {p : P} {phase : Phase}
    (hlt : phaseWeight phase < phaseWeight (s.producers p)) :
    phaseWork { s with producers := Function.update s.producers p phase } <
      s.phaseWork := by
  have hupdate := total_update phaseWeight s.producers p phase
  unfold phaseWork
  dsimp only
  omega

omit [DecidableEq P] in
theorem phaseWork_consumer {c : C} {phase : Phase}
    (hlt : phaseWeight phase < phaseWeight (s.consumers c)) :
    phaseWork { s with consumers := Function.update s.consumers c phase } <
      s.phaseWork := by
  have hupdate := total_update phaseWeight s.consumers c phase
  unfold phaseWork
  dsimp only
  omega

end IndexQueue

end Pview.Queue
