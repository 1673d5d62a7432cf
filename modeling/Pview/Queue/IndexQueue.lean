import Mathlib.Algebra.Order.Ring.Nat
import Pview.Foundation.CondVar
import Pview.Foundation.Transition

/-!
# The statement queue

`IndexQueue` as a transition system over any finite number of producers (parse
tasks) and consumers (store tasks).  `stmt_consumer_mtx_` is held from the
lock to the return or to the moment a wait blocks, so each such stretch is one
action; the stretch between finding a wait predicate false and blocking is the
phase `blocking`, because `set_stop` stores the flag without the mutex and may
do so just there.

Some components record history: `added` holds the batches pushed and
`returned` what `get_stmts` has returned, in the order of the pops.
-/

namespace Pview.Queue

open Pview.Foundation
open Pview.Foundation.CondVar

abbrev Batch := List String

def kTooManyInfoWaitThreshold : Nat := 2048 * 10
def kProducerWaitExitThreshold : Nat := 2048 * 6

structure IndexQueue (P C : Type) where
  stmts : List Batch
  numStmts : Nat
  stop : Bool
  /-- `g_lower_than_producer_times`. -/
  lowerTimes : Nat
  producers : P → Phase
  consumers : C → Phase
  /-- Calls of `set_stop` between the store and the notifications. -/
  stopping : Nat
  /-- Some call of `set_stop` has returned. -/
  stopped : Bool
  added : List Batch
  returned : List (Option Batch)

inductive Action (P C : Type) where
  | addStmts (p : P) (input : Batch) (wake : Option C)
  | resumeProducer (p : P)
  | getStmts (c : C) (wake : Option P)
  | blockProducer (p : P)
  | blockConsumer (c : C)
  | spuriousProducer (p : P)
  | spuriousConsumer (c : C)
  | finishProducer (p : P)
  | storeStop
  | notifyStop

/-- `fetch_sub` on the unsigned counter.  The matching `fetch_add` is plain
addition: the strings counted are queued in memory, so there are fewer than
`2 ^ 64` of them. -/
def fetchSub (value subtrahend : Nat) : Nat :=
  if subtrahend ≤ value then
    value - subtrahend
  else
    value + 2 ^ 64 - subtrahend

namespace IndexQueue

variable {P C : Type}

def empty : IndexQueue P C where
  stmts := []
  numStmts := 0
  stop := false
  lowerTimes := 0
  producers := fun _ => .running
  consumers := fun _ => .running
  stopping := 0
  stopped := false
  added := []
  returned := []

/-- Nobody is between a failed wait predicate and the blocking. -/
def MutexFree (s : IndexQueue P C) : Prop :=
  (∀ p, s.producers p ≠ .blocking) ∧ ∀ c, s.consumers c ≠ .blocking

instance [Fintype P] [Fintype C] (s : IndexQueue P C) :
    Decidable s.MutexFree :=
  inferInstanceAs (Decidable (_ ∧ _))

def afterCheck (breakCond : Bool) : Phase :=
  if breakCond then .running else .blocking

def producerBreakCond (s : IndexQueue P C) : Bool :=
  decide (s.stmts.length < kTooManyInfoWaitThreshold) || s.stop

def consumerBreakCond (s : IndexQueue P C) : Bool :=
  !s.stmts.isEmpty || s.stop

variable [Fintype P] [DecidableEq P] [Fintype C] [DecidableEq C]

def addStmts (s : IndexQueue P C) (p : P) (input : Batch) (wake : Option C) :
    Option (IndexQueue P C) :=
  if s.MutexFree ∧ s.producers p = .running then
    (notifyOne s.consumers wake).map fun consumers =>
      let s := { s with
        stmts := s.stmts ++ [input]
        numStmts := s.numStmts + input.length
        consumers := consumers
        added := s.added ++ [input] }
      if kTooManyInfoWaitThreshold ≤ s.stmts.length then
        { s with producers :=
            Function.update s.producers p (afterCheck s.producerBreakCond) }
      else
        s
  else
    none

def resumeProducer (s : IndexQueue P C) (p : P) : Option (IndexQueue P C) :=
  if s.MutexFree ∧ s.producers p = .notified then
    some { s with producers :=
      Function.update s.producers p (afterCheck s.producerBreakCond) }
  else
    none

/-- The notifications at the end of `get_stmts`, with `size` batches left. -/
def notifyProducers (s : IndexQueue P C) (size : Nat) (wake : Option P) :
    Option (P → Phase) :=
  if size < kProducerWaitExitThreshold then
    some (notifyAll s.producers)
  else if size < kTooManyInfoWaitThreshold ∧ s.lowerTimes % 1024 = 0 then
    notifyOne s.producers wake
  else
    some s.producers

def nextLowerTimes (s : IndexQueue P C) (size : Nat) : Nat :=
  if kProducerWaitExitThreshold ≤ size ∧ size < kTooManyInfoWaitThreshold then
    (s.lowerTimes + 1) % 2 ^ 64
  else
    s.lowerTimes

/-- A call of `get_stmts`, or its wait after a wake-up.  The consumer leaves
its loop when it gets `nullptr` or an empty batch. -/
def getStmts (s : IndexQueue P C) (c : C) (wake : Option P) :
    Option (IndexQueue P C) :=
  if s.MutexFree ∧ (s.consumers c = .running ∨ s.consumers c = .notified) then
    if s.consumerBreakCond then
      match s.stmts with
      | [] => some { s with
          consumers := Function.update s.consumers c .finished
          returned := s.returned ++ [none] }
      | res :: rest =>
          (s.notifyProducers rest.length wake).map fun producers =>
            { s with
              stmts := rest
              numStmts := fetchSub s.numStmts res.length
              lowerTimes := s.nextLowerTimes rest.length
              producers := producers
              consumers := Function.update s.consumers c
                (if res.isEmpty then .finished else .running)
              returned := s.returned ++ [some res] }
    else
      some { s with consumers := Function.update s.consumers c .blocking }
  else
    none

def step (s : IndexQueue P C) : Action P C → Option (IndexQueue P C)
  | .addStmts p input wake => s.addStmts p input wake
  | .resumeProducer p => s.resumeProducer p
  | .getStmts c wake => s.getStmts c wake
  | .blockProducer p =>
      if s.producers p = .blocking then
        some { s with producers := Function.update s.producers p .waiting }
      else
        none
  | .blockConsumer c =>
      if s.consumers c = .blocking then
        some { s with consumers := Function.update s.consumers c .waiting }
      else
        none
  | .spuriousProducer p =>
      if s.producers p = .waiting then
        some { s with producers := Function.update s.producers p .notified }
      else
        none
  | .spuriousConsumer c =>
      if s.consumers c = .waiting then
        some { s with consumers := Function.update s.consumers c .notified }
      else
        none
  | .finishProducer p =>
      if s.producers p = .running then
        some { s with producers := Function.update s.producers p .finished }
      else
        none
  | .storeStop => some { s with stop := true, stopping := s.stopping + 1 }
  | .notifyStop =>
      if s.MutexFree ∧ 0 < s.stopping then
        some { s with
          consumers := notifyAll s.consumers
          producers := notifyAll s.producers
          stopping := s.stopping - 1
          stopped := true }
      else
        none

/-! ## What one step can do -/

inductive ProducerMove (s : IndexQueue P C) (p : P) : Phase → Prop
  | returns (free : s.MutexFree) (was : s.producers p = .notified)
      (breaks : s.producerBreakCond = true) : ProducerMove s p .running
  | checks (free : s.MutexFree) (was : s.producers p = .notified)
      (breaks : s.producerBreakCond = false) : ProducerMove s p .blocking
  | blocks (was : s.producers p = .blocking) : ProducerMove s p .waiting
  | wakes (was : s.producers p = .waiting) : ProducerMove s p .notified
  | leaves (was : s.producers p = .running) : ProducerMove s p .finished

inductive ConsumerMove (s : IndexQueue P C) (c : C) : Phase → Prop
  | checks (free : s.MutexFree)
      (was : s.consumers c = .running ∨ s.consumers c = .notified)
      (breaks : s.consumerBreakCond = false) : ConsumerMove s c .blocking
  | blocks (was : s.consumers c = .blocking) : ConsumerMove s c .waiting
  | wakes (was : s.consumers c = .waiting) : ConsumerMove s c .notified

inductive Effect (s : IndexQueue P C) :
    Action P C → IndexQueue P C → Prop
  | push (p : P) (input : Batch) (wake : Option C) (consumers : C → Phase)
      (phase : Phase) (free : s.MutexFree) (was : s.producers p = .running)
      (woken : notifyOne s.consumers wake = some consumers)
      (becomes : phase = .running ∨ phase = .blocking ∧ s.stop = false ∧
        kTooManyInfoWaitThreshold ≤ s.stmts.length + 1) :
      Effect s (.addStmts p input wake) { s with
        stmts := s.stmts ++ [input]
        numStmts := s.numStmts + input.length
        producers := Function.update s.producers p phase
        consumers := consumers
        added := s.added ++ [input] }
  | nullptr (c : C) (wake : Option P) (free : s.MutexFree)
      (was : s.consumers c = .running ∨ s.consumers c = .notified)
      (drained : s.stmts = []) (stop : s.stop = true) :
      Effect s (.getStmts c wake) { s with
        consumers := Function.update s.consumers c .finished
        returned := s.returned ++ [none] }
  | pop (c : C) (wake : Option P) (res : Batch) (rest : List Batch)
      (producers : P → Phase) (phase : Phase) (free : s.MutexFree)
      (was : s.consumers c = .running ∨ s.consumers c = .notified)
      (head : s.stmts = res :: rest)
      (woken : s.notifyProducers rest.length wake = some producers)
      (becomes : phase = if res.isEmpty then .finished else .running) :
      Effect s (.getStmts c wake) { s with
        stmts := rest
        numStmts := fetchSub s.numStmts res.length
        lowerTimes := s.nextLowerTimes rest.length
        producers := producers
        consumers := Function.update s.consumers c phase
        returned := s.returned ++ [some res] }
  | producer (a : Action P C) (p : P) (phase : Phase)
      (move : s.ProducerMove p phase) :
      Effect s a { s with producers := Function.update s.producers p phase }
  | consumer (a : Action P C) (c : C) (phase : Phase)
      (move : s.ConsumerMove c phase) :
      Effect s a { s with consumers := Function.update s.consumers c phase }
  | storeStop : Effect s .storeStop { s with
        stop := true
        stopping := s.stopping + 1 }
  | notifyStop (free : s.MutexFree) (pending : 0 < s.stopping) :
      Effect s .notifyStop { s with
        consumers := notifyAll s.consumers
        producers := notifyAll s.producers
        stopping := s.stopping - 1
        stopped := true }

private theorem effect_of_addStmts {s s' : IndexQueue P C} {p : P}
    {input : Batch} {wake : Option C}
    (h : s.addStmts p input wake = some s') :
    s.Effect (.addStmts p input wake) s' := by
  unfold addStmts at h
  simp only [Option.ite_none_right_eq_some, Option.map_eq_some_iff] at h
  obtain ⟨⟨hfree, hrunning⟩, consumers, hwoken, rfl⟩ := h
  split
  · rename_i hmany
    simp only [List.length_append, List.length_singleton] at hmany
    refine .push p input wake consumers _ hfree hrunning hwoken ?_
    cases hstop : s.stop with
    | true => simp [afterCheck, producerBreakCond]
    | false =>
        right
        simp [afterCheck, producerBreakCond, hmany]
  · have heffect := Effect.push p input wake consumers .running hfree
      hrunning hwoken (.inl rfl)
    rwa [← hrunning, Function.update_eq_self] at heffect

private theorem effect_of_getStmts {s s' : IndexQueue P C} {c : C}
    {wake : Option P} (h : s.getStmts c wake = some s') :
    s.Effect (.getStmts c wake) s' := by
  unfold getStmts at h
  simp only [Option.ite_none_right_eq_some] at h
  obtain ⟨⟨hfree, hfrom⟩, h⟩ := h
  cases hbreak : s.consumerBreakCond with
  | false =>
      simp only [hbreak, Bool.false_eq_true, if_false] at h
      cases h
      exact .consumer _ c _ (.checks hfree hfrom hbreak)
  | true =>
      rw [hbreak, if_pos rfl] at h
      cases hstmts : s.stmts with
      | nil =>
          simp only [hstmts] at h
          cases h
          have hstop : s.stop = true := by
            simpa [consumerBreakCond, hstmts] using hbreak
          have heffect := Effect.nullptr c wake hfree hfrom hstmts hstop
          rwa [hstmts] at heffect
      | cons res rest =>
          simp only [hstmts, Option.map_eq_some_iff] at h
          obtain ⟨producers, hwoken, rfl⟩ := h
          exact .pop c wake res rest producers _ hfree hfrom hstmts hwoken rfl

theorem effect_of_step {s s' : IndexQueue P C} {a : Action P C}
    (h : s.step a = some s') : s.Effect a s' := by
  cases a with
  | addStmts p input wake => exact effect_of_addStmts h
  | getStmts c wake => exact effect_of_getStmts h
  | resumeProducer p =>
      simp only [step, resumeProducer, Option.ite_none_right_eq_some,
        Option.some.injEq] at h
      obtain ⟨⟨hfree, hfrom⟩, rfl⟩ := h
      refine .producer _ p _ ?_
      cases hbreak : s.producerBreakCond with
      | true => exact .returns hfree hfrom hbreak
      | false => exact .checks hfree hfrom hbreak
  | blockProducer p =>
      simp only [step, Option.ite_none_right_eq_some,
        Option.some.injEq] at h
      obtain ⟨hfrom, rfl⟩ := h
      exact .producer _ p _ (.blocks hfrom)
  | blockConsumer c =>
      simp only [step, Option.ite_none_right_eq_some,
        Option.some.injEq] at h
      obtain ⟨hfrom, rfl⟩ := h
      exact .consumer _ c _ (.blocks hfrom)
  | spuriousProducer p =>
      simp only [step, Option.ite_none_right_eq_some,
        Option.some.injEq] at h
      obtain ⟨hfrom, rfl⟩ := h
      exact .producer _ p _ (.wakes hfrom)
  | spuriousConsumer c =>
      simp only [step, Option.ite_none_right_eq_some,
        Option.some.injEq] at h
      obtain ⟨hfrom, rfl⟩ := h
      exact .consumer _ c _ (.wakes hfrom)
  | finishProducer p =>
      simp only [step, Option.ite_none_right_eq_some,
        Option.some.injEq] at h
      obtain ⟨hfrom, rfl⟩ := h
      exact .producer _ p _ (.leaves hfrom)
  | storeStop =>
      cases h
      exact .storeStop
  | notifyStop =>
      simp only [step, Option.ite_none_right_eq_some,
        Option.some.injEq] at h
      obtain ⟨⟨hfree, hpending⟩, rfl⟩ := h
      exact .notifyStop hfree hpending

end IndexQueue

def queueSystem (P C : Type) [Fintype P] [DecidableEq P] [Fintype C]
    [DecidableEq C] : System (IndexQueue P C) (Action P C) where
  init := .empty
  step := IndexQueue.step

end Pview.Queue
