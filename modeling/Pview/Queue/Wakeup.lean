import Pview.Queue.IndexQueue

/-!
# No lost wake-up

A consumer blocks only after it has seen the queue empty and every push
notifies a consumer, so with batches queued some consumer is not waiting.  A
producer blocks only above the upper threshold and every pop that leaves the
queue below the lower one notifies all producers.  `set_stop` notifies under
the mutex, hence not between a failed check and the blocking it leads to.
-/

namespace Pview.Queue

open Pview.Foundation
open Pview.Foundation.CondVar

variable {P C : Type}

/-! ## Invariants -/

theorem producerBreakCond_eq_false {s : IndexQueue P C}
    (h : s.producerBreakCond = false) :
    kTooManyInfoWaitThreshold ≤ s.stmts.length ∧ s.stop = false := by
  simpa [IndexQueue.producerBreakCond] using h

theorem consumerBreakCond_eq_false {s : IndexQueue P C}
    (h : s.consumerBreakCond = false) : s.stmts = [] ∧ s.stop = false := by
  simpa [IndexQueue.consumerBreakCond] using h

structure IndexQueue.ProducerInv (s : IndexQueue P C) : Prop where
  blocking : ∀ p, s.producers p = .blocking →
    kTooManyInfoWaitThreshold ≤ s.stmts.length
  waiting : ∀ p, s.producers p = .waiting →
    kProducerWaitExitThreshold ≤ s.stmts.length

def IndexQueue.Released (s : IndexQueue P C) : Prop :=
  s.stop = true ∧ Awake s.producers

theorem IndexQueue.ProducerInv.released_of_empty {s : IndexQueue P C}
    (hs : s.ProducerInv) (hstop : s.stop = true) (hempty : s.stmts = []) :
    s.Released := by
  refine ⟨hstop, fun p => ⟨fun hp => ?_, fun hp => ?_⟩⟩
  · simpa [hempty, kProducerWaitExitThreshold] using hs.waiting p hp
  · simpa [hempty, kTooManyInfoWaitThreshold] using hs.blocking p hp

structure IndexQueue.ConsumerInv (s : IndexQueue P C) : Prop where
  blocking : ∀ c, s.consumers c = .blocking → s.stmts = []
  ready : s.stmts ≠ [] → ∃ c, s.consumers c ≠ .waiting

def IndexQueue.ConsumersReleased (s : IndexQueue P C) : Prop :=
  s.stop = true ∧ Awake s.consumers

structure IndexQueue.StopInv (s : IndexQueue P C) : Prop where
  nonempty : ∀ res ∈ s.stmts, res ≠ []
  pending : 0 < s.stopping → s.stop = true
  exited : ∀ c, s.consumers c = .finished → s.Released
  stopped : s.stopped = true → s.Released ∧ s.ConsumersReleased

structure IndexQueue.WakeInv (s : IndexQueue P C) : Prop where
  producers : s.ProducerInv
  consumers : s.ConsumerInv
  stop : s.StopInv

/-- Some producer is not done, and every thread that is left waits for a
notification. -/
def IndexQueue.Deadlocked (s : IndexQueue P C) : Prop :=
  (∃ p, s.producers p ≠ .finished) ∧
  (∀ p, s.producers p = .waiting ∨ s.producers p = .finished) ∧
  ∀ c, s.consumers c = .waiting ∨ s.consumers c = .finished

theorem IndexQueue.WakeInv.not_deadlocked {s : IndexQueue P C}
    (hs : s.WakeInv) : ¬s.Deadlocked := by
  rintro ⟨⟨p, hp⟩, hproducers, hconsumers⟩
  have hwaiting : s.producers p = .waiting :=
    (hproducers p).resolve_right hp
  have hlength := hs.producers.waiting p hwaiting
  have hne : s.stmts ≠ [] := by
    intro hempty
    simp [hempty, kProducerWaitExitThreshold] at hlength
  obtain ⟨c, hc⟩ := hs.consumers.ready hne
  have hfinished := (hconsumers c).resolve_left hc
  exact ((hs.stop.exited c hfinished).2 p).1 hwaiting

variable [Fintype P] [DecidableEq P]

theorem notifyProducers_woken {s : IndexQueue P C} {size : Nat}
    {wake : Option P} {producers : P → Phase}
    (h : s.notifyProducers size wake = some producers) :
    Woken s.producers producers := by
  unfold IndexQueue.notifyProducers at h
  split at h
  · cases h
    exact .of_notifyAll _
  · split at h
    · exact .of_notifyOne h
    · cases h
      exact .refl _

theorem notifyProducers_waiting {s : IndexQueue P C} {size : Nat}
    {wake : Option P} {producers : P → Phase}
    (h : s.notifyProducers size wake = some producers) {p : P}
    (hp : producers p = .waiting) : kProducerWaitExitThreshold ≤ size := by
  unfold IndexQueue.notifyProducers at h
  split at h
  · cases h
    exact absurd hp (notifyAll_ne_waiting _ _)
  · omega

variable [Fintype C] [DecidableEq C]

/-! ## Producers -/

theorem IndexQueue.ProducerInv.step {s s' : IndexQueue P C} {a : Action P C}
    (hs : s.ProducerInv) (h : s.step a = some s') : s'.ProducerInv := by
  cases effect_of_step h with
  | push p input wake consumers phase free was woken becomes =>
      have hnotWaiting : phase ≠ .waiting := by
        rcases becomes with rfl | ⟨rfl, -⟩ <;> simp
      constructor
      · intro q hq
        simp only [List.length_append, List.length_singleton]
        rcases update_eq_cases hq with ⟨-, hphase⟩ | hq
        · rcases becomes with hrunning | hblocking
          · rw [hrunning] at hphase
            contradiction
          · exact hblocking.2.2
        · exact absurd hq (free.1 q)
      · intro q hq
        simp only [List.length_append, List.length_singleton]
        rcases update_eq_cases hq with ⟨-, hphase⟩ | hq
        · exact absurd hphase hnotWaiting
        · have hlength := hs.waiting q hq
          omega
  | nullptr => exact ⟨hs.blocking, hs.waiting⟩
  | pop c wake res rest producers phase free was head woken =>
      constructor
      · intro q hq
        rw [(notifyProducers_woken woken).eq_iff (by simp) (by simp)] at hq
        exact absurd hq (free.1 q)
      · intro q hq
        exact notifyProducers_waiting woken hq
  | producer a p phase move =>
      constructor
      · intro q hq
        rcases update_eq_cases hq with ⟨-, hphase⟩ | hq
        · cases move with
          | checks free was breaks =>
              exact (producerBreakCond_eq_false breaks).1
          | returns => contradiction
          | blocks => contradiction
          | wakes => contradiction
          | leaves => contradiction
        · exact hs.blocking q hq
      · intro q hq
        rcases update_eq_cases hq with ⟨-, hphase⟩ | hq
        · cases move with
          | blocks was =>
              apply Nat.le_trans _ (hs.blocking p was)
              decide
          | returns => contradiction
          | checks => contradiction
          | wakes => contradiction
          | leaves => contradiction
        · exact hs.waiting q hq
  | consumer => exact ⟨hs.blocking, hs.waiting⟩
  | storeStop => exact ⟨hs.blocking, hs.waiting⟩
  | notifyStop free =>
      constructor
      · intro q hq
        rw [(Woken.of_notifyAll _).eq_iff (by simp) (by simp)] at hq
        exact absurd hq (free.1 q)
      · intro q hq
        exact absurd hq (notifyAll_ne_waiting _ _)

/-! ## Consumers -/

theorem IndexQueue.ConsumerInv.step [Nonempty C] {s s' : IndexQueue P C}
    {a : Action P C} (hs : s.ConsumerInv) (h : s.step a = some s') :
    s'.ConsumerInv := by
  cases effect_of_step h with
  | push p input wake consumers phase free was woken =>
      constructor
      · intro d hd
        rw [(Woken.of_notifyOne woken).eq_iff (by simp) (by simp)] at hd
        exact absurd hd (free.2 d)
      · intro _
        exact exists_ne_waiting_of_notifyOne woken
  | nullptr c wake free was drained =>
      exact ⟨fun _ _ => drained, fun hne => absurd drained hne⟩
  | pop c wake res rest producers phase free was head woken becomes =>
      have hphase : phase ≠ .waiting ∧ phase ≠ .blocking := by
        rw [becomes]
        split <;> simp
      constructor
      · intro d hd
        rcases update_eq_cases hd with ⟨-, hblocking⟩ | hd
        · exact absurd hblocking hphase.2
        · exact absurd hd (free.2 d)
      · intro _
        exact ⟨c, by simpa using hphase.1⟩
  | producer => exact ⟨hs.blocking, hs.ready⟩
  | consumer a c phase move =>
      constructor
      · intro d hd
        rcases update_eq_cases hd with ⟨-, hphase⟩ | hd
        · cases move with
          | checks free was breaks =>
              exact (consumerBreakCond_eq_false breaks).1
          | blocks => contradiction
          | wakes => contradiction
        · exact hs.blocking d hd
      · intro hne
        cases move with
        | blocks was => exact absurd (hs.blocking c was) hne
        | checks => exact ⟨c, by simp⟩
        | wakes => exact ⟨c, by simp⟩
  | storeStop => exact ⟨hs.blocking, hs.ready⟩
  | notifyStop free =>
      constructor
      · intro d hd
        rw [(Woken.of_notifyAll _).eq_iff (by simp) (by simp)] at hd
        exact absurd hd (free.2 d)
      · intro _
        exact ⟨Classical.arbitrary C, notifyAll_ne_waiting _ _⟩

/-! ## The stop flag -/

theorem IndexQueue.Released.step {s s' : IndexQueue P C} {a : Action P C}
    (hs : s.Released) (h : s.step a = some s') : s'.Released := by
  obtain ⟨hstop, hawake⟩ := hs
  cases effect_of_step h with
  | push p input wake consumers phase free was woken becomes =>
      have hrunning : phase = .running := by
        simpa [hstop] using becomes
      subst hrunning
      exact ⟨hstop, hawake.update (by simp) (by simp)⟩
  | nullptr => exact ⟨hstop, hawake⟩
  | pop c wake res rest producers phase free was head woken =>
      exact ⟨hstop, hawake.woken (notifyProducers_woken woken)⟩
  | producer a p phase move =>
      refine ⟨hstop, ?_⟩
      cases move with
      | checks free was breaks =>
          simp [(producerBreakCond_eq_false breaks).2] at hstop
      | blocks was => exact absurd was (hawake p).2
      | returns => exact hawake.update (by simp) (by simp)
      | wakes => exact hawake.update (by simp) (by simp)
      | leaves => exact hawake.update (by simp) (by simp)
  | consumer => exact ⟨hstop, hawake⟩
  | storeStop => exact ⟨rfl, hawake⟩
  | notifyStop => exact ⟨hstop, hawake.woken (.of_notifyAll _)⟩

theorem IndexQueue.ConsumersReleased.step {s s' : IndexQueue P C}
    {a : Action P C} (hs : s.ConsumersReleased) (h : s.step a = some s') :
    s'.ConsumersReleased := by
  obtain ⟨hstop, hawake⟩ := hs
  cases effect_of_step h with
  | push p input wake consumers phase free was woken =>
      exact ⟨hstop, hawake.woken (.of_notifyOne woken)⟩
  | nullptr => exact ⟨hstop, hawake.update (by simp) (by simp)⟩
  | pop c wake res rest producers phase free was head woken becomes =>
      refine ⟨hstop, hawake.update ?_ ?_⟩ <;>
        · rw [becomes]
          split <;> simp
  | producer => exact ⟨hstop, hawake⟩
  | consumer a c phase move =>
      refine ⟨hstop, ?_⟩
      cases move with
      | checks free was breaks =>
          simp [(consumerBreakCond_eq_false breaks).2] at hstop
      | blocks was => exact absurd was (hawake c).2
      | wakes => exact hawake.update (by simp) (by simp)
  | storeStop => exact ⟨rfl, hawake⟩
  | notifyStop => exact ⟨hstop, hawake.woken (.of_notifyAll _)⟩

def NonemptyBatches (_ : IndexQueue P C) (a : Action P C) : Prop :=
  ∀ p input wake, a = .addStmts p input wake → input ≠ []

theorem IndexQueue.StopInv.exit {s s' : IndexQueue P C} {a : Action P C}
    (hs : s.StopInv) (h : s.step a = some s') {c : C}
    (hc : s'.consumers c = .finished) :
    s.consumers c = .finished ∨ s.stop = true ∧ s.stmts = [] := by
  cases effect_of_step h with
  | push p input wake consumers phase free was woken =>
      rw [(Woken.of_notifyOne woken).eq_iff (by simp) (by simp)] at hc
      exact .inl hc
  | nullptr d wake free was drained stop => exact .inr ⟨stop, drained⟩
  | pop d wake res rest producers phase free was head woken becomes =>
      have hres : res ≠ [] := hs.nonempty res (by simp [head])
      rcases update_eq_cases hc with ⟨-, hphase⟩ | hc
      · simp [hphase, hres] at becomes
      · exact .inl hc
  | producer => exact .inl hc
  | consumer a d phase move =>
      rcases update_eq_cases hc with ⟨-, hphase⟩ | hc
      · cases move <;> contradiction
      · exact .inl hc
  | storeStop => exact .inl hc
  | notifyStop =>
      rw [(Woken.of_notifyAll _).eq_iff (by simp) (by simp)] at hc
      exact .inl hc

theorem IndexQueue.StopInv.step {s s' : IndexQueue P C} {a : Action P C}
    (hs : s.StopInv) (hproducers : s.ProducerInv) (hok : NonemptyBatches s a)
    (h : s.step a = some s') : s'.StopInv := by
  have hexited : ∀ c, s'.consumers c = .finished → s'.Released := by
    intro c hc
    apply IndexQueue.Released.step _ h
    rcases hs.exit h hc with hold | ⟨hstop, hempty⟩
    · exact hs.exited c hold
    · exact hproducers.released_of_empty hstop hempty
  have hstopped : s.stopped = true → s'.Released ∧ s'.ConsumersReleased :=
    fun hstopped =>
      ⟨(hs.stopped hstopped).1.step h, (hs.stopped hstopped).2.step h⟩
  cases effect_of_step h with
  | push p input wake =>
      refine ⟨?_, hs.pending, hexited, hstopped⟩
      intro res hres
      rcases List.mem_append.mp hres with hold | hnew
      · exact hs.nonempty res hold
      · rw [List.mem_singleton.mp hnew]
        exact hok p input wake rfl
  | nullptr => exact ⟨hs.nonempty, hs.pending, hexited, hstopped⟩
  | pop c wake res rest producers phase free was head =>
      refine ⟨?_, hs.pending, hexited, hstopped⟩
      intro b hb
      exact hs.nonempty b (by simp [head, hb])
  | producer => exact ⟨hs.nonempty, hs.pending, hexited, hstopped⟩
  | consumer => exact ⟨hs.nonempty, hs.pending, hexited, hstopped⟩
  | storeStop => exact ⟨hs.nonempty, fun _ => rfl, hexited, hstopped⟩
  | notifyStop free pending =>
      have hstop := hs.pending pending
      refine ⟨hs.nonempty, fun _ => hstop, hexited, fun _ => ?_⟩
      exact ⟨⟨hstop, awake_notifyAll free.1⟩, ⟨hstop, awake_notifyAll free.2⟩⟩

theorem IndexQueue.WakeInv.of_reachWhere [Nonempty C] {s : IndexQueue P C}
    (h : (queueSystem P C).ReachWhere NonemptyBatches s) : s.WakeInv := by
  apply System.ReachWhere.invariant (I := IndexQueue.WakeInv) _ _ h
  · constructor <;> constructor <;> simp [queueSystem, empty]
  · intro s s' a hs hok hstep
    exact ⟨hs.producers.step hstep, hs.consumers.step hstep,
      hs.stop.step hs.producers hok hstep⟩

theorem queue_no_lost_wakeup [Nonempty C] {s : IndexQueue P C}
    (h : (queueSystem P C).ReachWhere NonemptyBatches s) :
    (s.stmts ≠ [] → ∃ c, s.consumers c ≠ .waiting) ∧
    (∀ p, s.producers p = .waiting →
      kProducerWaitExitThreshold ≤ s.stmts.length) ∧
    (s.stopped = true →
      (∀ p, s.producers p ≠ .waiting) ∧ ∀ c, s.consumers c ≠ .waiting) ∧
    ¬s.Deadlocked := by
  have hinv := IndexQueue.WakeInv.of_reachWhere h
  refine ⟨hinv.consumers.ready, hinv.producers.waiting, ?_,
    hinv.not_deadlocked⟩
  intro hstopped
  have hreleased := hinv.stop.stopped hstopped
  exact ⟨fun p => (hreleased.1.2 p).1, fun c => (hreleased.2.2 c).1⟩

/-- The consumer waits, is notified by a push, and the queue is stopped. -/
theorem queue_no_lost_wakeup_stopped : ∃ s : IndexQueue Unit Unit,
    s.stopped = true ∧ s.stmts = [["a"]] ∧ s.consumers () = .notified ∧
      ¬s.Deadlocked := by
  let schedule : List (Action Unit Unit) :=
    [.getStmts () none, .blockConsumer (), .addStmts () ["a"] (some ()),
      .storeStop, .notifyStop]
  have hrun : ((queueSystem Unit Unit).run .empty schedule).map
      (fun s => (s.stopped, s.stmts, s.consumers ())) =
        some (true, [["a"]], .notified) := by decide
  obtain ⟨s, hrun, hs⟩ := Option.map_eq_some_iff.mp hrun
  simp only [Prod.mk.injEq] at hs
  have hallowed : (queueSystem Unit Unit).Allowed NonemptyBatches .empty
      schedule := by
    apply System.allowed_of_forall
    rintro a ha s p input wake rfl
    simp only [schedule, List.mem_cons, reduceCtorEq, Action.addStmts.injEq,
      List.not_mem_nil, false_or, or_false] at ha
    simp [ha.2.1]
  have hreach := System.ReachWhere.run .init hallowed hrun
  exact ⟨s, hs.1, hs.2.1, hs.2.2, (queue_no_lost_wakeup hreach).2.2.2⟩

end Pview.Queue
