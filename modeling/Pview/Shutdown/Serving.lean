import Pview.Queue.Progress
import Pview.Shutdown.DoIndexing

/-!
# Some store task serves the queue

Only a store task that has a connection calls `get_stmts`; one that has none
never waits on the queue and never empties it.  So it does not help that some
consumer is not waiting.  What keeps a run alive is that, with batches queued
and a task waiting, another task with a connection is on its way to the queue.
-/

namespace Pview.Shutdown

open Pview.Foundation
open Pview.Foundation.CondVar
open Pview.Indexer
open Pview.MySQL
open Pview.Queue

variable {conf : Config} {connects : conf.Connects}

def StorerPhase.Busy : StorerPhase → Prop
  | .getting | .storing .. => True
  | .notStarted | .finished => False

inductive Wait.Effect (q : IndexQueue conf.Parser conf.Storer) :
    Wait conf → IndexQueue conf.Parser conf.Storer → Prop
  | resumes (p : conf.Parser) (phase : Phase)
      (was : q.producers p = .notified)
      (becomes : phase = .running ∨ phase = .blocking) :
      Effect q (.resumeProducer p)
        { q with producers := Function.update q.producers p phase }
  | blocksProducer (p : conf.Parser) (was : q.producers p = .blocking) :
      Effect q (.blockProducer p)
        { q with producers := Function.update q.producers p .waiting }
  | blocksConsumer (c : conf.Storer) (was : q.consumers c = .blocking) :
      Effect q (.blockConsumer c)
        { q with consumers := Function.update q.consumers c .waiting }
  | wakesProducer (p : conf.Parser) (was : q.producers p = .waiting) :
      Effect q (.spuriousProducer p)
        { q with producers := Function.update q.producers p .notified }
  | wakesConsumer (c : conf.Storer) (was : q.consumers c = .waiting) :
      Effect q (.spuriousConsumer c)
        { q with consumers := Function.update q.consumers c .notified }

theorem Wait.effect_of_step {q q' : IndexQueue conf.Parser conf.Storer}
    {w : Wait conf} (h : q.step w.action = some q') : w.Effect q q' := by
  cases w with
  | resumeProducer p =>
      simp only [action, IndexQueue.step, IndexQueue.resumeProducer,
        Option.ite_none_right_eq_some, Option.some.injEq] at h
      obtain ⟨⟨-, was⟩, rfl⟩ := h
      refine .resumes p _ was ?_
      unfold IndexQueue.afterCheck
      split
      · exact .inl rfl
      · exact .inr rfl
  | blockProducer p =>
      obtain ⟨was, h⟩ := Option.ite_none_right_eq_some.mp h
      cases h
      exact .blocksProducer p was
  | blockConsumer c =>
      obtain ⟨was, h⟩ := Option.ite_none_right_eq_some.mp h
      cases h
      exact .blocksConsumer c was
  | spuriousProducer p =>
      obtain ⟨was, h⟩ := Option.ite_none_right_eq_some.mp h
      cases h
      exact .wakesProducer p was
  | spuriousConsumer c =>
      obtain ⟨was, h⟩ := Option.ite_none_right_eq_some.mp h
      cases h
      exact .wakesConsumer c was

def MainPhase.rank : MainPhase → Nat
  | .start => 11
  | .addStoreTasks => 10
  | .addParseTasks => 9
  | .joinParseTasks => 8
  | .storeStop => 7
  | .notifyStop => 6
  | .checkNumStmts => 5
  | .addExtraTasks => 4
  | .pollNumStmts => 3
  | .joinStoreTasks => 2
  | .joinExtraTasks => 1
  | .returned => 0

namespace State

/-! ## Where the tasks stand -/

structure Placed (connects : conf.Connects) (s : State conf) : Prop where
  producers : ∀ p, s.queue.producers p = .running ∨
    (s.queue.producers p).Suspended ∧ s.parsers p = .fetching
  consumers : ∀ c, s.queue.consumers c = .running ∨
    (s.queue.consumers c).Suspended ∧ s.storers c = .getting ∨
      s.storers c = .finished ∧ s.queue.consumers c = .finished
  storing : ∀ c ticket n stmts, s.storers c = .storing ticket n stmts →
    n < stmts.length
  nullptr : ∀ c, connects.store c = true → s.storers c = .finished →
    none ∈ s.queue.returned
  nonempty : ∀ stmts ∈ s.queue.stmts, stmts ≠ []

namespace Placed

variable {s s' : State conf}

theorem initial : (State.initial conf).Placed connects where
  producers _ := .inl rfl
  consumers _ := .inl rfl
  storing c ticket n stmts hstoring := by
    simp [State.initial] at hstoring
  nullptr c _ hfinished := by
    simp [State.initial] at hfinished
  nonempty stmts hstmts := by
    simp [State.initial, IndexQueue.empty] at hstmts

/-- Neither the parse tasks nor the store tasks move, and the queue only wakes
some of them. -/
theorem woken (h : s.Placed connects) (hparsers : s'.parsers = s.parsers)
    (hstorers : s'.storers = s.storers)
    (hproducers : Woken s.queue.producers s'.queue.producers)
    (hconsumers : Woken s.queue.consumers s'.queue.consumers)
    (hreturned : s'.queue.returned = s.queue.returned)
    (hstmts : s'.queue.stmts = s.queue.stmts) :
    s'.Placed connects := by
  refine ⟨?_, ?_, ?_, ?_, ?_⟩
  · intro p
    rw [hproducers.eq_iff (by simp) (by simp), hproducers.suspended_iff,
      hparsers]
    exact h.producers p
  · intro c
    rw [hconsumers.eq_iff (by simp) (by simp), hconsumers.suspended_iff,
      hconsumers.eq_iff (by simp) (by simp), hstorers]
    exact h.consumers c
  · rw [hstorers]
    exact h.storing
  · rw [hstorers, hreturned]
    exact h.nullptr
  · rw [hstmts]
    exact h.nonempty

theorem parser (h : s.Placed connects) {p : conf.Parser} {phase : ParserPhase}
    {producer : Phase}
    (hparsers : s'.parsers = Function.update s.parsers p phase)
    (hproducers : s'.queue.producers =
      Function.update s.queue.producers p producer)
    (hproducer : producer = .running ∨
      producer.Suspended ∧ phase = .fetching)
    (hstorers : s'.storers = s.storers)
    (hconsumers : Woken s.queue.consumers s'.queue.consumers)
    (hreturned : s'.queue.returned = s.queue.returned)
    (hstmts : ∀ stmts ∈ s'.queue.stmts,
      stmts ∈ s.queue.stmts ∨ stmts ≠ []) :
    s'.Placed connects := by
  refine ⟨?_, ?_, ?_, ?_, ?_⟩
  · intro q
    rw [hparsers, hproducers]
    by_cases hq : q = p
    · subst hq
      simpa using hproducer
    · simpa [hq] using h.producers q
  · intro c
    rw [hconsumers.eq_iff (by simp) (by simp), hconsumers.suspended_iff,
      hconsumers.eq_iff (by simp) (by simp), hstorers]
    exact h.consumers c
  · rw [hstorers]
    exact h.storing
  · rw [hstorers, hreturned]
    exact h.nullptr
  · exact fun stmts hmem => (hstmts stmts hmem).elim (h.nonempty stmts) id

theorem storer (h : s.Placed connects) {c : conf.Storer} {phase : StorerPhase}
    {consumer : Phase}
    (hstorers : s'.storers = Function.update s.storers c phase)
    (hconsumers : s'.queue.consumers =
      Function.update s.queue.consumers c consumer)
    (hconsumer : consumer = .running ∨
      consumer.Suspended ∧ phase = .getting ∨
        phase = .finished ∧ consumer = .finished)
    (hstoring : ∀ ticket n stmts, phase = .storing ticket n stmts →
      n < stmts.length)
    (hnullptr : connects.store c = true → phase = .finished →
      none ∈ s'.queue.returned)
    (hparsers : s'.parsers = s.parsers)
    (hproducers : Woken s.queue.producers s'.queue.producers)
    (hreturned : s.queue.returned ⊆ s'.queue.returned)
    (hstmts : s'.queue.stmts ⊆ s.queue.stmts) :
    s'.Placed connects := by
  refine ⟨?_, ?_, ?_, ?_, ?_⟩
  · intro p
    rw [hproducers.eq_iff (by simp) (by simp), hproducers.suspended_iff,
      hparsers]
    exact h.producers p
  · intro d
    rw [hstorers, hconsumers]
    by_cases hd : d = c
    · subst hd
      simpa using hconsumer
    · simpa [hd] using h.consumers d
  · intro d ticket n stmts hd
    rw [hstorers] at hd
    rcases update_eq_cases hd with ⟨-, hphase⟩ | hd
    · exact hstoring ticket n stmts hphase
    · exact h.storing d ticket n stmts hd
  · intro d hconnects hd
    rw [hstorers] at hd
    rcases update_eq_cases hd with ⟨rfl, hphase⟩ | hd
    · exact hnullptr hconnects hphase
    · exact hreturned (h.nullptr d hconnects hd)
  · exact fun stmts hmem => h.nonempty stmts (hstmts hmem)

theorem of_running (h : s.Placed connects) {p : conf.Parser}
    (hp : s.parsers p ≠ .fetching) : s.queue.producers p = .running :=
  (h.producers p).resolve_right fun hwaits => hp hwaits.2

theorem consumer_running (h : s.Placed connects) {c : conf.Storer}
    (hgetting : s.storers c ≠ .getting) (hfinished : s.storers c ≠ .finished) :
    s.queue.consumers c = .running := by
  rcases h.consumers c with hrunning | hwaits | hdone
  · exact hrunning
  · exact absurd hwaits.2 hgetting
  · exact absurd hdone.1 hfinished

theorem wait (h : s.Placed connects) {w : Wait conf}
    {queue : IndexQueue conf.Parser conf.Storer}
    (hmoves : s.queue.step w.action = some queue) :
    ({ s with queue := queue } : State conf).Placed connects := by
  have hproducer : ∀ {p phase}, (s.queue.producers p).Suspended →
      phase = .running ∨ phase.Suspended →
      ({ s with queue := { s.queue with
        producers := Function.update s.queue.producers p phase } } :
          State conf).Placed connects := by
    intro p phase hp hphase
    have hfetching : s.parsers p = .fetching := by
      rcases h.producers p with hrunning | hwaits
      · simp [hrunning, Phase.Suspended] at hp
      · exact hwaits.2
    have hsame : s.parsers = Function.update s.parsers p .fetching := by
      rw [← hfetching, Function.update_eq_self]
    exact h.parser hsame rfl
      (hphase.imp_right fun hsuspended => ⟨hsuspended, rfl⟩) rfl (.refl _) rfl
      (fun _ => .inl)
  have hconsumer : ∀ {c phase}, (s.queue.consumers c).Suspended →
      phase.Suspended →
      ({ s with queue := { s.queue with
        consumers := Function.update s.queue.consumers c phase } } :
          State conf).Placed connects := by
    intro c phase hc hphase
    have hgetting : s.storers c = .getting := by
      rcases h.consumers c with hrunning | hwaits | hdone
      · simp [hrunning, Phase.Suspended] at hc
      · exact hwaits.2
      · simp [hdone, Phase.Suspended] at hc
    have hsame : s.storers = Function.update s.storers c .getting := by
      rw [← hgetting, Function.update_eq_self]
    exact h.storer hsame rfl (.inr (.inl ⟨hphase, rfl⟩)) (by simp) (by simp)
      rfl (.refl _) (List.Subset.refl _) (List.Subset.refl _)
  cases Wait.effect_of_step hmoves with
  | resumes p phase was becomes =>
      refine hproducer (by simp [was, Phase.Suspended]) ?_
      exact becomes.imp_right fun hblocking => .inl hblocking
  | blocksProducer p was =>
      exact hproducer (by simp [was, Phase.Suspended])
        (by simp [Phase.Suspended])
  | wakesProducer p was =>
      exact hproducer (by simp [was, Phase.Suspended])
        (by simp [Phase.Suspended])
  | blocksConsumer c was =>
      exact hconsumer (by simp [was, Phase.Suspended])
        (by simp [Phase.Suspended])
  | wakesConsumer c was =>
      exact hconsumer (by simp [was, Phase.Suspended])
        (by simp [Phase.Suspended])

theorem main (h : s.Placed connects) (moves : s.MainEffect s') :
    s'.Placed connects := by
  cases moves with
  | storeStop was queue moves =>
      cases moves
      exact h.woken rfl rfl (.refl _) (.refl _) rfl rfl
  | notifyStop was queue moves =>
      simp only [IndexQueue.step, Option.ite_none_right_eq_some,
        Option.some.injEq] at moves
      obtain ⟨-, rfl⟩ := moves
      exact h.woken rfl rfl (.of_notifyAll _) (.of_notifyAll _) rfl rfl
  | _ => exact h.woken rfl rfl (.refl _) (.refl _) rfl rfl

theorem runningParser (h : s.Placed connects) {p : conf.Parser}
    {phase : ParserPhase} (hrunning : s.queue.producers p = .running)
    (hparsers : s'.parsers = Function.update s.parsers p phase)
    (hstorers : s'.storers = s.storers) (hqueue : s'.queue = s.queue) :
    s'.Placed connects := by
  refine h.parser hparsers ?_ (.inl rfl) hstorers ?_ ?_ ?_
  · rw [hqueue, ← hrunning, Function.update_eq_self]
  · rw [hqueue]
    exact .refl _
  · rw [hqueue]
  · rw [hqueue]
    exact fun _ => .inl

theorem addStmts (h : s.Placed connects) {p : conf.Parser} {stmts : Batch}
    {wake : Option conf.Storer} {queue : IndexQueue conf.Parser conf.Storer}
    (hne : stmts ≠ [])
    (moves : s.queue.step (.addStmts p stmts wake) = some queue) :
    ({ s.setParser p .fetching with queue := queue } : State conf).Placed
      connects := by
  obtain ⟨-, consumers, phase, hwoken, hphase, rfl⟩ :=
    IndexQueue.of_addStmts moves
  refine h.parser rfl rfl ?_ rfl (.of_notifyOne hwoken) rfl ?_
  · rcases hphase with rfl | rfl <;> simp [Phase.Suspended]
  · intro stmts' hmem
    refine (List.mem_append.mp hmem).imp_right fun hnew => ?_
    rw [List.mem_singleton.mp hnew]
    exact hne

theorem runningStorer (h : s.Placed connects) {c : conf.Storer}
    {phase : StorerPhase} (hgetting : s.storers c ≠ .getting)
    (hfinished : s.storers c ≠ .finished)
    (hstorers : s'.storers = Function.update s.storers c phase)
    (hparsers : s'.parsers = s.parsers) (hqueue : s'.queue = s.queue)
    (hstoring : ∀ ticket n stmts, phase = .storing ticket n stmts →
      n < stmts.length)
    (hnullptr : connects.store c = true → phase ≠ .finished) :
    s'.Placed connects := by
  have hrunning := h.consumer_running hgetting hfinished
  refine h.storer hstorers ?_ (.inl rfl) hstoring ?_ hparsers ?_ ?_ ?_
  · rw [hqueue, ← hrunning, Function.update_eq_self]
  · exact fun hconnects hphase => absurd hphase (hnullptr hconnects)
  · rw [hqueue]
    exact .refl _
  · rw [hqueue]
    exact List.Subset.refl _
  · rw [hqueue]
    exact List.Subset.refl _

theorem waits (h : s.Placed connects) {c : conf.Storer}
    {queue : IndexQueue conf.Parser conf.Storer} (hgets : s.queue.Gets c queue)
    (same : queue.returned = s.queue.returned) :
    ({ s.setStorer c .getting with queue := queue } : State conf).Placed
      connects := by
  cases hgets with
  | nullptr => simp at same
  | pop => simp at same
  | waits breaks =>
      exact h.storer rfl rfl (.inr (.inl ⟨by simp [Phase.Suspended], rfl⟩))
        (by simp) (by simp) rfl (.refl _) (List.Subset.refl _)
        (List.Subset.refl _)

theorem gets (h : s.Placed connects) {c : conf.Storer} {res : Option Batch}
    {queue : IndexQueue conf.Parser conf.Storer} (hgets : s.queue.Gets c queue)
    (result : queue.returned = s.queue.returned ++ [res]) :
    ({ s.setStorer c (onResult s.taken.length (some res)) with
      queue := queue } : State conf).Placed connects := by
  cases hgets with
  | nullptr drained stop =>
      obtain rfl : res = none := by simpa using result.symm
      exact h.storer rfl rfl (.inr (.inr ⟨rfl, rfl⟩)) (by simp [onResult])
        (by simp) rfl (.refl _) (List.subset_append_left _ _)
        (List.Subset.refl _)
  | pop stmts rest numStmts lowerTimes producers head woken =>
      obtain rfl : res = some stmts := by simpa using result.symm
      have hne := h.nonempty stmts (by simp [head])
      cases stmts with
      | nil => contradiction
      | cons stmt stmts =>
          refine h.storer rfl rfl (.inl rfl) ?_ ?_ rfl woken
            (List.subset_append_left _ _) ?_
          · rintro _ _ _ ⟨⟩
            simp
          · simp [onResult]
          · rw [head]
            exact List.subset_cons_self _ _
  | waits => simp at result

theorem step {a : Action conf} (h : s.Placed connects)
    (hstep : s.step connects a = some s') : s'.Placed connects := by
  cases effect_of_step hstep with
  | main s' moves => exact h.main moves
  | startParse p was =>
      exact h.runningParser (h.of_running (p := p) (by simp [was])) rfl rfl rfl
  | fetch p was =>
      obtain ⟨⟨-, hrunning⟩, -⟩ := Option.ite_none_right_eq_some.mp hstep
      exact h.runningParser hrunning rfl rfl rfl
  | skipUnit p was =>
      exact h.runningParser (h.of_running (p := p) (by simp [was])) rfl rfl rfl
  | addStmts p task after fuel wake stmts queue was batch moves =>
      exact h.addStmts (ParseTask.stmts_ne_nil batch) moves
  | startStore c was added =>
      refine h.runningStorer (c := c) (by simp [was]) (by simp [was]) rfl rfl
        rfl ?_ ?_
      · split <;> simp
      · intro hconnects
        simp [hconnects]
  | waits c wake queue was moves same =>
      exact h.waits (IndexQueue.of_getStmts moves).2 same
  | gets c wake queue res was moves result =>
      exact h.gets (IndexQueue.of_getStmts moves).2 result
  | dml c reply ticket n stmts stmt was head =>
      refine h.runningStorer (c := c) (by simp [was]) (by simp [was]) rfl rfl
        rfl ?_ ?_
      · split
        · simp
        · rintro _ _ _ ⟨⟩
          omega
      · split <;> simp
  | wait w queue moves => exact h.wait moves

end Placed

/-! ## The queue is served -/

/-- On the way to `get_stmts`, with a connection. -/
def Serves (s : State conf) (c : conf.Storer) : Prop :=
  (s.storers c).Busy ∧
    (s.queue.consumers c = .running ∨ s.queue.consumers c = .notified)

def Served (s : State conf) : Prop :=
  s.queue.stmts ≠ [] → ∀ c, s.queue.consumers c = .waiting →
    ∃ d, s.Serves d

variable {s s' : State conf}

theorem Serves.of_notified (h : s.Placed connects) {c : conf.Storer}
    (hc : s.queue.consumers c = .notified) : s.Serves c := by
  refine ⟨?_, .inr hc⟩
  rcases h.consumers c with hrunning | hwaits | hdone
  · simp [hrunning] at hc
  · rw [hwaits.2]
    trivial
  · simp [hdone] at hc

theorem Served.keep (h : s.Served)
    (hstmts : s'.queue.stmts = s.queue.stmts)
    (hconsumers : s'.queue.consumers = s.queue.consumers)
    (hbusy : ∀ c, (s.storers c).Busy → (s'.storers c).Busy) : s'.Served := by
  intro hne c hc
  rw [hstmts] at hne
  rw [hconsumers] at hc
  obtain ⟨d, hd, hphase⟩ := h hne c hc
  exact ⟨d, hbusy d hd, by rwa [hconsumers]⟩

theorem busy_update {c : conf.Storer} {phase : StorerPhase}
    (hphase : (s.storers c).Busy → phase.Busy) (d : conf.Storer)
    (hd : (s.storers d).Busy) :
    (Function.update s.storers c phase d).Busy := by
  by_cases hdc : d = c
  · subst hdc
    simpa using hphase hd
  · simpa [hdc] using hd

theorem Served.wait (h : s.Served) (hplaced : s.Placed connects)
    (hblocking : ∀ c, s.queue.consumers c = .blocking → s.queue.stmts = [])
    {w : Wait conf} {queue : IndexQueue conf.Parser conf.Storer}
    (hmoves : s.queue.step w.action = some queue) :
    ({ s with queue := queue } : State conf).Served := by
  have hplaced' := hplaced.wait hmoves
  cases Wait.effect_of_step hmoves with
  | blocksConsumer c was => exact fun hne => absurd (hblocking c was) hne
  | wakesConsumer c was =>
      exact fun _ _ _ => ⟨c, .of_notified hplaced' (by simp)⟩
  | resumes => exact h.keep rfl rfl fun _ => id
  | blocksProducer => exact h.keep rfl rfl fun _ => id
  | wakesProducer => exact h.keep rfl rfl fun _ => id

theorem Served.step {a : Action conf} (h : s.Served)
    (hplaced : s.Placed connects)
    (hblocking : ∀ c, s.queue.consumers c = .blocking → s.queue.stmts = [])
    (hstep : s.step connects a = some s') : s'.Served := by
  have hplaced' := hplaced.step hstep
  cases effect_of_step hstep with
  | main s' moves =>
      cases moves with
      | storeStop was queue moves =>
          cases moves
          exact h.keep rfl rfl fun _ => id
      | notifyStop was queue moves =>
          simp only [IndexQueue.step, Option.ite_none_right_eq_some,
            Option.some.injEq] at moves
          obtain ⟨-, rfl⟩ := moves
          exact fun _ c hc => absurd hc (notifyAll_ne_waiting _ c)
      | _ => exact h.keep rfl rfl fun _ => id
  | addStmts p task after fuel wake stmts queue was batch moves =>
      obtain ⟨-, consumers, phase, hwoken, -, rfl⟩ :=
        IndexQueue.of_addStmts moves
      intro _ c hc
      cases wake with
      | none =>
          simp only [notifyOne, Option.ite_none_right_eq_some,
            Option.some.injEq] at hwoken
          obtain ⟨hnone, rfl⟩ := hwoken
          exact absurd hc (hnone c)
      | some d =>
          simp only [notifyOne, Option.ite_none_right_eq_some,
            Option.some.injEq] at hwoken
          obtain ⟨-, rfl⟩ := hwoken
          exact ⟨d, .of_notified hplaced' (by simp)⟩
  | startStore c was added =>
      exact h.keep rfl rfl (busy_update (by simp [was, StorerPhase.Busy]))
  | waits c wake queue was moves same =>
      obtain ⟨-, hgets⟩ := IndexQueue.of_getStmts moves
      cases hgets with
      | nullptr => simp at same
      | pop => simp at same
      | waits breaks =>
          exact fun hne => absurd (consumerBreakCond_eq_false breaks).1 hne
  | gets c wake queue res was moves result =>
      obtain ⟨-, hgets⟩ := IndexQueue.of_getStmts moves
      cases hgets with
      | nullptr drained stop => exact fun hne => absurd drained hne
      | pop stmts rest numStmts lowerTimes producers head woken =>
          obtain rfl : res = some stmts := by simpa using result.symm
          have hne := hplaced.nonempty stmts (by simp [head])
          refine fun _ _ _ => ⟨c, ?_, .inl ?_⟩
          · simp [setStorer, onResult, hne, StorerPhase.Busy]
          · simp [hne]
      | waits => simp at result
  | dml c reply ticket n stmts stmt was head =>
      refine h.keep rfl rfl (busy_update fun _ => ?_)
      split <;> trivial
  | wait w queue moves => exact h.wait hplaced hblocking moves
  | startParse => exact h.keep rfl rfl fun _ => id
  | fetch => exact h.keep rfl rfl fun _ => id
  | skipUnit => exact h.keep rfl rfl fun _ => id

end State

end Pview.Shutdown
