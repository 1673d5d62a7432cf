import Pview.Shutdown.Placement
import Pview.Shutdown.Termination

/-!
# Indexing comes to an end

The main thread waits three times: for the parse tasks, for the queue to become
short and for the store tasks.  A parse task may itself wait for the queue to
become short, and a task in the pool waits for a worker.  One store task with a
connection, and one worker more than there are initial store tasks, are enough
for none of this to last: some task, some worker or the main thread can always
go on.
-/

namespace Pview.Shutdown

open Pview.Foundation
open Pview.Foundation.CondVar
open Pview.Indexer
open Pview.MySQL
open Pview.Queue
open Pview.Tasks (ThreadPool PoolAction Job threadPool globalPoolSize
  determineDop determineDop_bounds)

variable {conf : Config} {connects : conf.Connects}
  {outcomes : Nat → Option ParseTask} {n : Nat}

namespace Pooled

variable {s : Pooled conf n}

/-! ## Somebody can go on -/

def GoesOn (connects : conf.Connects) (outcomes : Nat → Option ParseTask)
    (s : Pooled conf n) : Prop :=
  ∃ s', (pooledIndexing conf connects outcomes n).Follows Proper s' s

def Busy (s : Pooled conf n) : Prop :=
  ∀ w, ∃ task ticket, s.pool.jobs w = .running task ticket ∧
    ¬s.run.Finished task

theorem GoesOn.of_step {a : PooledAction conf n} (hproper : s.Proper a)
    (hstep : (s.step connects outcomes a).isSome) :
    s.GoesOn connects outcomes :=
  have ⟨s', h⟩ := Option.isSome_iff_exists.mp hstep
  ⟨s', a, hproper, h⟩

/-! ### On the queue -/

theorem GoesOn.of_held (hheld : ¬s.run.queue.MutexFree) :
    s.GoesOn connects outcomes := by
  rcases IndexQueue.exists_block hheld with ⟨p, hp⟩ | ⟨c, hc⟩
  · apply of_step (a := .wait (.blockProducer p)) trivial
    simp [step, moveRun, State.step, Wait.action, IndexQueue.step, hp]
  · apply of_step (a := .wait (.blockConsumer c)) trivial
    simp [step, moveRun, State.step, Wait.action, IndexQueue.step, hc]

theorem GoesOn.of_serves (h : s.Inv connects) (hfree : s.run.queue.MutexFree)
    {c : conf.Storer} (hserves : s.run.Serves c) :
    s.GoesOn connects outcomes := by
  obtain ⟨hbusy, hfrom⟩ := hserves
  cases hphase : s.run.storers c with
  | notStarted => simp [hphase, StorerPhase.Busy] at hbusy
  | finished => simp [hphase, StorerPhase.Busy] at hbusy
  | getting =>
      obtain ⟨wake, queue, hget⟩ := IndexQueue.exists_getStmts hfree hfrom
      apply of_step (a := .getStmts c wake) trivial
      simp [step, moveRun, State.getStmts, hphase, hget]
  | storing ticket k stmts =>
      have hk := h.going.placed.storing c ticket k stmts hphase
      apply of_step (a := .dml c ⟨true, fun _ => .success⟩) trivial
      simp [step, moveRun, State.dml, hphase, hk]

theorem GoesOn.of_stopped [Nonempty conf.Storer] (h : s.Inv connects)
    (hfree : s.run.queue.MutexFree) (hstopped : s.run.queue.stopped = true)
    {c : conf.Storer} (hstarted : s.run.storers c ≠ .notStarted)
    (hc : s.run.storers c ≠ .finished) : s.GoesOn connects outcomes := by
  have hbusy : (s.run.storers c).Busy := by
    cases hphase : s.run.storers c <;> simp_all [StorerPhase.Busy]
  refine of_serves h hfree (c := c) ⟨hbusy, ?_⟩
  have hawake := (h.going.wake.stop.stopped hstopped).2.2 c
  rcases h.going.placed.consumers c with hrunning | ⟨hwaits, -⟩ | ⟨hdone, -⟩
  · exact .inl hrunning
  · rcases hwaits with hblocking | hwaiting | hnotified
    · exact absurd hblocking hawake.2
    · exact absurd hwaiting hawake.1
    · exact .inr hnotified
  · exact absurd hdone hc

/-- With batches queued it is enough that one store task that has started has a
connection. -/
theorem GoesOn.of_stmts (h : s.Inv connects) (hfree : s.run.queue.MutexFree)
    {c : conf.Storer} (hconnects : connects.store c = true)
    (hstarted : s.run.storers c ≠ .notStarted) (hne : s.run.queue.stmts ≠ []) :
    s.GoesOn connects outcomes := by
  have hplaced := h.going.placed
  cases hphase : s.run.storers c with
  | notStarted => exact absurd hphase hstarted
  | finished =>
      have hnull := hplaced.nullptr c hconnects hphase
      exact absurd (IndexQueue.Drained.of_reachWhere h.going.stopped hnull).2
        hne
  | storing ticket k stmts =>
      have hrunning := hplaced.consumer_running (c := c) (by simp [hphase])
        (by simp [hphase])
      refine of_serves h hfree ⟨?_, .inl hrunning⟩
      simp [hphase, StorerPhase.Busy]
  | getting =>
      have hbusy : (s.run.storers c).Busy := by simp [hphase, StorerPhase.Busy]
      rcases hplaced.consumers c with hrunning | ⟨hwaits, -⟩ | ⟨hdone, -⟩
      · exact of_serves h hfree ⟨hbusy, .inl hrunning⟩
      · rcases hwaits with hblocking | hwaiting | hnotified
        · exact absurd hblocking (hfree.2 c)
        · obtain ⟨d, hserves⟩ := h.going.served hne c hwaiting
          exact of_serves h hfree hserves
        · exact of_serves h hfree ⟨hbusy, .inr hnotified⟩
      · rw [hphase] at hdone
        contradiction

/-! ### A parse task -/

theorem exists_addStmts (h : s.Inv connects) (hfree : s.run.queue.MutexFree)
    (hbatch : batchLimit conf.flags.batchSize ≠ 0) {p : conf.Parser}
    (hp : s.run.parsers p = .indexing) (task : ParseTask) :
    ∃ fuel wake, (s.run.addStmts p task fuel wake).isSome := by
  obtain ⟨defGroups, callGroups, hdefs, hcalls⟩ :=
    task.exists_cuts (.inl hbatch)
  obtain ⟨bound, hreturns⟩ :=
    task.sendIndexedResult_of_cut conf.names (.inl hbatch) hdefs hcalls
  have hrunning := h.going.placed.of_running (p := p) (by simp [hp])
  obtain ⟨wake, queue, hadd⟩ := IndexQueue.exists_addStmts hfree hrunning
    ((task.batch defGroups callGroups).map (Statement.text conf.names))
  refine ⟨bound, wake, ?_⟩
  simp [State.addStmts, hp, hreturns bound le_rfl, hadd]

theorem exists_finishUnit (h : s.Inv connects) (hfree : s.run.queue.MutexFree)
    (hbatch : batchLimit conf.flags.batchSize ≠ 0) {p : conf.Parser}
    (hp : s.run.parsers p = .indexing) : ∃ fuel wake,
      (s.step connects outcomes (.finishUnit p fuel wake)).isSome := by
  cases hunit : s.units p with
  | none =>
      refine ⟨0, none, ?_⟩
      simp [step, finishUnit, hunit, moveRun, State.skipUnit, hp]
  | some task =>
      obtain ⟨fuel, wake, hadd⟩ := exists_addStmts h hfree hbatch hp task
      refine ⟨fuel, wake, ?_⟩
      simpa [step, finishUnit, hunit, moveRun] using hadd

theorem GoesOn.of_parseTask [Nonempty conf.Storer] (h : s.Inv connects)
    (hfree : s.run.queue.MutexFree)
    (hbatch : batchLimit conf.flags.batchSize ≠ 0) {p : conf.Parser}
    (hstarted : s.run.parsers p ≠ .notStarted)
    (hp : s.run.parsers p ≠ .finished) :
    s.GoesOn connects outcomes ∨ s.run.queue.stmts ≠ [] := by
  cases hphase : s.run.parsers p with
  | finished => exact absurd hphase hp
  | notStarted => exact absurd hphase hstarted
  | indexing =>
      obtain ⟨fuel, wake, hstep⟩ := exists_finishUnit h hfree hbatch hphase
      exact .inl (of_step (a := .finishUnit p fuel wake) trivial hstep)
  | fetching =>
      rcases h.going.placed.producers p with hrunning | ⟨hwaits, -⟩
      · left
        apply of_step (a := .fetch p) trivial
        simp [step, State.fetch, hphase, hrunning]
      · rcases hwaits with hblocking | hwaiting | hnotified
        · exact absurd hblocking (hfree.1 p)
        · right
          have hmany := h.going.wake.producers.waiting p hwaiting
          intro hempty
          simp [hempty, kProducerWaitExitThreshold] at hmany
        · left
          apply of_step (a := .wait (.resumeProducer p)) trivial
          simp [step, moveRun, State.step, Wait.action, IndexQueue.step,
            IndexQueue.resumeProducer, hfree, hnotified]

/-! ### In the pool -/

theorem GoesOn.of_pool_held (hheld : ¬s.pool.MutexFree) :
    s.GoesOn connects outcomes := by
  simp only [ThreadPool.MutexFree, not_forall, not_not] at hheld
  obtain ⟨w, hw⟩ := hheld
  apply of_step (a := .block w) trivial
  simp [step, movePool, ThreadPool.step, hw]

theorem GoesOn.of_adding (hadding : s.pool.adding ≠ 0) :
    s.GoesOn connects outcomes := by
  obtain ⟨wake, workers, hwoken⟩ := exists_notifyOne s.pool.workers
  apply of_step (a := .notifyOne wake) trivial
  simp [step, movePool, ThreadPool.step, Nat.pos_of_ne_zero hadding, hwoken]

theorem GoesOn.of_finished {w : Fin n} {task : PoolTask conf} {ticket : Nat}
    (hjob : s.pool.jobs w = .running task ticket)
    (hfinished : s.run.Finished task) : s.GoesOn connects outcomes := by
  apply of_step (a := .finish w) trivial
  simp [step, finish, movePool, ThreadPool.step, hjob, hfinished]

theorem startTask_isSome (connects : conf.Connects) {run : State conf}
    {task : PoolTask conf} (hadded : run.HasAdded task)
    (hnot : run.NotStarted task) :
    (run.startTask connects task).isSome := by
  cases task with
  | inl p =>
      have hand : run.parsers p = .notStarted ∧ p.val < run.parseTasks :=
        ⟨hnot, hadded⟩
      simp [State.startTask, State.startParse, hand]
  | inr c =>
      have hand : run.storers c = .notStarted ∧ run.Added c := ⟨hnot, hadded⟩
      simp [State.startTask, State.startStore, hand]

theorem Inv.taken_of_job (h : s.Inv connects) {w : Fin n}
    {task : PoolTask conf} {ticket : Nat}
    (hjob : (s.pool.jobs w).task = some (task, ticket)) :
    s.pool.taken[ticket]? = some task :=
  (ThreadPool.HandsInv.of_reachable h.pool.reachable).taken w task ticket hjob

theorem Inv.order (h : s.Inv connects) :
    s.pool.taken ++ s.pool.tasks = s.pool.added :=
  (ThreadPool.DrainInv.of_reachable h.pool.reachable).order

theorem Inv.added_of_job (h : s.Inv connects) {w : Fin n}
    {task : PoolTask conf} {ticket : Nat}
    (hjob : (s.pool.jobs w).task = some (task, ticket)) :
    s.pool.added[ticket]? = some task :=
  ThreadPool.added_of_job h.pool.reachable hjob

theorem Inv.hasAdded_of_job (h : s.Inv connects) {w : Fin n}
    {task : PoolTask conf} {ticket : Nat}
    (hjob : (s.pool.jobs w).task = some (task, ticket)) :
    s.run.HasAdded task :=
  h.listed.hasAdded_of_job h.pool.reachable hjob

theorem GoesOn.of_holding (h : s.Inv connects) {w : Fin n}
    {task : PoolTask conf} {ticket : Nat}
    (hjob : s.pool.jobs w = .holding task ticket) :
    s.GoesOn connects outcomes := by
  have hadded := h.hasAdded_of_job (w := w) (by rw [hjob]; rfl)
  have hstart := startTask_isSome connects hadded
    (h.handed.held w task ticket hjob)
  apply of_step (a := .start w) trivial
  simpa [step, start, movePool, moveRun, ThreadPool.step, hjob] using hstart

theorem GoesOn.of_notStarted (h : s.Inv connects) (task : PoolTask conf)
    (hadded : s.run.HasAdded task) (hnot : s.run.NotStarted task) :
    s.GoesOn connects outcomes ∨ task ∈ s.pool.tasks ∧ s.Busy := by
  by_cases hfree : s.pool.MutexFree
  swap
  · exact .inl (.of_pool_held hfree)
  by_cases hadding : s.pool.adding = 0
  swap
  · exact .inl (.of_adding hadding)
  rcases h.handed.waiting task hadded hnot with hqueued | ⟨w, ticket, hw⟩
  swap
  · exact .inl (.of_holding h hw)
  by_cases hbusy : s.Busy
  · exact .inr ⟨hqueued, hbusy⟩
  left
  rcases ThreadPool.exists_lock_or_busy h.pool.reachable h.live hfree hadding
    (List.ne_nil_of_mem hqueued) with ⟨w, hw⟩ | hall
  · apply of_step (a := .lock w) trivial
    simpa [step, movePool] using hw
  · simp only [Busy, not_forall] at hbusy
    obtain ⟨w, hw⟩ := hbusy
    cases hjob : s.pool.jobs w with
    | idle => exact absurd hjob (hall w)
    | holding other ticket => exact .of_holding h hjob
    | running other ticket =>
        refine .of_finished hjob (by_contra fun hunfinished => ?_)
        exact hw ⟨other, ticket, hjob, hunfinished⟩

/-! ## A worker for the parse tasks -/

theorem Inv.index_of_store (h : s.Inv connects) {i : Fin conf.numStoreTasks}
    {k : Nat} (hk : s.pool.added[k]? = some (.inr (.inl i))) : k = i.val := by
  have hadded := (h.listed.mem_added _).1 (List.mem_of_getElem? hk)
  have hi := h.listed.stores i hadded
  exact (List.getElem?_inj (List.getElem?_eq_some_iff.mp hk).1
    h.listed.nodup).mp (hk.trans hi.symm)

theorem Inv.exists_later (h : s.Inv connects) (hbusy : s.Busy) {m : Nat}
    (hm : m < n) : ∃ w task ticket, s.pool.jobs w = .running task ticket ∧
      ¬s.run.Finished task ∧ m ≤ ticket := by
  by_contra hnone
  choose task ticket hjob hunfinished using hbusy
  have hlt : ∀ w, ticket w < m := by
    intro w
    by_contra hge
    exact hnone ⟨w, _, _, hjob w, hunfinished w, Nat.not_lt.mp hge⟩
  have hle :=
    (ThreadPool.HandsInv.of_reachable h.pool.reachable).le_of_tickets_lt
      (fun w => by rw [hjob w]; rfl) hlt
  omega

/-- No initial store task waits for a worker while the others are busy. -/
theorem Inv.not_busy (h : s.Inv connects) (hworkers : conf.numStoreTasks < n)
    {i : Fin conf.numStoreTasks} (hqueued : .inr (.inl i) ∈ s.pool.tasks) :
    ¬s.Busy := by
  intro hbusy
  obtain ⟨w, task, ticket, hjob, -, hlater⟩ := h.exists_later hbusy hworkers
  have htaken := h.taken_of_job (w := w) (by rw [hjob]; rfl)
  have hticket := (List.getElem?_eq_some_iff.mp htaken).1
  obtain ⟨k, hk⟩ := List.mem_iff_getElem?.mp hqueued
  have hindex : s.pool.taken.length + k = i.val := by
    apply h.index_of_store
    rw [← h.order, List.getElem?_append_right (Nat.le_add_right _ _),
      Nat.add_sub_cancel_left, hk]
  omega

theorem GoesOn.of_store (h : s.Inv connects)
    (hworkers : conf.numStoreTasks < n) {i : Fin conf.numStoreTasks}
    (hadded : i.val < s.run.storeTasks)
    (hnot : s.run.storers (.inl i) = .notStarted) :
    s.GoesOn connects outcomes := by
  rcases GoesOn.of_notStarted h (.inr (.inl i)) hadded hnot with
    hgoes | ⟨hqueued, hbusy⟩
  · exact hgoes
  · exact absurd hbusy (h.not_busy hworkers hqueued)

/-- While there are no extra store tasks, a parse task is among those that keep
all workers busy. -/
theorem Inv.exists_parseTask (h : s.Inv connects)
    (hworkers : conf.numStoreTasks < n) (hrank : 5 ≤ s.run.main.rank)
    (hbusy : s.Busy) :
    ∃ p, s.run.parsers p ≠ .notStarted ∧ s.run.parsers p ≠ .finished := by
  obtain ⟨w, task, ticket, hjob, hunfinished, hlater⟩ :=
    h.exists_later hbusy hworkers
  have htask : (s.pool.jobs w).task = some (task, ticket) := by rw [hjob]; rfl
  rcases task with p | i | i
  · exact ⟨p, h.handed.started w _ ticket hjob, hunfinished⟩
  · have hindex := h.index_of_store (h.added_of_job htask)
    omega
  · have hextra : i.val < s.run.extraTasks := h.hasAdded_of_job htask
    simp [h.listed.extras hrank] at hextra

/-! ## The main thread -/

theorem GoesOn.of_main (h : s.Inv connects) (hproper : s.Proper .main)
    (hstep : s.run.stepMain.isSome) : s.GoesOn connects outcomes := by
  by_cases hadding : s.pool.adding = 0
  swap
  · exact .of_adding hadding
  by_cases hfree : s.pool.MutexFree
  swap
  · exact .of_pool_held hfree
  apply of_step (a := .main) hproper
  cases hnext : s.run.nextTask with
  | none => simpa [step, stepMain, hadding, hnext, moveRun] using hstep
  | some task =>
      simpa [step, stepMain, hadding, hnext, moveRun, movePool, ThreadPool.step,
        ThreadPool.emplace, hfree, h.live] using hstep

theorem GoesOn.of_unparsed [Nonempty conf.Storer] (h : s.Inv connects)
    (hfree : s.run.queue.MutexFree)
    (hbatch : batchLimit conf.flags.batchSize ≠ 0)
    (hworkers : conf.numStoreTasks < n) (was : s.run.main = .joinParseTasks)
    {p : conf.Parser} (hp : s.run.parsers p ≠ .finished) :
    s.GoesOn connects outcomes ∨ s.run.queue.stmts ≠ [] := by
  by_cases hstarted : s.run.parsers p = .notStarted
  swap
  · exact GoesOn.of_parseTask h hfree hbatch hstarted hp
  have hadded : p.val < s.run.parseTasks :=
    Nat.lt_of_lt_of_le p.isLt
      (h.going.underway.parseTasks (by simp [was, MainPhase.rank]))
  rcases GoesOn.of_notStarted h (.inl p) hadded hstarted with
    hgoes | ⟨-, hbusy⟩
  · exact .inl hgoes
  · obtain ⟨q, hq, hunfinished⟩ := h.exists_parseTask hworkers
      (by simp [was, MainPhase.rank]) hbusy
    exact GoesOn.of_parseTask h hfree hbatch hq hunfinished

theorem GoesOn.of_unstored [Nonempty conf.Storer] (h : s.Inv connects)
    (hfree : s.run.queue.MutexFree) (hworkers : 0 < n)
    (hparsed : s.run.main.Parsed) (hstopped : s.run.queue.stopped = true)
    {c : conf.Storer} (hadded : s.run.Added c)
    (hc : s.run.storers c ≠ .finished) : s.GoesOn connects outcomes := by
  by_cases hstarted : s.run.storers c = .notStarted
  swap
  · exact .of_stopped h hfree hstopped hstarted hc
  rcases GoesOn.of_notStarted h (.inr c) hadded hstarted with
    hgoes | ⟨-, hbusy⟩
  · exact hgoes
  · obtain ⟨task, ticket, hjob, hunfinished⟩ := hbusy ⟨0, hworkers⟩
    cases task with
    | inl p => exact absurd (h.going.joined.parsers hparsed p) hunfinished
    | inr d =>
        exact .of_stopped h hfree hstopped
          (h.handed.started _ _ _ hjob) hunfinished

theorem Inv.stmts_ne_nil (h : s.Inv connects)
    (hmany : KB 1 ≤ s.run.queue.numStmts) : s.run.queue.stmts ≠ [] := by
  intro hempty
  rw [(IndexQueue.Fifo.of_reachable h.going.stopped.reachable).count,
    hempty] at hmany
  simp [KB] at hmany

theorem Inv.added_of_rank (h : s.Inv connects) (hrank : s.run.main.rank ≤ 9)
    (i : Fin conf.numStoreTasks) : s.run.Added (.inl i) :=
  Nat.lt_of_lt_of_le i.isLt (h.going.underway.storeTasks hrank)

theorem GoesOn.of_joinParseTasks [Nonempty conf.Storer] (h : s.Inv connects)
    (hfree : s.run.queue.MutexFree)
    (hbatch : batchLimit conf.flags.batchSize ≠ 0)
    (hworkers : conf.numStoreTasks < n)
    (was : s.run.main = .joinParseTasks) :
    s.GoesOn connects outcomes ∨ s.run.queue.stmts ≠ [] := by
  by_cases hall : ∀ p, s.run.parsers p = .finished
  · refine .inl (.of_main h (by simp [Proper, was]) ?_)
    simp [State.stepMain, was, hall]
  · obtain ⟨p, hp⟩ := not_forall.mp hall
    exact GoesOn.of_unparsed h hfree hbatch hworkers was hp

theorem GoesOn.of_joinStoreTasks [Nonempty conf.Storer] (h : s.Inv connects)
    (hfree : s.run.queue.MutexFree) (hworkers : 0 < n)
    (was : s.run.main = .joinStoreTasks) : s.GoesOn connects outcomes := by
  by_cases hall : ∀ i, s.run.storers (.inl i) = .finished
  · refine .of_main h (by simp [Proper, was]) ?_
    simp [State.stepMain, was, hall]
  · obtain ⟨i, hi⟩ := not_forall.mp hall
    exact .of_unstored h hfree hworkers (by simp [was, MainPhase.Parsed])
      (h.going.underway.stopped (by simp [was, MainPhase.rank]))
      (h.added_of_rank (by simp [was, MainPhase.rank]) i) hi

theorem GoesOn.of_joinExtraTasks [Nonempty conf.Storer] (h : s.Inv connects)
    (hfree : s.run.queue.MutexFree) (hworkers : 0 < n)
    (was : s.run.main = .joinExtraTasks) : s.GoesOn connects outcomes := by
  by_cases hall : ∀ i : Fin conf.numExtraTasks,
      i.val < s.run.extraTasks → s.run.storers (.inr i) = .finished
  · refine .of_main h (by simp [Proper, was]) ?_
    simpa [State.stepMain, was] using hall
  · simp only [not_forall] at hall
    obtain ⟨i, hadded, hi⟩ := hall
    exact .of_unstored h hfree hworkers (by simp [was, MainPhase.Parsed])
      (h.going.underway.stopped (by simp [was, MainPhase.rank]))
      (show s.run.Added (.inr i) from hadded) hi

theorem Inv.goesOn (h : s.Inv connects) {i : Fin conf.numStoreTasks}
    (hi : connects.store (.inl i) = true)
    (hbatch : batchLimit conf.flags.batchSize ≠ 0)
    (hworkers : conf.numStoreTasks < n) (hmain : s.run.main ≠ .returned) :
    s.GoesOn connects outcomes := by
  have : Nonempty conf.Storer := ⟨.inl i⟩
  by_cases hfree : s.run.queue.MutexFree
  swap
  · exact .of_held hfree
  have hserved : s.run.main.rank ≤ 9 → s.run.queue.stmts ≠ [] →
      s.GoesOn connects outcomes := by
    intro hrank hne
    by_cases hnot : s.run.storers (.inl i) = .notStarted
    · exact .of_store h hworkers (h.added_of_rank hrank i) hnot
    · exact .of_stmts h hfree hi hnot hne
  cases was : s.run.main with
  | returned => exact absurd was hmain
  | start =>
      refine .of_main h (by simp [Proper, was]) ?_
      simp [State.stepMain, was, Nat.zero_lt_of_lt i.isLt, Nat.succ_le_iff]
  | addStoreTasks =>
      refine .of_main h (by simp [Proper, was]) ?_
      simp only [State.stepMain, was]
      split <;> rfl
  | addParseTasks =>
      refine .of_main h (by simp [Proper, was]) ?_
      simp only [State.stepMain, was]
      split <;> rfl
  | joinParseTasks =>
      rcases GoesOn.of_joinParseTasks h hfree hbatch hworkers was with
        hgoes | hne
      · exact hgoes
      · exact hserved (by simp [was, MainPhase.rank]) hne
  | storeStop =>
      refine .of_main h (by simp [Proper, was]) ?_
      simp [State.stepMain, was, IndexQueue.step]
  | notifyStop =>
      refine .of_main h (by simp [Proper, was]) ?_
      simp [State.stepMain, was, IndexQueue.step, hfree,
        h.going.underway.stopping was]
  | checkNumStmts =>
      refine .of_main h (by simp [Proper, was]) ?_
      simp only [State.stepMain, was]
      split <;> rfl
  | addExtraTasks =>
      refine .of_main h (by simp [Proper, was]) ?_
      simp only [State.stepMain, was]
      split <;> rfl
  | pollNumStmts =>
      by_cases hmany : KB 1 ≤ s.run.queue.numStmts
      · exact hserved (by simp [was, MainPhase.rank]) (h.stmts_ne_nil hmany)
      · refine .of_main h (fun _ => by omega) ?_
        simp [State.stepMain, was, hmany]
  | joinStoreTasks =>
      exact .of_joinStoreTasks h hfree (Nat.zero_lt_of_lt hworkers) was
  | joinExtraTasks =>
      exact .of_joinExtraTasks h hfree (Nat.zero_lt_of_lt hworkers) was

/-- Whatever a unit has come to and whatever the server answers, the task goes
on. -/
structure Unhindered (connects : conf.Connects)
    (outcomes : Nat → Option ParseTask) (s : Pooled conf n) : Prop where
  finishes : s.run.queue.MutexFree → ∀ p, s.run.parsers p = .indexing →
    ∃ fuel wake, (s.step connects outcomes (.finishUnit p fuel wake)).isSome
  sends : ∀ c reply ticket k stmts,
    s.run.storers c = .storing ticket k stmts →
      (s.step connects outcomes (.dml c reply)).isSome

theorem Inv.unhindered (h : s.Inv connects)
    (hbatch : batchLimit conf.flags.batchSize ≠ 0) :
    s.Unhindered connects outcomes where
  finishes hfree p hp := exists_finishUnit h hfree hbatch hp
  sends c reply ticket k stmts hc := by
    have hk := h.going.placed.storing c ticket k stmts hc
    simp [Pooled.step, moveRun, State.dml, hc, hk]

end Pooled

/-- The numbers of `do_main` leave a worker for the parse tasks. -/
theorem numStoreTasks_lt_globalPoolSize {hardwareConcurrency : UInt32}
    (h : 3 ≤ globalPoolSize hardwareConcurrency) (flagsMaxDop : UInt64) :
    (determineDop hardwareConcurrency flagsMaxDop).numStoreTasks <
      globalPoolSize hardwareConcurrency := by
  obtain ⟨hmin, hmax, hstore, -⟩ :=
    determineDop_bounds hardwareConcurrency flagsMaxDop
  rw [Nat.max_eq_right h] at hmax
  omega

/--
If one of the initial store tasks has a connection, the batch size is not zero
and the pool has more workers than there are initial store tasks, then no run
goes on for ever, but for the sleeps of the main thread and spurious wake-ups;
something else is possible until `do_indexing` returns, and nothing that the
units come to or the server answers is ever in the way; and from wherever a run
has come it can be brought to the return.
-/
theorem doIndexing_completes (outcomes : Nat → Option ParseTask)
    {i : Fin conf.numStoreTasks} (hi : connects.store (.inl i) = true)
    (hbatch : batchLimit conf.flags.batchSize ≠ 0)
    (hworkers : conf.numStoreTasks < n) :
    (pooledIndexing conf connects outcomes n).Terminates Pooled.Proper ∧
    ∀ s, (pooledIndexing conf connects outcomes n).Reachable s →
      (s.run.main ≠ .returned → ∃ s',
        (pooledIndexing conf connects outcomes n).Follows Pooled.Proper s' s) ∧
      s.Unhindered connects outcomes ∧
      ∃ schedule s',
        (pooledIndexing conf connects outcomes n).run s schedule = some s' ∧
          s'.run.main = .returned := by
  have : Nonempty conf.Storer := ⟨.inl i⟩
  refine ⟨pooledIndexing_terminates, fun s hs => ?_⟩
  have hinv := Pooled.Inv.of_reachable hs
  refine ⟨hinv.goesOn hi hbatch hworkers, hinv.unhindered hbatch, ?_⟩
  exact pooledIndexing_terminates.exists_run
    (I := Pooled.Inv connects) (fun h hstep => h.step hstep)
    (fun s h hmain => h.goesOn hi hbatch hworkers hmain) hinv

/-- The tasks and the pool of a machine with eight cores; one of the two store
tasks has a connection, and every unit comes to an empty batch. -/
theorem doIndexing_completes_eight :
    ∃ (connects : Config.Connects
        ⟨(determineDop 8 0).numParseTasks, (determineDop 8 0).numStoreTasks, 5,
          ⟨"f_1", "d_1", "c_1"⟩, {}⟩) (i : Fin (determineDop 8 0).numStoreTasks),
      connects.store (.inl i) = true ∧
      (pooledIndexing _ connects (fun _ => some ⟨[], [], 0, "main.cc", 1⟩)
        (globalPoolSize 8)).Terminates Pooled.Proper :=
  ⟨⟨fun _ => true, fun c => c == .inl ⟨1, by decide⟩⟩, ⟨1, by decide⟩,
    by decide, (doIndexing_completes _ (i := ⟨1, by decide⟩) (by decide)
      (by decide) (numStoreTasks_lt_globalPoolSize (by decide) 0)).1⟩

end Pview.Shutdown
