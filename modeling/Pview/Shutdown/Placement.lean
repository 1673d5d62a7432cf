import Pview.Shutdown.Underway
import Pview.Shutdown.Pooled

/-!
# Where the tasks are

A task that has been added and not started is in the queue of the pool or in
the hands of a worker.  The initial store tasks come first: while one of them
is in the queue, fewer tasks have been taken than there are store tasks.
-/

namespace Pview.Shutdown

open Pview.Foundation
open Pview.Indexer
open Pview.Queue
open Pview.Tasks (ThreadPool PoolAction Job threadPool)

variable {conf : Config} {connects : conf.Connects} {n : Nat}

namespace State

variable {s s' : State conf}

theorem of_stepMain_quiet (quiet : s.nextTask = none)
    (h : s.stepMain = some s') :
    s'.storeTasks = s.storeTasks ∧ s'.parseTasks = s.parseTasks ∧
      s'.extraTasks = s.extraTasks ∧ s'.main.rank ≤ s.main.rank := by
  unfold stepMain at h
  unfold nextTask at quiet
  split at h
  · rename_i was
    obtain ⟨-, h⟩ := Option.ite_none_right_eq_some.mp h
    cases h
    simp [was, MainPhase.rank]
  · rename_i was
    simp only [was, dite_eq_right_iff, reduceCtorEq, imp_false] at quiet
    rw [if_neg quiet] at h
    cases h
    simp [was, MainPhase.rank]
  · rename_i was
    simp only [was, dite_eq_right_iff, reduceCtorEq, imp_false] at quiet
    rw [if_neg quiet] at h
    cases h
    simp [was, MainPhase.rank]
  · rename_i was
    obtain ⟨-, h⟩ := Option.ite_none_right_eq_some.mp h
    cases h
    simp [was, MainPhase.rank]
  · rename_i was
    obtain ⟨queue, -, rfl⟩ := Option.map_eq_some_iff.mp h
    simp [was, MainPhase.rank]
  · rename_i was
    obtain ⟨queue, -, rfl⟩ := Option.map_eq_some_iff.mp h
    simp [was, MainPhase.rank]
  · rename_i was
    split_ifs at h <;> cases h <;> simp [was, MainPhase.rank]
  · rename_i was
    simp only [was, dite_eq_right_iff, reduceCtorEq, imp_false] at quiet
    rw [if_neg quiet] at h
    cases h
    simp [was, MainPhase.rank]
  · rename_i was
    split_ifs at h <;> cases h <;> simp [was, MainPhase.rank]
  · rename_i was
    obtain ⟨-, h⟩ := Option.ite_none_right_eq_some.mp h
    cases h
    simp [was, MainPhase.rank]
  · rename_i was
    obtain ⟨-, h⟩ := Option.ite_none_right_eq_some.mp h
    cases h
    simp [was, MainPhase.rank]
  · contradiction

inductive Adds (s : State conf) : PoolTask conf → State conf → Prop
  | store (was : s.main = .addStoreTasks)
      (more : s.storeTasks < conf.numStoreTasks) :
      Adds s (.inr (.inl ⟨s.storeTasks, more⟩))
        { s with storeTasks := s.storeTasks + 1 }
  | parse (was : s.main = .addParseTasks)
      (more : s.parseTasks < conf.numParseTasks) :
      Adds s (.inl ⟨s.parseTasks, more⟩)
        { s with parseTasks := s.parseTasks + 1 }
  | extra (was : s.main = .addExtraTasks)
      (more : s.extraTasks < conf.numExtraTasks) :
      Adds s (.inr (.inr ⟨s.extraTasks, more⟩))
        { s with extraTasks := s.extraTasks + 1 }

theorem adds_of_stepMain {task : PoolTask conf}
    (next : s.nextTask = some task) (h : s.stepMain = some s') :
    s.Adds task s' := by
  unfold nextTask at next
  unfold stepMain at h
  split at next
  · rename_i was
    obtain ⟨more, next⟩ := Option.dite_none_right_eq_some.mp next
    cases next
    simp only [was, if_pos more] at h
    cases h
    simpa only [was] using Adds.store was more
  · rename_i was
    obtain ⟨more, next⟩ := Option.dite_none_right_eq_some.mp next
    cases next
    simp only [was, if_pos more] at h
    cases h
    simpa only [was] using Adds.parse was more
  · rename_i was
    obtain ⟨more, next⟩ := Option.dite_none_right_eq_some.mp next
    cases next
    simp only [was, if_pos more] at h
    cases h
    simpa only [was] using Adds.extra was more
  · contradiction

theorem Adds.hasAdded_iff {task : PoolTask conf} (h : s.Adds task s')
    (other : PoolTask conf) :
    s'.HasAdded other ↔ s.HasAdded other ∨ other = task := by
  cases h <;> rcases other with p | i | i <;>
    simp [HasAdded, Added, Fin.ext_iff] <;> omega

theorem Adds.not_hasAdded {task : PoolTask conf} (h : s.Adds task s') :
    ¬s.HasAdded task := by
  cases h <;> simp [HasAdded, Added]

theorem Adds.notStarted_iff {task : PoolTask conf} (h : s.Adds task s')
    (other : PoolTask conf) : s'.NotStarted other ↔ s.NotStarted other := by
  cases h <;> cases other <;> rfl

theorem hasAdded_iff_of_same (hstore : s'.storeTasks = s.storeTasks)
    (hparse : s'.parseTasks = s.parseTasks)
    (hextra : s'.extraTasks = s.extraTasks) (task : PoolTask conf) :
    s'.HasAdded task ↔ s.HasAdded task := by
  rcases task with p | i | i <;>
    simp [HasAdded, Added, hstore, hparse, hextra]

theorem notStarted_iff_of_parseTask {p : conf.Parser} {phase : ParserPhase}
    (hparsers : s'.parsers = Function.update s.parsers p phase)
    (hstorers : s'.storers = s.storers) (was : s.parsers p ≠ .notStarted)
    (hphase : phase ≠ .notStarted) (task : PoolTask conf) :
    s'.NotStarted task ↔ s.NotStarted task := by
  cases task with
  | inl q =>
      by_cases hq : q = p
      · subst hq
        simp [NotStarted, hparsers, was, hphase]
      · simp [NotStarted, hparsers, hq]
  | inr c => simp [NotStarted, hstorers]

theorem notStarted_iff_of_storeTask {c : conf.Storer} {phase : StorerPhase}
    (hstorers : s'.storers = Function.update s.storers c phase)
    (hparsers : s'.parsers = s.parsers) (was : s.storers c ≠ .notStarted)
    (hphase : phase ≠ .notStarted) (task : PoolTask conf) :
    s'.NotStarted task ↔ s.NotStarted task := by
  cases task with
  | inl q => simp [NotStarted, hparsers]
  | inr d =>
      by_cases hd : d = c
      · subst hd
        simp [NotStarted, hstorers, was, hphase]
      · simp [NotStarted, hstorers, hd]

theorem notStarted_iff_of_same (hparsers : s'.parsers = s.parsers)
    (hstorers : s'.storers = s.storers) (task : PoolTask conf) :
    s'.NotStarted task ↔ s.NotStarted task := by
  cases task <;> simp [NotStarted, hparsers, hstorers]

theorem notStarted_iff_of_main (h : s.stepMain = some s')
    (task : PoolTask conf) : s'.NotStarted task ↔ s.NotStarted task := by
  cases mainEffect_of_stepMain h <;> exact notStarted_iff_of_same rfl rfl task

theorem started_of_startTask {task : PoolTask conf}
    (h : s.startTask connects task = some s') : ¬s'.NotStarted task := by
  cases task <;>
  · obtain ⟨-, h⟩ := Option.ite_none_right_eq_some.mp h
    cases h
    simp only [NotStarted, setParser, setStorer, Function.update_self]
    split <;> simp

theorem notStarted_of_startTask {task : PoolTask conf}
    (h : s.startTask connects task = some s') (other : PoolTask conf)
    (hne : other ≠ task) : s'.NotStarted other ↔ s.NotStarted other := by
  cases task <;>
  · obtain ⟨-, h⟩ := Option.ite_none_right_eq_some.mp h
    cases h
    cases other <;> simp_all [NotStarted, setParser, setStorer]

end State

namespace Pooled

variable {outcomes : Nat → Option ParseTask} {s s' : Pooled conf n}

/-! ## What has been added -/

structure Listed (s : Pooled conf n) : Prop where
  nodup : s.pool.added.Nodup
  mem_added : ∀ task, task ∈ s.pool.added ↔ s.run.HasAdded task
  stores : ∀ i : Fin conf.numStoreTasks, i.val < s.run.storeTasks →
    s.pool.added[i.val]? = some (.inr (.inl i))
  filling : 10 ≤ s.run.main.rank → s.pool.added.length = s.run.storeTasks
  extras : 5 ≤ s.run.main.rank → s.run.extraTasks = 0

theorem Listed.initial : (Pooled.initial conf n).Listed where
  nodup := List.nodup_nil
  mem_added task := by
    rcases task with p | i | i <;>
      simp [Pooled.initial, ThreadPool.initial, State.HasAdded, State.Added,
        State.initial]
  stores i hi := by simp [Pooled.initial, State.initial] at hi
  filling _ := rfl
  extras _ := rfl

theorem Listed.keep (h : s.Listed) (hadded : s'.pool.added = s.pool.added)
    (hstore : s'.run.storeTasks = s.run.storeTasks)
    (hparse : s'.run.parseTasks = s.run.parseTasks)
    (hextra : s'.run.extraTasks = s.run.extraTasks)
    (hrank : s'.run.main.rank ≤ s.run.main.rank) : s'.Listed where
  nodup := by
    rw [hadded]
    exact h.nodup
  mem_added task := by
    rw [hadded, h.mem_added]
    exact (State.hasAdded_iff_of_same hstore hparse hextra task).symm
  stores := by
    rw [hadded, hstore]
    exact h.stores
  filling hmain := by
    rw [hadded, hstore]
    exact h.filling (hmain.trans hrank)
  extras hmain := by
    rw [hextra]
    exact h.extras (hmain.trans hrank)

theorem Listed.addTask (h : s.Listed) {task : PoolTask conf}
    {run : State conf} {pool : ThreadPool n (PoolTask conf)}
    (hadds : s.run.Adds task run)
    (hadded : pool.added = s.pool.added ++ [task]) :
    ({ s with run := run, pool := pool } : Pooled conf n).Listed := by
  refine ⟨?_, ?_, ?_, ?_, ?_⟩
  · rw [hadded, List.nodup_append_comm, List.singleton_append, List.nodup_cons]
    exact ⟨fun hmem => hadds.not_hasAdded ((h.mem_added task).1 hmem), h.nodup⟩
  · intro other
    rw [hadded, List.mem_append, List.mem_singleton, h.mem_added,
      hadds.hasAdded_iff]
  · intro i hi
    rw [hadded]
    have hold : i.val < s.run.storeTasks →
        (s.pool.added ++ [task])[i.val]? = some (.inr (.inl i)) := by
      intro hlt
      have hi := h.stores i hlt
      rw [List.getElem?_append_left (List.getElem?_eq_some_iff.mp hi).1, hi]
    cases hadds with
    | store was more =>
        rcases Nat.lt_succ_iff_lt_or_eq.mp hi with hlt | heq
        · exact hold hlt
        · have hlength := h.filling (by rw [was]; decide)
          have hlast : (⟨s.run.storeTasks, more⟩ : Fin conf.numStoreTasks) = i :=
            Fin.ext heq.symm
          have hindex : i.val = s.pool.added.length := heq.trans hlength.symm
          rw [hlast, hindex, List.getElem?_concat_length]
    | parse was more => exact hold hi
    | extra was more => exact hold hi
  · intro hrank
    cases hadds with
    | store was more => simp [hadded, h.filling (by rw [was]; decide)]
    | parse was more => simp [was, MainPhase.rank] at hrank
    | extra was more => simp [was, MainPhase.rank] at hrank
  · intro hrank
    cases hadds with
    | store was more => exact h.extras hrank
    | parse was more => exact h.extras hrank
    | extra was more => simp [was, MainPhase.rank] at hrank

theorem PoolEffect.added_eq {a : PooledAction conf n}
    {pool : ThreadPool n (PoolTask conf)} (h : s.PoolEffect a pool) :
    pool.added = s.pool.added := by
  cases h with
  | notifyOne _ _ moves | lock _ _ moves | block _ _ moves | spurious _ _ moves
  | finish _ _ _ _ _ _ moves =>
      cases ThreadPool.effect_of_step moves <;> rfl

theorem RunEffect.same_tasks {a : PooledAction conf n} {run : State conf}
    (h : s.RunEffect connects a run) :
    run.storeTasks = s.run.storeTasks ∧ run.parseTasks = s.run.parseTasks ∧
      run.extraTasks = s.run.extraTasks ∧
      run.main.rank ≤ s.run.main.rank := by
  cases h with
  | main _ quiet moves => exact State.of_stepMain_quiet quiet moves
  | fetch p _ moves =>
      obtain ⟨-, moves⟩ := Option.ite_none_right_eq_some.mp moves
      cases moves
      exact ⟨rfl, rfl, rfl, le_rfl⟩
  | skipUnit p _ _ _ moves =>
      obtain ⟨-, moves⟩ := Option.ite_none_right_eq_some.mp moves
      cases moves
      exact ⟨rfl, rfl, rfl, le_rfl⟩
  | addStmts p task fuel wake _ moves =>
      obtain ⟨-, moves⟩ := Option.ite_none_right_eq_some.mp moves
      obtain ⟨⟨stmts, after⟩, -, moves⟩ := Option.bind_eq_some_iff.mp moves
      obtain ⟨queue, -, rfl⟩ := Option.map_eq_some_iff.mp moves
      exact ⟨rfl, rfl, rfl, le_rfl⟩
  | getStmts c wake _ moves =>
      obtain ⟨-, moves⟩ := Option.ite_none_right_eq_some.mp moves
      obtain ⟨queue, -, rfl⟩ := Option.map_eq_some_iff.mp moves
      exact ⟨rfl, rfl, rfl, le_rfl⟩
  | dml c reply _ moves =>
      unfold State.dml at moves
      split at moves
      · obtain ⟨stmt, -, rfl⟩ := Option.map_eq_some_iff.mp moves
        exact ⟨rfl, rfl, rfl, le_rfl⟩
      · contradiction
  | wait w _ moves =>
      obtain ⟨queue, -, rfl⟩ := Option.map_eq_some_iff.mp moves
      exact ⟨rfl, rfl, rfl, le_rfl⟩

theorem RunEffect.notStarted_iff {a : PooledAction conf n} {run : State conf}
    (h : s.RunEffect connects a run) (task : PoolTask conf) :
    run.NotStarted task ↔ s.run.NotStarted task := by
  cases h with
  | main _ quiet moves => exact State.notStarted_iff_of_main moves task
  | fetch p _ moves =>
      obtain ⟨⟨was, -⟩, moves⟩ := Option.ite_none_right_eq_some.mp moves
      cases moves
      apply State.notStarted_iff_of_parseTask (p := p)
      · rfl
      · rfl
      · simp [was]
      · split <;> simp
  | skipUnit p _ _ _ moves =>
      obtain ⟨was, moves⟩ := Option.ite_none_right_eq_some.mp moves
      cases moves
      apply State.notStarted_iff_of_parseTask (p := p)
      · rfl
      · rfl
      · simp [was]
      · simp
  | addStmts p unit fuel wake _ moves =>
      obtain ⟨was, moves⟩ := Option.ite_none_right_eq_some.mp moves
      obtain ⟨⟨stmts, after⟩, -, moves⟩ := Option.bind_eq_some_iff.mp moves
      obtain ⟨queue, -, rfl⟩ := Option.map_eq_some_iff.mp moves
      apply State.notStarted_iff_of_parseTask (p := p)
      · rfl
      · rfl
      · simp [was]
      · simp
  | getStmts c wake _ moves =>
      obtain ⟨was, moves⟩ := Option.ite_none_right_eq_some.mp moves
      obtain ⟨queue, -, rfl⟩ := Option.map_eq_some_iff.mp moves
      apply State.notStarted_iff_of_storeTask (c := c)
      · rfl
      · rfl
      · simp [was]
      · unfold State.onResult
        split
        · simp
        · simp
        · split <;> simp
  | dml c reply _ moves =>
      unfold State.dml at moves
      split at moves
      · rename_i was
        obtain ⟨stmt, -, rfl⟩ := Option.map_eq_some_iff.mp moves
        apply State.notStarted_iff_of_storeTask (c := c)
        · rfl
        · rfl
        · simp [was]
        · split <;> simp
      · contradiction
  | wait w _ moves =>
      obtain ⟨queue, -, rfl⟩ := Option.map_eq_some_iff.mp moves
      exact State.notStarted_iff_of_same rfl rfl task

theorem same_tasks_of_startTask {task : PoolTask conf} {run : State conf}
    (h : s.run.startTask connects task = some run) :
    run.storeTasks = s.run.storeTasks ∧ run.parseTasks = s.run.parseTasks ∧
      run.extraTasks = s.run.extraTasks ∧
      run.main.rank ≤ s.run.main.rank := by
  cases task <;>
  · obtain ⟨-, h⟩ := Option.ite_none_right_eq_some.mp h
    cases h
    exact ⟨rfl, rfl, rfl, le_rfl⟩

theorem Listed.step {a : PooledAction conf n} (h : s.Listed)
    (hstep : s.step connects outcomes a = some s') : s'.Listed := by
  cases effect_of_step hstep with
  | pool a pool moves => exact h.keep moves.added_eq rfl rfl rfl le_rfl
  | run a run units moves =>
      obtain ⟨hstore, hparse, hextra, hrank⟩ := moves.same_tasks
      exact h.keep rfl hstore hparse hextra hrank
  | addTask task run pool next moves emplaced =>
      refine h.addTask (State.adds_of_stepMain next moves) ?_
      cases ThreadPool.effect_of_step emplaced
      rfl
  | start w task ticket run pool was moves invoked =>
      obtain ⟨hstore, hparse, hextra, hrank⟩ := same_tasks_of_startTask moves
      refine h.keep ?_ hstore hparse hextra hrank
      cases ThreadPool.effect_of_step invoked
      rfl

/-! ## Who has a task -/

/-- A task that a worker has is not in the queue, and no other worker has
it. -/
theorem Listed.apart (h : s.Listed)
    (hpool : (threadPool n (PoolTask conf)).Reachable s.pool) {w : Fin n}
    {task : PoolTask conf} {ticket : Nat}
    (hw : (s.pool.jobs w).task = some (task, ticket)) :
    task ∉ s.pool.tasks ∧ ∀ v other,
      (s.pool.jobs v).task = some (task, other) → v = w := by
  have hhands := ThreadPool.HandsInv.of_reachable hpool
  have horder := (ThreadPool.DrainInv.of_reachable hpool).order
  have hnodup : (s.pool.taken ++ s.pool.tasks).Nodup := horder ▸ h.nodup
  have htaken := hhands.taken w task ticket hw
  constructor
  · intro hqueued
    exact (List.nodup_append.mp hnodup).2.2 task
      (List.mem_of_getElem? htaken) task hqueued rfl
  · intro v other hv
    have hother := hhands.taken v task other hv
    have hsame : ticket = other :=
      (List.getElem?_inj (List.getElem?_eq_some_iff.mp htaken).1
        hnodup.of_append_left).mp (htaken.trans hother.symm)
    exact hhands.apart v w task task ticket (hsame ▸ hv) hw

theorem Listed.hasAdded_of_job (h : s.Listed)
    (hpool : (threadPool n (PoolTask conf)).Reachable s.pool) {w : Fin n}
    {task : PoolTask conf} {ticket : Nat}
    (hw : (s.pool.jobs w).task = some (task, ticket)) :
    s.run.HasAdded task :=
  (h.mem_added task).1 (List.mem_of_getElem? (ThreadPool.added_of_job hpool hw))

structure Handed (s : Pooled conf n) : Prop where
  waiting : ∀ task, s.run.HasAdded task → s.run.NotStarted task →
    task ∈ s.pool.tasks ∨ ∃ w ticket, s.pool.jobs w = .holding task ticket
  queued : ∀ task ∈ s.pool.tasks, s.run.NotStarted task
  held : ∀ w task ticket, s.pool.jobs w = .holding task ticket →
    s.run.NotStarted task
  started : ∀ w task ticket, s.pool.jobs w = .running task ticket →
    ¬s.run.NotStarted task
  added : ∀ task, s.run.HasAdded task ∨ s.run.NotStarted task

theorem Handed.initial : (Pooled.initial conf n).Handed where
  waiting task hadded := by
    rcases task with p | i | i <;>
      simp [Pooled.initial, State.HasAdded, State.Added, State.initial] at hadded
  queued task hmem := by simp [Pooled.initial, ThreadPool.initial] at hmem
  held w task ticket hjob := by
    simp [Pooled.initial, ThreadPool.initial] at hjob
  started w task ticket hjob := by
    simp [Pooled.initial, ThreadPool.initial] at hjob
  added task := by
    right
    cases task <;> rfl

/-- The queue and the hands stay, or a worker takes a task or becomes idle. -/
theorem PoolEffect.hands {a : PooledAction conf n}
    {pool : ThreadPool n (PoolTask conf)} (h : s.PoolEffect a pool) :
    pool.tasks = s.pool.tasks ∧ (∀ w, pool.jobs w = s.pool.jobs w ∨
      pool.jobs w = .idle ∧ ∃ task ticket, s.pool.jobs w =
        .running task ticket) ∨
    ∃ w task ticket, s.pool.tasks = task :: pool.tasks ∧
      s.pool.jobs w = .idle ∧
      pool.jobs = Function.update s.pool.jobs w (.holding task ticket) := by
  cases h with
  | notifyOne _ _ moves =>
      cases ThreadPool.effect_of_step moves
      exact .inl ⟨rfl, fun _ => .inl rfl⟩
  | lock w _ moves =>
      cases ThreadPool.effect_of_step moves with
      | sleep => exact .inl ⟨rfl, fun _ => .inl rfl⟩
      | exit => exact .inl ⟨rfl, fun _ => .inl rfl⟩
      | take _ task rest free idle was head =>
          exact .inr ⟨w, task, _, head, idle, rfl⟩
  | block _ _ moves =>
      cases ThreadPool.effect_of_step moves
      exact .inl ⟨rfl, fun _ => .inl rfl⟩
  | spurious _ _ moves =>
      cases ThreadPool.effect_of_step moves
      exact .inl ⟨rfl, fun _ => .inl rfl⟩
  | finish w task ticket _ was finished moves =>
      cases ThreadPool.effect_of_step moves
      refine .inl ⟨rfl, fun v => ?_⟩
      by_cases hv : v = w
      · exact .inr ⟨by simp [hv], task, ticket, by rw [hv, was]⟩
      · exact .inl (by simp [hv])

theorem Handed.keep (h : s.Handed) (hrun : s'.run = s.run)
    (htasks : s'.pool.tasks = s.pool.tasks)
    (hjobs : ∀ w, s'.pool.jobs w = s.pool.jobs w ∨ s'.pool.jobs w = .idle ∧
      ∃ task ticket, s.pool.jobs w = .running task ticket) : s'.Handed := by
  have hbefore : ∀ {w job}, s'.pool.jobs w = job → job ≠ .idle →
      s.pool.jobs w = job := by
    intro w job hjob hbusy
    rcases hjobs w with hsame | ⟨hidle, -⟩
    · exact hsame.symm.trans hjob
    · exact absurd (hjob.symm.trans hidle) hbusy
  refine ⟨?_, ?_, ?_, ?_, ?_⟩
  · rw [hrun, htasks]
    intro task hadded hnot
    refine (h.waiting task hadded hnot).imp id ?_
    rintro ⟨w, ticket, hw⟩
    refine ⟨w, ticket, ?_⟩
    rcases hjobs w with hsame | ⟨-, _, _, hrunning⟩
    · exact hsame.trans hw
    · cases hw.symm.trans hrunning
  · rw [hrun, htasks]
    exact h.queued
  · rw [hrun]
    exact fun w task ticket hjob =>
      h.held w task ticket (hbefore hjob (by simp))
  · rw [hrun]
    exact fun w task ticket hjob =>
      h.started w task ticket (hbefore hjob (by simp))
  · rw [hrun]
    exact h.added

theorem Handed.take (h : s.Handed) {w : Fin n} {task : PoolTask conf}
    {ticket : Nat} (hrun : s'.run = s.run)
    (head : s.pool.tasks = task :: s'.pool.tasks)
    (idle : s.pool.jobs w = .idle)
    (hjobs : s'.pool.jobs =
      Function.update s.pool.jobs w (.holding task ticket)) : s'.Handed := by
  have hnot : s.run.NotStarted task := h.queued task (by simp [head])
  refine ⟨?_, ?_, ?_, ?_, ?_⟩
  · rw [hrun]
    intro other hadded hother
    rcases h.waiting other hadded hother with hqueued | ⟨v, number, hv⟩
    · rw [head] at hqueued
      rcases List.mem_cons.mp hqueued with rfl | hrest
      · exact .inr ⟨w, ticket, by simp [hjobs]⟩
      · exact .inl hrest
    · have hvw : v ≠ w := by
        rintro rfl
        cases hv.symm.trans idle
      exact .inr ⟨v, number, by simp [hjobs, hvw, hv]⟩
  · rw [hrun]
    exact fun other hmem => h.queued other (by simp [head, hmem])
  · rw [hrun, hjobs]
    intro v other number hv
    rcases update_eq_cases hv with ⟨-, hholding⟩ | hv
    · cases hholding
      exact hnot
    · exact h.held v other number hv
  · rw [hrun, hjobs]
    intro v other number hv
    exact h.started v other number
      ((update_eq_cases hv).resolve_left fun heq => by cases heq.2)
  · rw [hrun]
    exact h.added

theorem Handed.start {w : Fin n} {task : PoolTask conf} {ticket : Nat}
    {run : State conf} {pool : ThreadPool n (PoolTask conf)} (h : s.Handed)
    (hlisted : s.Listed)
    (hpool : (threadPool n (PoolTask conf)).Reachable s.pool)
    (was : s.pool.jobs w = .holding task ticket)
    (moves : s.run.startTask connects task = some run)
    (invoked : s.pool.step (.invoke w) = some pool) :
    ({ s with run := run, pool := pool } : Pooled conf n).Handed := by
  have htask : (s.pool.jobs w).task = some (task, ticket) := by
    rw [was]
    rfl
  obtain ⟨hunqueued, hsole⟩ := hlisted.apart hpool htask
  have hapart : ∀ v other number, v ≠ w →
      (s.pool.jobs v).task = some (other, number) → other ≠ task := by
    rintro v other number hvw hv rfl
    exact hvw (hsole v number hv)
  obtain ⟨hstore, hparse, hextra, -⟩ := same_tasks_of_startTask moves
  have hsame := State.hasAdded_iff_of_same hstore hparse hextra
  have hstarted := State.started_of_startTask moves
  have hothers := State.notStarted_of_startTask moves
  cases ThreadPool.effect_of_step invoked with
  | invoke _ called number hjob =>
      cases was.symm.trans hjob
      refine ⟨?_, ?_, ?_, ?_, ?_⟩
      · intro other hadded hnot
        have hne : other ≠ task := by
          rintro rfl
          exact hstarted hnot
        refine (h.waiting other ((hsame other).1 hadded)
          ((hothers other hne).1 hnot)).imp id ?_
        rintro ⟨v, number, hv⟩
        have hvw : v ≠ w := by
          rintro rfl
          cases hv.symm.trans was
          exact hne rfl
        exact ⟨v, number, by simp [hvw, hv]⟩
      · intro other hmem
        have hne : other ≠ task := fun heq => hunqueued (heq ▸ hmem)
        exact (hothers other hne).2 (h.queued other hmem)
      · intro v other number hv
        simp only [ThreadPool.setJob_jobs] at hv
        split at hv
        · cases hv
        · rename_i hvw
          have hne := hapart v other number hvw (by rw [hv]; rfl)
          exact (hothers other hne).2 (h.held v other number hv)
      · intro v other number hv
        simp only [ThreadPool.setJob_jobs] at hv
        split at hv
        · cases hv
          exact hstarted
        · rename_i hvw
          have hne := hapart v other number hvw (by rw [hv]; rfl)
          exact fun hnot =>
            h.started v other number hv ((hothers other hne).1 hnot)
      · intro other
        by_cases hother : other = task
        · subst hother
          exact .inl ((hsame other).2 (hlisted.hasAdded_of_job hpool htask))
        · exact (h.added other).imp (hsame other).2 (hothers other hother).2

theorem Handed.run {a : PooledAction conf n} {run : State conf}
    {units : conf.Parser → Option ParseTask} (h : s.Handed)
    (moves : s.RunEffect connects a run) :
    ({ s with run := run, units := units } : Pooled conf n).Handed := by
  obtain ⟨hstore, hparse, hextra, -⟩ := moves.same_tasks
  have hsame := State.hasAdded_iff_of_same hstore hparse hextra
  have hnot := moves.notStarted_iff
  refine ⟨?_, ?_, ?_, ?_, ?_⟩
  · intro task hadded hnotStarted
    exact h.waiting task ((hsame task).1 hadded) ((hnot task).1 hnotStarted)
  · exact fun task hmem => (hnot task).2 (h.queued task hmem)
  · exact fun w task ticket hjob => (hnot task).2 (h.held w task ticket hjob)
  · exact fun w task ticket hjob hnotStarted =>
      h.started w task ticket hjob ((hnot task).1 hnotStarted)
  · exact fun task => (h.added task).imp (hsame task).2 (hnot task).2

theorem Handed.addTask {task : PoolTask conf} {run : State conf}
    {pool : ThreadPool n (PoolTask conf)} (h : s.Handed)
    (hadds : s.run.Adds task run)
    (htasks : pool.tasks = s.pool.tasks ++ [task])
    (hjobs : pool.jobs = s.pool.jobs) :
    ({ s with run := run, pool := pool } : Pooled conf n).Handed := by
  have hnot := hadds.notStarted_iff
  have hnew : s.run.NotStarted task :=
    (h.added task).resolve_left hadds.not_hasAdded
  refine ⟨?_, ?_, ?_, ?_, ?_⟩
  · intro other hadded hnotStarted
    simp only [htasks, hjobs]
    rcases (hadds.hasAdded_iff other).1 hadded with hbefore | rfl
    · exact (h.waiting other hbefore ((hnot other).1 hnotStarted)).imp
        (List.mem_append_left _) id
    · exact .inl (List.mem_append_right _ (List.mem_singleton_self _))
  · intro other hmem
    simp only [htasks, List.mem_append, List.mem_singleton] at hmem
    rcases hmem with hold | rfl
    · exact (hnot other).2 (h.queued other hold)
    · exact (hnot other).2 hnew
  · intro w other ticket hjob
    exact (hnot other).2 (h.held w other ticket (by rw [← hjobs]; exact hjob))
  · intro w other ticket hjob hnotStarted
    exact h.started w other ticket (by rw [← hjobs]; exact hjob)
      ((hnot other).1 hnotStarted)
  · intro other
    rcases h.added other with hadded | hnotStarted
    · exact .inl ((hadds.hasAdded_iff other).2 (.inl hadded))
    · exact .inr ((hnot other).2 hnotStarted)

theorem Handed.step {a : PooledAction conf n} (h : s.Handed)
    (hlisted : s.Listed)
    (hpool : (threadPool n (PoolTask conf)).Reachable s.pool)
    (hstep : s.step connects outcomes a = some s') : s'.Handed := by
  cases effect_of_step hstep with
  | pool a pool moves =>
      rcases moves.hands with ⟨htasks, hjobs⟩ | ⟨w, task, ticket, head, idle,
        hjobs⟩
      · exact h.keep rfl htasks hjobs
      · exact h.take rfl head idle hjobs
  | run a run units moves => exact h.run moves
  | addTask task run pool next moves emplaced =>
      cases ThreadPool.effect_of_step emplaced
      exact h.addTask (State.adds_of_stepMain next moves) rfl rfl
  | start w task ticket run pool was moves invoked =>
      exact h.start hlisted hpool was moves invoked

/-! ## Every run -/

structure Inv (connects : conf.Connects) (s : Pooled conf n) : Prop where
  going : s.run.Going connects
  pool : (threadPool n (PoolTask conf)).ReachWhere Serving s.pool
  listed : s.Listed
  handed : s.Handed

theorem Inv.step [Nonempty conf.Storer] {a : PooledAction conf n}
    (h : s.Inv connects) (hstep : s.step connects outcomes a = some s') :
    s'.Inv connects where
  going := by
    rcases run_of_step hstep with hsame | ⟨b, hb⟩
    · rw [hsame]
      exact h.going
    · exact h.going.step hb
  pool := by
    rcases pool_of_step hstep with hsame | ⟨b, hb, hserving⟩
    · rw [hsame]
      exact h.pool
    · exact .step h.pool hserving hb
  listed := h.listed.step hstep
  handed := h.handed.step h.listed h.pool.reachable hstep

theorem Inv.initial [Nonempty conf.Storer] :
    (Pooled.initial conf n).Inv connects where
  going := State.Going.of_reachable .init
  pool := .init
  listed := .initial
  handed := .initial

theorem Inv.of_reachable [Nonempty conf.Storer]
    (h : (pooledIndexing conf connects outcomes n).Reachable s) :
    s.Inv connects :=
  System.ReachWhere.invariant (I := Inv connects) .initial
    (fun hs _ hstep => hs.step hstep) h

theorem Inv.live (h : s.Inv connects) : s.pool.stopped = false := by
  have hboth : s.pool.stopped = false ∧ s.pool.destructor = .notCalled := by
    apply h.pool.invariant (I := fun pool => pool.stopped = false ∧
      pool.destructor = .notCalled)
    · exact ⟨rfl, rfl⟩
    · intro pool pool' b hpool hserving hb
      cases ThreadPool.effect_of_step hb with
      | storeStopped | notifyAll | join => exact hserving.elim
      | _ => exact hpool
  exact hboth.1

end Pooled

end Pview.Shutdown
