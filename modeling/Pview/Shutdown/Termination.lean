import Pview.Shutdown.Pooled
import Pview.Shutdown.Serving

/-!
# No run goes on for ever

Only the sleep of the main thread and spurious wake-ups can happen infinitely
often.  Every other step brings the main thread or a task nearer to its end, or
uses up a batch, or else moves a thread in one of its waits; and the workers can
take no more tasks than the main thread adds.
-/

namespace Pview.Shutdown

open Pview.Foundation
open Pview.Foundation.CondVar
open Pview.Indexer
open Pview.MySQL
open Pview.Queue
open Pview.Tasks (ThreadPool PoolAction)

variable {conf : Config} {connects : conf.Connects}

/-- Neither a spurious wake-up nor a round of the loop that sleeps until the
queue is short. -/
def Proper (s : State conf) : Action conf → Prop
  | .main => s.main = .pollNumStmts → s.queue.numStmts < KB 1
  | .wait (.spuriousProducer _) | .wait (.spuriousConsumer _) => False
  | _ => True

/-! ## The work that is left -/

def ParserPhase.weight : ParserPhase → Nat
  | .notStarted => 3
  | .indexing => 2
  | .fetching => 1
  | .finished => 0

def StorerPhase.weight : StorerPhase → Nat
  | .notStarted => 2
  | .getting | .storing .. => 1
  | .finished => 0

def StorerPhase.left : StorerPhase → Nat
  | .storing _ n stmts => stmts.length - n
  | _ => 0

namespace State

def mainWork (s : State conf) : Nat :=
  s.main.rank + (conf.numStoreTasks - s.storeTasks) +
    (conf.numParseTasks - s.parseTasks) + (conf.numExtraTasks - s.extraTasks)

def taskWork (s : State conf) : Nat :=
  2 * (conf.numCmds - s.counter) + total ParserPhase.weight s.parsers +
    total StorerPhase.weight s.storers

def batchWork (s : State conf) : Nat :=
  (s.queue.stmts.map fun stmts => stmts.length + 1).sum +
    total StorerPhase.left s.storers

def work (s : State conf) : Nat ×ₗ Nat ×ₗ Nat :=
  toLex (s.mainWork + s.taskWork, toLex (s.batchWork, s.queue.phaseWork))

variable {s s' : State conf}

theorem work_lt_of_tasks
    (h : s'.mainWork + s'.taskWork < s.mainWork + s.taskWork) :
    s'.work < s.work :=
  Prod.Lex.toLex_lt_toLex.mpr (.inl h)

theorem work_lt_of_batches (hmain : s'.mainWork = s.mainWork)
    (htasks : s'.taskWork ≤ s.taskWork) (h : s'.batchWork < s.batchWork) :
    s'.work < s.work := by
  refine Prod.Lex.toLex_lt_toLex'.mpr ⟨by simp only; omega, fun _ => ?_⟩
  exact Prod.Lex.toLex_lt_toLex.mpr (.inl h)

theorem work_lt_of_phases (hmain : s'.mainWork = s.mainWork)
    (htasks : s'.taskWork = s.taskWork) (hbatches : s'.batchWork = s.batchWork)
    (h : s'.queue.phaseWork < s.queue.phaseWork) : s'.work < s.work := by
  refine Prod.Lex.toLex_lt_toLex'.mpr ⟨by simp only; omega, fun _ => ?_⟩
  exact Prod.Lex.toLex_lt_toLex.mpr (.inr ⟨hbatches, h⟩)

theorem work_main (hproper : Proper s .main) (h : s.stepMain = some s') :
    s'.work < s.work := by
  have hkeeps : ∀ {next : State conf}, next.taskWork = s.taskWork →
      next.mainWork < s.mainWork → next.work < s.work :=
    fun htasks hlt => work_lt_of_tasks (by omega)
  unfold stepMain at h
  split at h
  · rename_i was
    obtain ⟨-, h⟩ := Option.ite_none_right_eq_some.mp h
    cases h
    exact hkeeps rfl (by simp [mainWork, MainPhase.rank, was])
  · rename_i was
    split_ifs at h <;> cases h
    · exact hkeeps rfl (by simp only [mainWork]; omega)
    · exact hkeeps rfl (by simp [mainWork, MainPhase.rank, was])
  · rename_i was
    split_ifs at h <;> cases h
    · exact hkeeps rfl (by simp only [mainWork]; omega)
    · exact hkeeps rfl (by simp [mainWork, MainPhase.rank, was])
  · rename_i was
    obtain ⟨-, h⟩ := Option.ite_none_right_eq_some.mp h
    cases h
    exact hkeeps rfl (by simp [mainWork, MainPhase.rank, was])
  · rename_i was
    obtain ⟨queue, -, rfl⟩ := Option.map_eq_some_iff.mp h
    exact hkeeps rfl (by simp [mainWork, MainPhase.rank, was])
  · rename_i was
    obtain ⟨queue, -, rfl⟩ := Option.map_eq_some_iff.mp h
    exact hkeeps rfl (by simp [mainWork, MainPhase.rank, was])
  · rename_i was
    split_ifs at h <;> cases h
    · exact hkeeps rfl (by simp [mainWork, MainPhase.rank, was])
    · exact hkeeps rfl (by simp [mainWork, MainPhase.rank, was])
  · rename_i was
    split_ifs at h <;> cases h
    · exact hkeeps rfl (by simp only [mainWork]; omega)
    · exact hkeeps rfl (by simp [mainWork, MainPhase.rank, was])
  · rename_i was
    have hshort := hproper was
    rw [if_neg (by omega)] at h
    cases h
    exact hkeeps rfl (by simp [mainWork, MainPhase.rank, was])
  · rename_i was
    obtain ⟨-, h⟩ := Option.ite_none_right_eq_some.mp h
    cases h
    exact hkeeps rfl (by simp [mainWork, MainPhase.rank, was])
  · rename_i was
    obtain ⟨-, h⟩ := Option.ite_none_right_eq_some.mp h
    cases h
    exact hkeeps rfl (by simp [mainWork, MainPhase.rank, was])
  · contradiction

theorem work_parseTask {p : conf.Parser} {phase : ParserPhase}
    (hparsers : s'.parsers = Function.update s.parsers p phase)
    (hstorers : s'.storers = s.storers) (hmain : s'.mainWork = s.mainWork)
    (hlt : 2 * (conf.numCmds - s'.counter) + phase.weight <
      2 * (conf.numCmds - s.counter) + (s.parsers p).weight) :
    s'.work < s.work := by
  have hupdate := total_update ParserPhase.weight s.parsers p phase
  refine work_lt_of_tasks ?_
  simp only [taskWork, hparsers, hstorers]
  omega

/-- A store task goes on, and uses up a batch or a statement unless it has one
thing less to do. -/
theorem work_storeTask {c : conf.Storer} {phase : StorerPhase}
    (hstorers : s'.storers = Function.update s.storers c phase)
    (hparsers : s'.parsers = s.parsers) (hcounter : s'.counter = s.counter)
    (hmain : s'.mainWork = s.mainWork)
    (hweight : phase.weight ≤ (s.storers c).weight)
    (hleft : phase.weight = (s.storers c).weight →
      (s'.queue.stmts.map fun stmts => stmts.length + 1).sum + phase.left <
        (s.queue.stmts.map fun stmts => stmts.length + 1).sum +
          (s.storers c).left) :
    s'.work < s.work := by
  have htasks := total_update StorerPhase.weight s.storers c phase
  have hbatches := total_update StorerPhase.left s.storers c phase
  rcases hweight.lt_or_eq with hlt | heq
  · refine work_lt_of_tasks ?_
    simp only [taskWork, hparsers, hstorers, hcounter]
    omega
  · refine work_lt_of_batches hmain ?_ ?_
    · simp only [taskWork, hparsers, hstorers, hcounter]
      omega
    · have hless := hleft heq
      simp only [batchWork, hstorers]
      omega

theorem work_gets {c : conf.Storer} {queue : IndexQueue conf.Parser conf.Storer}
    {res : Option Batch} (was : s.storers c = .getting)
    (hgets : s.queue.Gets c queue)
    (result : queue.returned = s.queue.returned ++ [res]) :
    ({ s.setStorer c (onResult s.taken.length (some res)) with
      queue := queue } : State conf).work < s.work := by
  refine work_storeTask rfl rfl rfl rfl ?_ fun hsame => ?_
  · rw [was]
    cases res with
    | none => simp [onResult, StorerPhase.weight]
    | some stmts =>
        simp only [onResult]
        split <;> simp [StorerPhase.weight]
  · rw [was] at hsame ⊢
    cases hgets with
    | nullptr =>
        obtain rfl : res = none := by simpa using result.symm
        simp [onResult, StorerPhase.weight] at hsame
    | pop stmts rest numStmts lowerTimes producers head woken =>
        obtain rfl : res = some stmts := by simpa using result.symm
        cases stmts with
        | nil => simp [onResult, StorerPhase.weight] at hsame
        | cons stmt stmts =>
            simp [onResult, StorerPhase.left, head]
            omega
    | waits => simp at result

theorem work_dml {c : conf.Storer} {ticket n : Nat} {stmts : Batch}
    {ret : Int} {sent : List (Nat × String)}
    (was : s.storers c = .storing ticket n stmts) (hn : n < stmts.length) :
    ({ s.setStorer c (if ret ≠ 0 ∨ stmts.length ≤ n + 1 then .getting
      else .storing ticket (n + 1) stmts) with
        sent := sent } : State conf).work < s.work := by
  refine work_storeTask rfl rfl rfl rfl ?_ fun _ => ?_
  · rw [was]
    split <;> simp [StorerPhase.weight]
  · rw [was]
    split <;> simp only [setStorer, StorerPhase.left] <;> omega

theorem work_wait {w : Wait conf} {queue : IndexQueue conf.Parser conf.Storer}
    (hproper : Proper s (.wait w))
    (hmoves : s.queue.step w.action = some queue) :
    ({ s with queue := queue } : State conf).work < s.work := by
  have hproducer : ∀ {p phase},
      phaseWeight phase < phaseWeight (s.queue.producers p) →
        ({ s with queue := { s.queue with
          producers := Function.update s.queue.producers p phase } } :
            State conf).work < s.work :=
    fun hlt => work_lt_of_phases rfl rfl rfl (IndexQueue.phaseWork_producer hlt)
  cases Wait.effect_of_step hmoves with
  | resumes p phase was becomes =>
      refine hproducer ?_
      rcases becomes with rfl | rfl <;> simp [phaseWeight, was]
  | blocksProducer p was => exact hproducer (by simp [phaseWeight, was])
  | blocksConsumer c was =>
      refine work_lt_of_phases rfl rfl rfl (IndexQueue.phaseWork_consumer ?_)
      simp [phaseWeight, was]
  | wakesProducer => exact hproper.elim
  | wakesConsumer => exact hproper.elim

theorem work_step (connects : conf.Connects) {a : Action conf}
    (hproper : Proper s a) (hstep : s.step connects a = some s') :
    s'.work < s.work := by
  cases effect_of_step hstep with
  | main s' moves => exact work_main hproper hstep
  | startParse p was =>
      refine work_parseTask rfl rfl rfl ?_
      rw [was]
      split <;> simp [ParserPhase.weight, setParser]
  | fetch p was =>
      refine work_parseTask rfl rfl rfl ?_
      rw [was]
      split <;> simp only [ParserPhase.weight] <;> omega
  | skipUnit p was =>
      refine work_parseTask rfl rfl rfl ?_
      simp [was, ParserPhase.weight, setParser]
  | addStmts p task after fuel wake stmts queue was batch moves =>
      refine work_parseTask rfl rfl rfl ?_
      simp [was, ParserPhase.weight, setParser]
  | startStore c was added =>
      have hlt : (if connects.store c then StorerPhase.getting
          else .finished).weight < (s.storers c).weight := by
        rw [was]
        split <;> decide
      exact work_storeTask rfl rfl rfl rfl hlt.le fun heq => absurd heq hlt.ne
  | waits c wake queue was moves same =>
      obtain ⟨hfrom, hgets⟩ := IndexQueue.of_getStmts moves
      cases hgets with
      | nullptr => simp at same
      | pop => simp at same
      | waits breaks =>
          have hstorers : Function.update s.storers c .getting = s.storers := by
            rw [← was, Function.update_eq_self]
          refine work_lt_of_phases rfl ?_ ?_ (IndexQueue.phaseWork_consumer ?_)
          · simp only [taskWork, setStorer, hstorers]
          · simp only [batchWork, setStorer, hstorers]
          · rcases hfrom with hfrom | hfrom <;> simp [phaseWeight, hfrom]
  | gets c wake queue res was moves result =>
      exact work_gets was (IndexQueue.of_getStmts moves).2 result
  | dml c reply ticket n stmts stmt was head =>
      exact work_dml was (List.getElem?_eq_some_iff.mp head).1
  | wait w queue moves => exact work_wait hproper moves

end State

/-! ## On the pool -/

namespace Pooled

variable {n : Nat} {outcomes : Nat → Option ParseTask} {s s' : Pooled conf n}

def Proper (s : Pooled conf n) : PooledAction conf n → Prop
  | .main => s.run.main = .pollNumStmts → s.run.queue.numStmts < KB 1
  | .spurious _ => False
  | .wait (.spuriousProducer _) | .wait (.spuriousConsumer _) => False
  | _ => True

def work (s : Pooled conf n) : (Nat ×ₗ Nat ×ₗ Nat) ×ₗ Nat :=
  toLex (s.run.work, s.pool.poolWork)

theorem work_lt_of_run (h : s'.run.work < s.run.work) : s'.work < s.work :=
  Prod.Lex.toLex_lt_toLex.mpr (.inl h)

theorem work_lt_of_pool (hrun : s'.run = s.run)
    (h : s'.pool.poolWork < s.pool.poolWork) : s'.work < s.work :=
  Prod.Lex.toLex_lt_toLex.mpr (.inr ⟨by rw [hrun], h⟩)

theorem PoolEffect.poolWork_lt {a : PooledAction conf n}
    {pool : ThreadPool n (PoolTask conf)} (h : s.PoolEffect a pool)
    (hproper : s.Proper a) : pool.poolWork < s.pool.poolWork := by
  cases h with
  | notifyOne wake _ moves => exact ThreadPool.poolWork_notifyOne moves
  | lock w _ moves => exact ThreadPool.poolWork_lock moves
  | block w _ moves => exact ThreadPool.poolWork_block moves
  | spurious => exact hproper.elim
  | finish w task ticket _ was finished moves =>
      exact ThreadPool.poolWork_finish moves

theorem RunEffect.work_lt {a : PooledAction conf n} {run : State conf}
    (h : s.RunEffect connects a run) (hproper : s.Proper a) :
    run.work < s.run.work := by
  cases h with
  | main _ quiet moves => exact State.work_main hproper moves
  | fetch p _ moves =>
      exact State.work_step connects (a := .fetch p) trivial moves
  | skipUnit p fuel wake _ moves =>
      exact State.work_step connects (a := .skipUnit p) trivial
        moves
  | addStmts p task fuel wake _ moves =>
      exact State.work_step connects
        (a := .addStmts p task fuel wake) trivial moves
  | getStmts c wake _ moves =>
      exact State.work_step connects (a := .getStmts c wake)
        trivial moves
  | dml c reply _ moves =>
      exact State.work_step connects (a := .dml c reply) trivial
        moves
  | wait w _ moves =>
      have hwait : Shutdown.Proper s.run (.wait w) := by
        cases w <;> exact hproper
      exact State.work_step connects (a := .wait w) hwait moves

theorem work_startTask {task : PoolTask conf} {run : State conf}
    (h : s.run.startTask connects task = some run) : run.work < s.run.work := by
  cases task with
  | inl p =>
      exact State.work_step connects (a := .startParse p) trivial h
  | inr c =>
      exact State.work_step connects (a := .startStore c) trivial h

theorem work_step {a : PooledAction conf n} (hproper : s.Proper a)
    (hstep : s.step connects outcomes a = some s') : s'.work < s.work := by
  cases effect_of_step hstep with
  | pool a pool moves => exact work_lt_of_pool rfl (moves.poolWork_lt hproper)
  | run a run units moves => exact work_lt_of_run (moves.work_lt hproper)
  | addTask task run pool next moves emplaced =>
      exact work_lt_of_run (State.work_main hproper moves)
  | start w task ticket run pool was moves invoked =>
      exact work_lt_of_run (work_startTask moves)

end Pooled

theorem pooledIndexing_terminates {n : Nat}
    {outcomes : Nat → Option ParseTask} :
    (pooledIndexing conf connects outcomes n).Terminates Pooled.Proper :=
  .of_measure Pooled.work fun _ _ _ => Pooled.work_step

end Pview.Shutdown
