import Pview.Shutdown.Delivered
import Pview.Tasks.PoolProgress

/-!
# Indexing on the thread pool

`do_indexing` together with the pool that runs its tasks: a task starts when a
worker calls it and keeps the worker until it has returned.  What the
translation units come to is given: a parse task that has fetched the number of
one has its symbols to send, or returns early from `index_translation_unit`.

Whatever happens here happens in a run of `do_indexing` with free workers, and
in a run of the pool that is never stopped.
-/

namespace Pview.Shutdown

open Pview.Foundation
open Pview.Foundation.CondVar
open Pview.Indexer
open Pview.MySQL
open Pview.Queue
open Pview.Tasks (ThreadPool PoolAction Job threadPool)

variable {conf : Config} {n : Nat}

/-- What `do_indexing` adds to the pool: its calls of `do_parse` and
`do_store`. -/
abbrev PoolTask (conf : Config) : Type := conf.Parser ⊕ conf.Storer

structure Pooled (conf : Config) (n : Nat) where
  run : State conf
  pool : ThreadPool n (PoolTask conf)
  /-- What the unit comes to that a parse task is at. -/
  units : conf.Parser → Option ParseTask

inductive PooledAction (conf : Config) (n : Nat) where
  | main
  /-- The main thread, at the end of `add_task`. -/
  | notifyOne (wake : Option (Fin n))
  | lock (w : Fin n)
  | block (w : Fin n)
  | spurious (w : Fin n)
  | start (w : Fin n)
  | finish (w : Fin n)
  | fetch (p : conf.Parser)
  | finishUnit (p : conf.Parser) (fuel : Nat) (wake : Option conf.Storer)
  | getStmts (c : conf.Storer) (wake : Option conf.Parser)
  | dml (c : conf.Storer) (reply : Reply)
  | wait (w : Wait conf)

namespace State

def nextTask (s : State conf) : Option (PoolTask conf) :=
  match s.main with
  | .addStoreTasks =>
      if h : s.storeTasks < conf.numStoreTasks then
        some (.inr (.inl ⟨s.storeTasks, h⟩))
      else
        none
  | .addParseTasks =>
      if h : s.parseTasks < conf.numParseTasks then
        some (.inl ⟨s.parseTasks, h⟩)
      else
        none
  | .addExtraTasks =>
      if h : s.extraTasks < conf.numExtraTasks then
        some (.inr (.inr ⟨s.extraTasks, h⟩))
      else
        none
  | _ => none

def startTask (connects : conf.Connects) (s : State conf) :
    PoolTask conf → Option (State conf)
  | .inl p => s.startParse connects p
  | .inr c => s.startStore connects c

def NotStarted (s : State conf) : PoolTask conf → Prop
  | .inl p => s.parsers p = .notStarted
  | .inr c => s.storers c = .notStarted

def Finished (s : State conf) : PoolTask conf → Prop
  | .inl p => s.parsers p = .finished
  | .inr c => s.storers c = .finished

instance (s : State conf) : (task : PoolTask conf) → Decidable (s.Finished task)
  | .inl p => inferInstanceAs (Decidable (s.parsers p = .finished))
  | .inr c =>
      match h : s.storers c with
      | .finished => .isTrue h
      | .notStarted | .getting | .storing .. =>
          .isFalse fun hfinished => by cases h.symm.trans hfinished

def HasAdded (s : State conf) : PoolTask conf → Prop
  | .inl p => p.val < s.parseTasks
  | .inr c => s.Added c

end State

namespace Pooled

def initial (conf : Config) (n : Nat) : Pooled conf n where
  run := .initial conf
  pool := .initial n (PoolTask conf)
  units := fun _ => none

def movePool (s : Pooled conf n) (a : PoolAction n (PoolTask conf)) :
    Option (Pooled conf n) :=
  (s.pool.step a).map fun pool => { s with pool := pool }

def moveRun (s : Pooled conf n) (run : Option (State conf)) :
    Option (Pooled conf n) :=
  run.map fun run => { s with run := run }

/-- The main thread does not go on before `add_task` has returned. -/
def stepMain (s : Pooled conf n) : Option (Pooled conf n) :=
  if s.pool.adding = 0 then
    match s.run.nextTask with
    | none => s.moveRun s.run.stepMain
    | some task => (s.movePool (.emplace task)).bind fun moved =>
        moved.moveRun s.run.stepMain
  else
    none

def start (connects : conf.Connects) (s : Pooled conf n) (w : Fin n) :
    Option (Pooled conf n) :=
  match s.pool.jobs w with
  | .holding task _ => (s.movePool (.invoke w)).bind fun moved =>
      moved.moveRun (s.run.startTask connects task)
  | _ => none

def finish (s : Pooled conf n) (w : Fin n) : Option (Pooled conf n) :=
  match s.pool.jobs w with
  | .running task _ =>
      if s.run.Finished task then s.movePool (.finish w) else none
  | _ => none

def finishUnit (s : Pooled conf n) (p : conf.Parser) (fuel : Nat)
    (wake : Option conf.Storer) : Option (Pooled conf n) :=
  match s.units p with
  | none => s.moveRun (s.run.skipUnit p)
  | some task => s.moveRun (s.run.addStmts p task fuel wake)

def step (connects : conf.Connects) (outcomes : Nat → Option ParseTask)
    (s : Pooled conf n) : PooledAction conf n → Option (Pooled conf n)
  | .main => s.stepMain
  | .notifyOne wake => s.movePool (.notifyOne wake)
  | .lock w => s.movePool (.lock w)
  | .block w => s.movePool (.block w)
  | .spurious w => s.movePool (.spurious w)
  | .start w => s.start connects w
  | .finish w => s.finish w
  | .fetch p => (s.run.fetch p).map fun run =>
      { s with
        run := run
        units := Function.update s.units p (outcomes s.run.counter) }
  | .finishUnit p fuel wake => s.finishUnit p fuel wake
  | .getStmts c wake => s.moveRun (s.run.getStmts c wake)
  | .dml c reply => s.moveRun (s.run.dml c reply)
  | .wait w => s.moveRun (s.run.step connects (.wait w))

end Pooled

/-- A pool of `n` workers, and what each translation unit comes to: `none` where
`index_translation_unit` returns early. -/
def pooledIndexing (conf : Config) (connects : conf.Connects)
    (outcomes : Nat → Option ParseTask) (n : Nat) :
    System (Pooled conf n) (PooledAction conf n) where
  init := .initial conf n
  step := Pooled.step connects outcomes

/-! ## What one step can do -/

namespace Pooled

variable {connects : conf.Connects} {outcomes : Nat → Option ParseTask}
  {s s' : Pooled conf n}

/-- The pool by itself: a worker on its way to a task or back. -/
inductive PoolEffect (s : Pooled conf n) : PooledAction conf n →
    ThreadPool n (PoolTask conf) → Prop
  | notifyOne (wake : Option (Fin n)) (pool : ThreadPool n (PoolTask conf))
      (moves : s.pool.step (.notifyOne wake) = some pool) :
      PoolEffect s (.notifyOne wake) pool
  | lock (w : Fin n) (pool : ThreadPool n (PoolTask conf))
      (moves : s.pool.step (.lock w) = some pool) : PoolEffect s (.lock w) pool
  | block (w : Fin n) (pool : ThreadPool n (PoolTask conf))
      (moves : s.pool.step (.block w) = some pool) :
      PoolEffect s (.block w) pool
  | spurious (w : Fin n) (pool : ThreadPool n (PoolTask conf))
      (moves : s.pool.step (.spurious w) = some pool) :
      PoolEffect s (.spurious w) pool
  | finish (w : Fin n) (task : PoolTask conf) (ticket : Nat)
      (pool : ThreadPool n (PoolTask conf))
      (was : s.pool.jobs w = .running task ticket)
      (finished : s.run.Finished task)
      (moves : s.pool.step (.finish w) = some pool) :
      PoolEffect s (.finish w) pool

/-- The tasks by themselves: a step of `do_indexing` that needs no worker but
the one it has. -/
inductive RunEffect (connects : conf.Connects) (s : Pooled conf n) :
    PooledAction conf n → State conf → Prop
  | main (run : State conf) (quiet : s.run.nextTask = none)
      (moves : s.run.stepMain = some run) : RunEffect connects s .main run
  | fetch (p : conf.Parser) (run : State conf)
      (moves : s.run.fetch p = some run) :
      RunEffect connects s (.fetch p) run
  | skipUnit (p : conf.Parser) (fuel : Nat) (wake : Option conf.Storer)
      (run : State conf) (moves : s.run.skipUnit p = some run) :
      RunEffect connects s (.finishUnit p fuel wake) run
  | addStmts (p : conf.Parser) (task : ParseTask) (fuel : Nat)
      (wake : Option conf.Storer) (run : State conf)
      (moves : s.run.addStmts p task fuel wake = some run) :
      RunEffect connects s (.finishUnit p fuel wake) run
  | getStmts (c : conf.Storer) (wake : Option conf.Parser) (run : State conf)
      (moves : s.run.getStmts c wake = some run) :
      RunEffect connects s (.getStmts c wake) run
  | dml (c : conf.Storer) (reply : Reply) (run : State conf)
      (moves : s.run.dml c reply = some run) :
      RunEffect connects s (.dml c reply) run
  | wait (w : Wait conf) (run : State conf)
      (moves : s.run.step connects (.wait w) = some run) :
      RunEffect connects s (.wait w) run

inductive Effect (connects : conf.Connects) (s : Pooled conf n) :
    PooledAction conf n → Pooled conf n → Prop
  | pool (a : PooledAction conf n) (pool : ThreadPool n (PoolTask conf))
      (moves : s.PoolEffect a pool) : Effect connects s a { s with pool := pool }
  | run (a : PooledAction conf n) (run : State conf)
      (units : conf.Parser → Option ParseTask)
      (moves : s.RunEffect connects a run) :
      Effect connects s a { s with run := run, units := units }
  | addTask (task : PoolTask conf) (run : State conf)
      (pool : ThreadPool n (PoolTask conf))
      (next : s.run.nextTask = some task)
      (moves : s.run.stepMain = some run)
      (emplaced : s.pool.step (.emplace task) = some pool) :
      Effect connects s .main { s with run := run, pool := pool }
  | start (w : Fin n) (task : PoolTask conf) (ticket : Nat) (run : State conf)
      (pool : ThreadPool n (PoolTask conf))
      (was : s.pool.jobs w = .holding task ticket)
      (moves : s.run.startTask connects task = some run)
      (invoked : s.pool.step (.invoke w) = some pool) :
      Effect connects s (.start w) { s with run := run, pool := pool }

theorem eq_of_moveRun {run : Option (State conf)}
    (h : s.moveRun run = some s') : ∃ next, run = some next ∧
      s' = { s with run := next } := by
  obtain ⟨next, hnext, rfl⟩ := Option.map_eq_some_iff.mp h
  exact ⟨next, hnext, rfl⟩

theorem eq_of_movePool {a : PoolAction n (PoolTask conf)}
    (h : s.movePool a = some s') : ∃ pool, s.pool.step a = some pool ∧
      s' = { s with pool := pool } := by
  obtain ⟨pool, hpool, rfl⟩ := Option.map_eq_some_iff.mp h
  exact ⟨pool, hpool, rfl⟩

theorem effect_of_stepMain (h : s.stepMain = some s') :
    s.Effect connects .main s' := by
  obtain ⟨-, h⟩ := Option.ite_none_right_eq_some.mp h
  cases hnext : s.run.nextTask with
  | none =>
      simp only [hnext] at h
      obtain ⟨run, hmoves, rfl⟩ := eq_of_moveRun h
      exact .run _ _ s.units (.main run hnext hmoves)
  | some task =>
      simp only [hnext] at h
      obtain ⟨moved, hpool, h⟩ := Option.bind_eq_some_iff.mp h
      obtain ⟨pool, hemplaced, rfl⟩ := eq_of_movePool hpool
      obtain ⟨run, hmoves, rfl⟩ := eq_of_moveRun h
      exact .addTask task run pool hnext hmoves hemplaced

theorem effect_of_start {w : Fin n} (h : s.start connects w = some s') :
    s.Effect connects (.start w) s' := by
  unfold start at h
  split at h
  · rename_i task ticket hjob
    obtain ⟨moved, hpool, h⟩ := Option.bind_eq_some_iff.mp h
    obtain ⟨pool, hinvoked, rfl⟩ := eq_of_movePool hpool
    obtain ⟨run, hmoves, rfl⟩ := eq_of_moveRun h
    exact .start w task ticket run pool hjob hmoves hinvoked
  · contradiction

theorem effect_of_finishUnit {p : conf.Parser} {fuel : Nat}
    {wake : Option conf.Storer} (h : s.finishUnit p fuel wake = some s') :
    s.Effect connects (.finishUnit p fuel wake) s' := by
  unfold finishUnit at h
  split at h
  · obtain ⟨run, hmoves, rfl⟩ := eq_of_moveRun h
    exact .run _ _ s.units (.skipUnit p fuel wake run hmoves)
  · obtain ⟨run, hmoves, rfl⟩ := eq_of_moveRun h
    exact .run _ _ s.units (.addStmts p _ fuel wake run hmoves)

theorem effect_of_step {a : PooledAction conf n}
    (h : s.step connects outcomes a = some s') : s.Effect connects a s' := by
  cases a with
  | main => exact effect_of_stepMain h
  | notifyOne wake =>
      obtain ⟨pool, hmoves, rfl⟩ := eq_of_movePool h
      exact .pool _ _ (.notifyOne wake pool hmoves)
  | lock w =>
      obtain ⟨pool, hmoves, rfl⟩ := eq_of_movePool h
      exact .pool _ _ (.lock w pool hmoves)
  | block w =>
      obtain ⟨pool, hmoves, rfl⟩ := eq_of_movePool h
      exact .pool _ _ (.block w pool hmoves)
  | spurious w =>
      obtain ⟨pool, hmoves, rfl⟩ := eq_of_movePool h
      exact .pool _ _ (.spurious w pool hmoves)
  | start w => exact effect_of_start h
  | finish w =>
      simp only [step, finish] at h
      split at h
      · rename_i task ticket hjob
        obtain ⟨hfinished, h⟩ := Option.ite_none_right_eq_some.mp h
        obtain ⟨pool, hmoves, rfl⟩ := eq_of_movePool h
        exact .pool _ _ (.finish w task ticket pool hjob hfinished hmoves)
      · contradiction
  | fetch p =>
      obtain ⟨run, hmoves, rfl⟩ := Option.map_eq_some_iff.mp h
      exact .run _ _ _ (.fetch p run hmoves)
  | finishUnit p fuel wake => exact effect_of_finishUnit h
  | getStmts c wake =>
      obtain ⟨run, hmoves, rfl⟩ := eq_of_moveRun h
      exact .run _ _ s.units (.getStmts c wake run hmoves)
  | dml c reply =>
      obtain ⟨run, hmoves, rfl⟩ := eq_of_moveRun h
      exact .run _ _ s.units (.dml c reply run hmoves)
  | wait w =>
      obtain ⟨run, hmoves, rfl⟩ := eq_of_moveRun h
      exact .run _ _ s.units (.wait w run hmoves)

/-! ## Both halves -/

theorem RunEffect.exists_step {a : PooledAction conf n} {run : State conf}
    (h : s.RunEffect connects a run) :
    ∃ b, s.run.step connects b = some run := by
  cases h with
  | main _ _ moves => exact ⟨.main, moves⟩
  | fetch p _ moves => exact ⟨.fetch p, moves⟩
  | skipUnit p _ _ _ moves => exact ⟨.skipUnit p, moves⟩
  | addStmts p task fuel wake _ moves =>
      exact ⟨.addStmts p task fuel wake, moves⟩
  | getStmts c wake _ moves => exact ⟨.getStmts c wake, moves⟩
  | dml c reply _ moves => exact ⟨.dml c reply, moves⟩
  | wait w _ moves => exact ⟨.wait w, moves⟩

theorem exists_startTask {task : PoolTask conf} {run : State conf}
    (h : s.run.startTask connects task = some run) :
    ∃ b, s.run.step connects b = some run := by
  cases task with
  | inl p => exact ⟨.startParse p, h⟩
  | inr c => exact ⟨.startStore c, h⟩

theorem run_of_step {a : PooledAction conf n}
    (h : s.step connects outcomes a = some s') :
    s'.run = s.run ∨ ∃ b, s.run.step connects b = some s'.run := by
  cases effect_of_step h with
  | pool => exact .inl rfl
  | run a run units moves => exact .inr moves.exists_step
  | addTask task run pool next moves emplaced => exact .inr ⟨.main, moves⟩
  | start w task ticket run pool was moves invoked =>
      exact .inr (exists_startTask moves)

def Serving (_ : ThreadPool n (PoolTask conf)) :
    PoolAction n (PoolTask conf) → Prop
  | .storeStopped | .notifyAll | .join => False
  | _ => True

theorem pool_of_step {a : PooledAction conf n}
    (h : s.step connects outcomes a = some s') :
    s'.pool = s.pool ∨ ∃ b, s.pool.step b = some s'.pool ∧
      Serving s.pool b := by
  cases effect_of_step h with
  | pool a pool moves =>
      right
      cases moves with
      | notifyOne wake _ moves => exact ⟨_, moves, trivial⟩
      | lock w _ moves => exact ⟨_, moves, trivial⟩
      | block w _ moves => exact ⟨_, moves, trivial⟩
      | spurious w _ moves => exact ⟨_, moves, trivial⟩
      | finish w _ _ _ _ _ moves => exact ⟨_, moves, trivial⟩
  | run => exact .inl rfl
  | addTask task run pool next moves emplaced =>
      exact .inr ⟨_, emplaced, trivial⟩
  | start w task ticket run pool was moves invoked =>
      exact .inr ⟨_, invoked, trivial⟩

end Pooled

end Pview.Shutdown
