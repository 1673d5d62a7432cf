import Mathlib.Data.Fintype.Sum
import Pview.Indexer.Statements
import Pview.MySQL.Connection
import Pview.Pipeline.System
import Pview.Queue.Fifo

/-!
# The end of an indexing run

`do_indexing` as a transition system: the main thread, which adds the tasks to
the thread pool and joins them, and the loops of `do_parse` and `do_store` over
the statement queue.  A task that is in the pool starts at any later time, and
the tasks and the main thread take their steps in any order.

The extra store tasks reuse the first half of the parse tasks, each with a new
connection.
-/

namespace Pview.Shutdown

open Pview.Foundation
open Pview.Indexer
open Pview.MySQL
open Pview.Pipeline (Flags)
open Pview.Queue

def KB (v : Nat) : Nat := 1024 * v

structure Config where
  numParseTask : Nat
  numStoreTasks : Nat
  numCmds : Nat
  names : TableNames
  flags : Flags

namespace Config

variable (conf : Config)

def numParseTasks : Nat := min conf.numParseTask conf.numCmds

def numExtraTasks : Nat := conf.numParseTasks / 2

abbrev Parser : Type := Fin conf.numParseTasks

abbrev Storer : Type := Fin conf.numStoreTasks ⊕ Fin conf.numExtraTasks

/-- Which tasks get a connection from `create_mysql_conn`. -/
structure Connects where
  parse : conf.Parser → Bool
  store : conf.Storer → Bool

end Config

inductive MainPhase where
  | start
  | addStoreTasks
  | addParseTasks
  | joinParseTasks
  | storeStop
  | notifyStop
  | checkNumStmts
  | addExtraTasks
  | pollNumStmts
  | joinStoreTasks
  | joinExtraTasks
  | returned
  deriving DecidableEq, Repr

inductive ParserPhase where
  | notStarted
  /-- Takes the next unit, once `add_stmts` has returned. -/
  | fetching
  | indexing
  | finished
  deriving DecidableEq, Repr

inductive StorerPhase where
  | notStarted
  /-- In `get_stmts`, or about to call it. -/
  | getting
  /-- Sends the `n`-th statement of the batch that was taken as the
  `ticket`-th. -/
  | storing (ticket n : Nat) (stmts : Batch)
  | finished
  deriving DecidableEq, Repr

structure State (conf : Config) where
  main : MainPhase
  /-- The numbers of tasks that are in the pool. -/
  storeTasks : Nat
  parseTasks : Nat
  extraTasks : Nat
  counter : Nat
  parsers : conf.Parser → ParserPhase
  storers : conf.Storer → StorerPhase
  queue : IndexQueue conf.Parser conf.Storer
  /-- The statements that the server was sent, with the ticket of the batch. -/
  sent : List (Nat × String)

inductive Wait (conf : Config) where
  | resumeProducer (p : conf.Parser)
  | blockProducer (p : conf.Parser)
  | blockConsumer (c : conf.Storer)
  | spuriousProducer (p : conf.Parser)
  | spuriousConsumer (c : conf.Storer)

def Wait.action {conf : Config} :
    Wait conf → Queue.Action conf.Parser conf.Storer
  | .resumeProducer p => .resumeProducer p
  | .blockProducer p => .blockProducer p
  | .blockConsumer c => .blockConsumer c
  | .spuriousProducer p => .spuriousProducer p
  | .spuriousConsumer c => .spuriousConsumer c

inductive Action (conf : Config) where
  | main
  | startParse (p : conf.Parser)
  | fetch (p : conf.Parser)
  /-- `index_translation_unit` returns without a call of `add_stmts`. -/
  | skipUnit (p : conf.Parser)
  | addStmts (p : conf.Parser) (task : ParseTask) (fuel : Nat)
      (wake : Option conf.Storer)
  | startStore (c : conf.Storer)
  | getStmts (c : conf.Storer) (wake : Option conf.Parser)
  | dml (c : conf.Storer) (reply : Reply)
  | wait (w : Wait conf)

namespace State

variable {conf : Config}

def initial (conf : Config) : State conf where
  main := .start
  storeTasks := 0
  parseTasks := 0
  extraTasks := 0
  counter := 0
  parsers := fun _ => .notStarted
  storers := fun _ => .notStarted
  queue := .empty
  sent := []

def taken (s : State conf) : List Batch := s.queue.returned.reduceOption

def stepMain (s : State conf) : Option (State conf) :=
  match s.main with
  | .start =>
      if 1 ≤ conf.numStoreTasks then some { s with main := .addStoreTasks }
      else none
  | .addStoreTasks =>
      if s.storeTasks < conf.numStoreTasks then
        some { s with storeTasks := s.storeTasks + 1 }
      else
        some { s with main := .addParseTasks }
  | .addParseTasks =>
      if s.parseTasks < conf.numParseTasks then
        some { s with parseTasks := s.parseTasks + 1 }
      else
        some { s with main := .joinParseTasks }
  | .joinParseTasks =>
      if ∀ p, s.parsers p = .finished then some { s with main := .storeStop }
      else none
  | .storeStop =>
      (s.queue.step .storeStop).map fun queue =>
        { s with main := .notifyStop, queue := queue }
  | .notifyStop =>
      (s.queue.step .notifyStop).map fun queue =>
        { s with main := .checkNumStmts, queue := queue }
  | .checkNumStmts =>
      if KB 100 ≤ s.queue.numStmts ∧ 0 < conf.numExtraTasks then
        some { s with main := .addExtraTasks }
      else
        some { s with main := .pollNumStmts }
  | .addExtraTasks =>
      if s.extraTasks < conf.numExtraTasks then
        some { s with extraTasks := s.extraTasks + 1 }
      else
        some { s with main := .pollNumStmts }
  | .pollNumStmts =>
      if KB 1 ≤ s.queue.numStmts then some s
      else some { s with main := .joinStoreTasks }
  | .joinStoreTasks =>
      if ∀ i, s.storers (.inl i) = .finished then
        some { s with main := .joinExtraTasks }
      else
        none
  | .joinExtraTasks =>
      if ∀ i : Fin conf.numExtraTasks, i.val < s.extraTasks →
          s.storers (.inr i) = .finished then
        some { s with main := .returned }
      else
        none
  | .returned => none

def setParser (s : State conf) (p : conf.Parser) (phase : ParserPhase) :
    State conf :=
  { s with parsers := Function.update s.parsers p phase }

def setStorer (s : State conf) (c : conf.Storer) (phase : StorerPhase) :
    State conf :=
  { s with storers := Function.update s.storers c phase }

def Added (s : State conf) : conf.Storer → Prop
  | .inl i => i.val < s.storeTasks
  | .inr i => i.val < s.extraTasks

instance (s : State conf) : (c : conf.Storer) → Decidable (s.Added c)
  | .inl _ => inferInstanceAs (Decidable (_ < _))
  | .inr _ => inferInstanceAs (Decidable (_ < _))

def startParse (connects : conf.Connects) (s : State conf) (p : conf.Parser) :
    Option (State conf) :=
  if s.parsers p = .notStarted ∧ p.val < s.parseTasks then
    some (s.setParser p (if connects.parse p then .fetching else .finished))
  else
    none

def fetch (s : State conf) (p : conf.Parser) : Option (State conf) :=
  if s.parsers p = .fetching ∧ s.queue.producers p = .running then
    some { s.setParser p
        (if s.counter < conf.numCmds then .indexing else .finished) with
      counter := s.counter + 1 }
  else
    none

def skipUnit (s : State conf) (p : conf.Parser) : Option (State conf) :=
  if s.parsers p = .indexing then some (s.setParser p .fetching) else none

def addStmts (s : State conf) (p : conf.Parser) (task : ParseTask) (fuel : Nat)
    (wake : Option conf.Storer) : Option (State conf) :=
  if s.parsers p = .indexing then
    (task.sendIndexedResult conf.names conf.flags.batchSize fuel).bind
      fun (stmts, _) => (s.queue.step (.addStmts p stmts wake)).map
        fun queue => { s.setParser p .fetching with queue := queue }
  else
    none

def startStore (connects : conf.Connects) (s : State conf) (c : conf.Storer) :
    Option (State conf) :=
  if s.storers c = .notStarted ∧ s.Added c then
    some (s.setStorer c (if connects.store c then .getting else .finished))
  else
    none

/-- What `do_store` does with the result of `get_stmts`; there is none while
the call waits. -/
def onResult (ticket : Nat) : Option (Option Batch) → StorerPhase
  | none => .getting
  | some none => .finished
  | some (some stmts) =>
      if stmts.isEmpty then .finished else .storing ticket 0 stmts

def getStmts (s : State conf) (c : conf.Storer) (wake : Option conf.Parser) :
    Option (State conf) :=
  if s.storers c = .getting then
    (s.queue.step (.getStmts c wake)).map fun queue =>
      { s.setStorer c (onResult s.taken.length
          queue.returned[s.queue.returned.length]?) with
        queue := queue }
  else
    none

/-- After an error the rest of the batch is discarded. -/
def dml (s : State conf) (c : conf.Storer) (reply : Reply) :
    Option (State conf) :=
  match s.storers c with
  | .storing ticket n stmts =>
      stmts[n]?.map fun stmt =>
        let run := MySQL.dml conf.flags.retryCount reply
        { s.setStorer c
            (if run.ret ≠ 0 ∨ stmts.length ≤ n + 1 then .getting
              else .storing ticket (n + 1) stmts) with
          sent := if run.tried = [] then s.sent
            else (ticket, stmt) :: s.sent }
  | _ => none

def step (connects : conf.Connects) (s : State conf) :
    Action conf → Option (State conf)
  | .main => s.stepMain
  | .startParse p => s.startParse connects p
  | .fetch p => s.fetch p
  | .skipUnit p => s.skipUnit p
  | .addStmts p task fuel wake => s.addStmts p task fuel wake
  | .startStore c => s.startStore connects c
  | .getStmts c wake => s.getStmts c wake
  | .dml c reply => s.dml c reply
  | .wait w => (s.queue.step w.action).map fun queue =>
      { s with queue := queue }

end State

def doIndexing (conf : Config) (connects : conf.Connects) :
    System (State conf) (Action conf) where
  init := .initial conf
  step := State.step connects

/-! ## What one step can do -/

namespace State

variable {conf : Config}

inductive MainEffect (s : State conf) : State conf → Prop
  | asserted (was : s.main = .start) (ok : 1 ≤ conf.numStoreTasks) :
      MainEffect s { s with main := .addStoreTasks }
  | addStore (was : s.main = .addStoreTasks) :
      MainEffect s { s with storeTasks := s.storeTasks + 1 }
  | storeAdded (was : s.main = .addStoreTasks) :
      MainEffect s { s with main := .addParseTasks }
  | addParse (was : s.main = .addParseTasks) :
      MainEffect s { s with parseTasks := s.parseTasks + 1 }
  | parseAdded (was : s.main = .addParseTasks) :
      MainEffect s { s with main := .joinParseTasks }
  | parseJoined (was : s.main = .joinParseTasks)
      (joined : ∀ p, s.parsers p = .finished) :
      MainEffect s { s with main := .storeStop }
  | storeStop (was : s.main = .storeStop)
      (queue : IndexQueue conf.Parser conf.Storer)
      (moves : s.queue.step .storeStop = some queue) :
      MainEffect s { s with main := .notifyStop, queue := queue }
  | notifyStop (was : s.main = .notifyStop)
      (queue : IndexQueue conf.Parser conf.Storer)
      (moves : s.queue.step .notifyStop = some queue) :
      MainEffect s { s with main := .checkNumStmts, queue := queue }
  | manyStmts (was : s.main = .checkNumStmts) :
      MainEffect s { s with main := .addExtraTasks }
  | fewStmts (was : s.main = .checkNumStmts) :
      MainEffect s { s with main := .pollNumStmts }
  | addExtra (was : s.main = .addExtraTasks) :
      MainEffect s { s with extraTasks := s.extraTasks + 1 }
  | extraAdded (was : s.main = .addExtraTasks) :
      MainEffect s { s with main := .pollNumStmts }
  | sleeps (was : s.main = .pollNumStmts) : MainEffect s s
  | polled (was : s.main = .pollNumStmts) :
      MainEffect s { s with main := .joinStoreTasks }
  | storeJoined (was : s.main = .joinStoreTasks)
      (joined : ∀ i, s.storers (.inl i) = .finished) :
      MainEffect s { s with main := .joinExtraTasks }
  | extraJoined (was : s.main = .joinExtraTasks)
      (joined : ∀ i : Fin conf.numExtraTasks, i.val < s.extraTasks →
        s.storers (.inr i) = .finished) :
      MainEffect s { s with main := .returned }

inductive Effect (connects : conf.Connects) (s : State conf) :
    Action conf → State conf → Prop
  | main (s' : State conf) (moves : s.MainEffect s') :
      Effect connects s .main s'
  | startParse (p : conf.Parser) (was : s.parsers p = .notStarted) :
      Effect connects s (.startParse p)
        (s.setParser p (if connects.parse p then .fetching else .finished))
  | fetch (p : conf.Parser) (was : s.parsers p = .fetching) :
      Effect connects s (.fetch p) { s.setParser p
          (if s.counter < conf.numCmds then .indexing else .finished) with
        counter := s.counter + 1 }
  | skipUnit (p : conf.Parser) (was : s.parsers p = .indexing) :
      Effect connects s (.skipUnit p) (s.setParser p .fetching)
  | addStmts (p : conf.Parser) (task after : ParseTask) (fuel : Nat)
      (wake : Option conf.Storer) (stmts : Batch)
      (queue : IndexQueue conf.Parser conf.Storer)
      (was : s.parsers p = .indexing)
      (batch : task.sendIndexedResult conf.names conf.flags.batchSize fuel =
        some (stmts, after))
      (moves : s.queue.step (.addStmts p stmts wake) = some queue) :
      Effect connects s (.addStmts p task fuel wake)
        { s.setParser p .fetching with queue := queue }
  | startStore (c : conf.Storer) (was : s.storers c = .notStarted)
      (added : s.Added c) :
      Effect connects s (.startStore c)
        (s.setStorer c (if connects.store c then .getting else .finished))
  | waits (c : conf.Storer) (wake : Option conf.Parser)
      (queue : IndexQueue conf.Parser conf.Storer)
      (was : s.storers c = .getting)
      (moves : s.queue.step (.getStmts c wake) = some queue)
      (same : queue.returned = s.queue.returned) :
      Effect connects s (.getStmts c wake)
        { s.setStorer c .getting with queue := queue }
  | gets (c : conf.Storer) (wake : Option conf.Parser)
      (queue : IndexQueue conf.Parser conf.Storer) (res : Option Batch)
      (was : s.storers c = .getting)
      (moves : s.queue.step (.getStmts c wake) = some queue)
      (result : queue.returned = s.queue.returned ++ [res]) :
      Effect connects s (.getStmts c wake)
        { s.setStorer c (onResult s.taken.length (some res)) with
          queue := queue }
  | dml (c : conf.Storer) (reply : Reply) (ticket n : Nat) (stmts : Batch)
      (stmt : String) (was : s.storers c = .storing ticket n stmts)
      (head : stmts[n]? = some stmt) :
      Effect connects s (.dml c reply) { s.setStorer c
          (if (MySQL.dml conf.flags.retryCount reply).ret ≠ 0 ∨
              stmts.length ≤ n + 1 then .getting
            else .storing ticket (n + 1) stmts) with
        sent := if (MySQL.dml conf.flags.retryCount reply).tried = [] then s.sent
          else (ticket, stmt) :: s.sent }
  | wait (w : Wait conf) (queue : IndexQueue conf.Parser conf.Storer)
      (moves : s.queue.step w.action = some queue) :
      Effect connects s (.wait w) { s with queue := queue }

theorem mainEffect_of_stepMain {s s' : State conf}
    (h : s.stepMain = some s') : s.MainEffect s' := by
  unfold stepMain at h
  split at h
  · rename_i was
    obtain ⟨hok, h⟩ := Option.ite_none_right_eq_some.mp h
    cases h
    exact .asserted was hok
  · rename_i was
    split_ifs at h <;> cases h
    · exact .addStore was
    · exact .storeAdded was
  · rename_i was
    split_ifs at h <;> cases h
    · exact .addParse was
    · exact .parseAdded was
  · rename_i was
    obtain ⟨hjoined, h⟩ := Option.ite_none_right_eq_some.mp h
    cases h
    exact .parseJoined was hjoined
  · rename_i was
    obtain ⟨queue, hmoves, rfl⟩ := Option.map_eq_some_iff.mp h
    exact .storeStop was queue hmoves
  · rename_i was
    obtain ⟨queue, hmoves, rfl⟩ := Option.map_eq_some_iff.mp h
    exact .notifyStop was queue hmoves
  · rename_i was
    split_ifs at h <;> cases h
    · exact .manyStmts was
    · exact .fewStmts was
  · rename_i was
    split_ifs at h <;> cases h
    · exact .addExtra was
    · exact .extraAdded was
  · rename_i was
    split_ifs at h <;> cases h
    · exact .sleeps was
    · exact .polled was
  · rename_i was
    obtain ⟨hjoined, h⟩ := Option.ite_none_right_eq_some.mp h
    cases h
    exact .storeJoined was hjoined
  · rename_i was
    obtain ⟨hjoined, h⟩ := Option.ite_none_right_eq_some.mp h
    cases h
    exact .extraJoined was hjoined
  · contradiction

theorem effect_of_step {connects : conf.Connects} {s s' : State conf}
    {a : Action conf} (h : s.step connects a = some s') :
    s.Effect connects a s' := by
  cases a with
  | main => exact .main s' (mainEffect_of_stepMain h)
  | startParse p =>
      obtain ⟨⟨was, -⟩, h⟩ := Option.ite_none_right_eq_some.mp h
      cases h
      exact .startParse p was
  | fetch p =>
      obtain ⟨⟨was, -⟩, h⟩ := Option.ite_none_right_eq_some.mp h
      cases h
      exact .fetch p was
  | skipUnit p =>
      obtain ⟨was, h⟩ := Option.ite_none_right_eq_some.mp h
      cases h
      exact .skipUnit p was
  | addStmts p task fuel wake =>
      obtain ⟨was, h⟩ := Option.ite_none_right_eq_some.mp h
      obtain ⟨⟨stmts, after⟩, hbatch, h⟩ := Option.bind_eq_some_iff.mp h
      obtain ⟨queue, hmoves, rfl⟩ := Option.map_eq_some_iff.mp h
      exact .addStmts p task after fuel wake stmts queue was hbatch hmoves
  | startStore c =>
      obtain ⟨⟨was, hadded⟩, h⟩ := Option.ite_none_right_eq_some.mp h
      cases h
      exact .startStore c was hadded
  | getStmts c wake =>
      obtain ⟨was, h⟩ := Option.ite_none_right_eq_some.mp h
      obtain ⟨queue, hmoves, rfl⟩ := Option.map_eq_some_iff.mp h
      rcases IndexQueue.returned_of_step hmoves with
        hsame | ⟨_, _, res, -, hresult⟩
      · rw [hsame, List.getElem?_eq_none (le_refl _)]
        exact .waits c wake queue was hmoves hsame
      · rw [hresult, List.getElem?_concat_length]
        exact .gets c wake queue res was hmoves hresult
  | dml c reply =>
      simp only [step, dml] at h
      split at h
      · rename_i ticket n stmts was
        obtain ⟨stmt, hstmt, rfl⟩ := Option.map_eq_some_iff.mp h
        exact .dml c reply ticket n stmts stmt was hstmt
      · contradiction
  | wait w =>
      obtain ⟨queue, hmoves, rfl⟩ := Option.map_eq_some_iff.mp h
      exact .wait w queue hmoves

end State

end Pview.Shutdown
