import Pview.Foundation.Groups
import Pview.Foundation.Transition
import Pview.Indexer.SourcePath
import Pview.Indexer.Statements
import Pview.Indexer.Store
import Pview.MySQL.Connection
import Pview.MySQL.Filepaths
import Pview.Reindex.IncludeAnalyzer

/-!
# Indexing runs

Parse tasks, store tasks, the queue between them and the database that their
statements change, over any number of runs: a new run may begin at any moment,
which cuts off the one before it.  Which task takes which compile command, what
clang finds in a file, the times of files and the server's replies are in the
actions.  The queue is the FIFO that `Queue.Fifo` shows it to be.

`query_or_assign_file_id` takes two actions, its statement on the filepaths
table being the second; tasks are not kept from interleaving there, although
the table lock may do so.
-/

namespace Pview.Pipeline

open Pview.Foundation
open Pview.Indexer
open Pview.MySQL
open Pview.Reindex (Analysis checkNeedReindex)

structure CompileCommand where
  directory : String
  filename : String
  commandLine : List String
  deriving DecidableEq, Repr

structure Project where
  root : String
  /-- The compile commands of any run. -/
  commands : List CompileCommand
  /-- What the filepath column holds for a text between the quotes of a
  statement, up to the differences that its collation ignores. -/
  stored : String → String

def Project.filepath (project : Project) (command : CompileCommand) : String :=
  (simplifySourcePath project.root command.filename).1

def Project.storedPath (project : Project) (command : CompileCommand) :
    String :=
  project.stored (project.filepath command)

/-- `FLAGS_mysql_insert_dead_lock_retry_count` and
`FLAGS_db_update_batch_size`. -/
structure Flags where
  retryCount : Int := 10
  batchSize : Int := 64

/-! ## The database -/

structure Database where
  filepaths : List FilepathRow
  log : List Statement

namespace Database

def execute (stored : String → String) (db : Database) (stmt : Statement) :
    Database where
  filepaths :=
    match stmt with
    | .replaceFilepath filepathId filepath createTime =>
        replaceFilepath db.filepaths filepathId (stored filepath) createTime
    | _ => db.filepaths
  log := db.log ++ [stmt]

def dml (stored : String → String) (retryCount : Int) (reply : Reply)
    (db : Database) (stmt : Statement) : Database :=
  (executed retryCount reply stmt).foldl (execute stored) db

end Database

/-! ## Parse tasks -/

/-- A compile command being indexed, with what `ParseTask` holds for it. -/
structure TranslationUnit (project : Project) where
  command : CompileCommand
  task : ParseTask
  listed : command ∈ project.commands
  path : task.currentFilepath = project.filepath command

variable {project : Project}

namespace TranslationUnit

def start {command : CompileCommand} (h : command ∈ project.commands)
    (filepathId time : Int) : TranslationUnit project where
  command := command
  task :=
    { funcDefs := []
      funcCalls := []
      currentTime := time
      currentFilepath := project.filepath command
      currentFilepathId := filepathId }
  listed := h
  path := rfl

def addFuncDef (unit : TranslationUnit project) (d : FuncDef) :
    TranslationUnit project :=
  { unit with task :=
      { unit.task with funcDefs := unit.task.funcDefs ++ [d] } }

def addFuncCall (unit : TranslationUnit project) (d : FuncCall) :
    TranslationUnit project :=
  { unit with task :=
      { unit.task with funcCalls := unit.task.funcCalls ++ [d] } }

end TranslationUnit

inductive Activity (project : Project) where
  | idle
  | indexing (unit : TranslationUnit project)
  /-- In `query_or_assign_file_id`, before the row is written. -/
  | assigning (unit : TranslationUnit project) (filepath : String) (fnId : Int)

structure Parser (project : Project) where
  activity : Activity project
  /-- `local_filepath_cache_`. -/
  cache : List (String × Int)

structure Check where
  answered : Bool
  fileExists : Bool
  curFileMtime : Int
  analysis : Analysis

/-- The steps of a parse task that change neither database nor queue. -/
inductive ParseAction where
  | begin (command : CompileCommand) (check : Check) (time : Int)
  | addFuncDef (d : FuncDef)
  | addFuncCall (d : FuncCall)
  | queryFileId (file : String) (lock : Reply) (ids : List Int)
  | fail

def Parser.step (flags : Flags) (rows : List FilepathRow)
    (nextFilepathId : Int) (parser : Parser project) :
    ParseAction → Option (Parser project × Int)
  | .begin command check time =>
      match parser.activity with
      | .idle =>
          if h : command ∈ project.commands then
            let lastMtime := getFileLastMtime check.answered rows
              (project.storedPath command)
            if checkNeedReindex check.fileExists check.curFileMtime lastMtime
                check.analysis then
              some ({ parser with
                activity := .indexing (.start h nextFilepathId time) },
                nextFilepathId + 1)
            else
              some (parser, nextFilepathId)
          else
            none
      | _ => none
  | .addFuncDef d =>
      match parser.activity with
      | .indexing unit => some
          ({ parser with activity := .indexing (unit.addFuncDef d) },
            nextFilepathId)
      | _ => none
  | .addFuncCall d =>
      match parser.activity with
      | .indexing unit => some
          ({ parser with activity := .indexing (unit.addFuncCall d) },
            nextFilepathId)
      | _ => none
  | .queryFileId file lock ids =>
      match parser.activity with
      | .indexing unit =>
          let (filepath, inProject) := sourceFile project.root file
          if inProject ∧ filepath ≠ unit.task.currentFilepath ∧
              filepath ∉ parser.cache.map Prod.fst ∧
              ids.Perm (filepathIds rows (project.stored filepath)) then
            let fnId := (ids.head?.map fun id => getInt (some id)).getD (-1)
            if (MySQL.dml flags.retryCount lock).ret ≠ 0 then
              some (parser, nextFilepathId)
            else if 0 ≤ fnId then
              some ({ parser with cache := (filepath, fnId) :: parser.cache },
                nextFilepathId)
            else
              some ({ parser with
                activity := .assigning unit filepath nextFilepathId },
                nextFilepathId + 1)
          else
            none
      | _ => none
  | .fail =>
      match parser.activity with
      | .indexing _ => some ({ parser with activity := .idle }, nextFilepathId)
      | _ => none

def Parser.assigned (parser : Parser project) (unit : TranslationUnit project)
    (filepath : String) (fnId ret : Int) : Parser project where
  activity := .indexing unit
  cache :=
    if ret = 0 ∧ 0 ≤ fnId then (filepath, fnId) :: parser.cache
    else parser.cache

/-! ## Batches and store tasks -/

structure Batch (project : Project) where
  unit : TranslationUnit project
  defGroups : List (List FuncDef)
  callGroups : List (List FuncCall)

namespace Batch

def symbols (batch : Batch project) : List Statement :=
  batch.defGroups.map (.insertFuncDefs batch.unit.task.currentTime) ++
    batch.callGroups.map (.insertFuncCalls batch.unit.task.currentTime)

def marker (batch : Batch project) : Statement :=
  .replaceFilepath batch.unit.task.currentFilepathId
    batch.unit.task.currentFilepath batch.unit.task.currentTime

def stmts (batch : Batch project) : List Statement :=
  batch.unit.task.batch batch.defGroups batch.callGroups

/-- The groups are those of `send_indexed_result`, whose loops do not end for
symbols and a limit of zero. -/
def Cut (limit : Nat) (batch : Batch project) : Prop :=
  (limit ≠ 0 ∨
    batch.unit.task.funcDefs = [] ∧ batch.unit.task.funcCalls = []) ∧
  CutInto limit (batch.unit.task.funcDefs.filter fun d => !d.skipped)
    batch.defGroups ∧
  CutInto limit (batch.unit.task.funcCalls.filter fun d => !d.skipped)
    batch.callGroups

instance (limit : Nat) (batch : Batch project) :
    Decidable (batch.Cut limit) :=
  inferInstanceAs (Decidable (_ ∧ _))

theorem stmts_eq (batch : Batch project) :
    batch.stmts = batch.symbols ++ [batch.marker] := rfl

theorem replaceFilepath_notMem_symbols (batch : Batch project)
    (filepathId : Int) (filepath : String) (createTime : Int) :
    .replaceFilepath filepathId filepath createTime ∉ batch.symbols := by
  simp [symbols]

theorem stmts_getElem {batch : Batch project} {n : Nat} {stmt : Statement}
    (h : batch.stmts[n]? = some stmt) :
    batch.symbols[n]? = some stmt ∨
      n = batch.symbols.length ∧ stmt = batch.marker := by
  rw [stmts_eq, List.getElem?_append] at h
  split at h
  · exact .inl h
  · rename_i hge
    right
    rw [List.getElem?_singleton, Option.ite_none_right_eq_some] at h
    cases h.2
    exact ⟨by omega, rfl⟩

end Batch

inductive Storer (project : Project) where
  | idle
  /-- Before the statement at offset `n`. -/
  | storing (batch : Batch project) (n : Nat)

def Storer.next (batch : Batch project) (n : Nat) (ret : Int) :
    Storer project :=
  if ret ≠ 0 ∨ n + 1 = batch.stmts.length then .idle
  else .storing batch (n + 1)

theorem Storer.batch_of_next {batch batch' : Batch project} {n m : Nat}
    {ret : Int} (h : Storer.next batch n ret = .storing batch' m) :
    batch' = batch := by
  unfold Storer.next at h
  split at h
  · contradiction
  · cases h
    rfl

/-! ## The system -/

structure State (project : Project) (P C : Type*) where
  flags : Flags
  nextFilepathId : Int
  db : Database
  queue : List (Batch project)
  parsers : P → Parser project
  storers : C → Storer project
  /-- The batches of all successful indexings. -/
  indexed : List (Batch project)

inductive Action (P C : Type*) where
  | startRun (flags : Flags)
  | parse (p : P) (action : ParseAction)
  /-- The end of `query_or_assign_file_id`; `mtime` is `get_file_mtime` of the
  simplified path in the working directory. -/
  | assignFileId (p : P) (mtime : Int) (reply : Reply)
  | sendIndexedResult (p : P) (defGroups : List (List FuncDef))
      (callGroups : List (List FuncCall))
  | getStmts (c : C)
  | dml (c : C) (reply : Reply)

namespace State

variable {P C : Type*}

def empty (project : Project) (P C : Type*) : State project P C where
  flags := {}
  nextFilepathId := 1
  db := ⟨[], []⟩
  queue := []
  parsers := fun _ => ⟨.idle, []⟩
  storers := fun _ => .idle
  indexed := []

def startRun (s : State project P C) (flags : Flags) : State project P C where
  flags := flags
  nextFilepathId := getInt (maxFilepathId s.db.filepaths) + 1
  db := s.db
  queue := []
  parsers := fun _ => ⟨.idle, []⟩
  storers := fun _ => .idle
  indexed := s.indexed

variable [DecidableEq P] [DecidableEq C]

def assignFileId (s : State project P C) (p : P) (mtime : Int)
    (reply : Reply) : Option (State project P C) :=
  match (s.parsers p).activity with
  | .assigning unit filepath fnId =>
      let retryCount := s.flags.retryCount
      some { s with
        db := s.db.dml project.stored retryCount reply
          (.replaceFilepath fnId filepath mtime)
        parsers := Function.update s.parsers p
          ((s.parsers p).assigned unit filepath fnId
            (MySQL.dml retryCount reply).ret) }
  | _ => none

def sendIndexedResult (s : State project P C) (p : P)
    (defGroups : List (List FuncDef)) (callGroups : List (List FuncCall)) :
    Option (State project P C) :=
  match (s.parsers p).activity with
  | .indexing unit =>
      let batch : Batch project := ⟨unit, defGroups, callGroups⟩
      if batch.Cut (batchLimit s.flags.batchSize) then
        some { s with
          queue := s.queue ++ [batch]
          parsers := Function.update s.parsers p
            { s.parsers p with activity := .idle }
          indexed := s.indexed ++ [batch] }
      else
        none
  | _ => none

def getStmts (s : State project P C) (c : C) : Option (State project P C) :=
  match s.storers c, s.queue with
  | .idle, batch :: rest => some { s with
      queue := rest
      storers := Function.update s.storers c (.storing batch 0) }
  | _, _ => none

/-- One round of the loop of `do_store` over a batch. -/
def storeStmt (s : State project P C) (c : C) (reply : Reply) :
    Option (State project P C) :=
  match s.storers c with
  | .storing batch n =>
      batch.stmts[n]?.map fun stmt =>
        let retryCount := s.flags.retryCount
        { s with
          db := s.db.dml project.stored retryCount reply stmt
          storers := Function.update s.storers c
            (.next batch n (MySQL.dml retryCount reply).ret) }
  | _ => none

def step (s : State project P C) : Action P C → Option (State project P C)
  | .startRun flags => some (s.startRun flags)
  | .parse p action =>
      ((s.parsers p).step s.flags s.db.filepaths s.nextFilepathId action).map
        fun (parser, nextFilepathId) => { s with
          nextFilepathId := nextFilepathId
          parsers := Function.update s.parsers p parser }
  | .assignFileId p mtime reply => s.assignFileId p mtime reply
  | .sendIndexedResult p defGroups callGroups =>
      s.sendIndexedResult p defGroups callGroups
  | .getStmts c => s.getStmts c
  | .dml c reply => s.storeStmt c reply

end State

def indexing (project : Project) (P C : Type*) [DecidableEq P]
    [DecidableEq C] : System (State project P C) (Action P C) where
  init := .empty project P C
  step := State.step

/-! ## What one step can do -/

inductive State.Effect {P C : Type*} [DecidableEq P] [DecidableEq C]
    (s : State project P C) : Action P C → State project P C → Prop
  | startRun (flags : Flags) : Effect s (.startRun flags) (s.startRun flags)
  | parse (p : P) (action : ParseAction) (parser : Parser project)
      (nextFilepathId : Int)
      (moves : (s.parsers p).step s.flags s.db.filepaths s.nextFilepathId
        action = some (parser, nextFilepathId)) :
      Effect s (.parse p action) { s with
        nextFilepathId := nextFilepathId
        parsers := Function.update s.parsers p parser }
  | assignFileId (p : P) (mtime : Int) (reply : Reply)
      (unit : TranslationUnit project) (filepath : String) (fnId : Int)
      (was : (s.parsers p).activity = .assigning unit filepath fnId) :
      Effect s (.assignFileId p mtime reply) { s with
        db := s.db.dml project.stored s.flags.retryCount reply
          (.replaceFilepath fnId filepath mtime)
        parsers := Function.update s.parsers p
          ((s.parsers p).assigned unit filepath fnId
            (MySQL.dml s.flags.retryCount reply).ret) }
  | sendIndexedResult (p : P) (batch : Batch project)
      (was : (s.parsers p).activity = .indexing batch.unit)
      (cut : batch.Cut (batchLimit s.flags.batchSize)) :
      Effect s (.sendIndexedResult p batch.defGroups batch.callGroups) { s with
        queue := s.queue ++ [batch]
        parsers := Function.update s.parsers p
          { s.parsers p with activity := .idle }
        indexed := s.indexed ++ [batch] }
  | getStmts (c : C) (batch : Batch project) (rest : List (Batch project))
      (was : s.storers c = .idle) (head : s.queue = batch :: rest) :
      Effect s (.getStmts c) { s with
        queue := rest
        storers := Function.update s.storers c (.storing batch 0) }
  | dml (c : C) (reply : Reply) (batch : Batch project) (n : Nat)
      (stmt : Statement) (was : s.storers c = .storing batch n)
      (next : batch.stmts[n]? = some stmt) :
      Effect s (.dml c reply) { s with
        db := s.db.dml project.stored s.flags.retryCount reply stmt
        storers := Function.update s.storers c
          (.next batch n (MySQL.dml s.flags.retryCount reply).ret) }

theorem State.effect_of_step {P C : Type*} [DecidableEq P] [DecidableEq C]
    {s s' : State project P C} {action : Action P C}
    (h : s.step action = some s') : s.Effect action s' := by
  cases action with
  | startRun flags =>
      cases h
      exact .startRun flags
  | parse p action =>
      simp only [State.step, Option.map_eq_some_iff] at h
      obtain ⟨⟨parser, nextFilepathId⟩, hmoves, h⟩ := h
      cases h
      exact .parse p action parser nextFilepathId hmoves
  | assignFileId p mtime reply =>
      simp only [State.step, State.assignFileId] at h
      split at h
      · rename_i unit filepath fnId hassigning
        cases h
        exact .assignFileId p mtime reply unit filepath fnId hassigning
      · contradiction
  | sendIndexedResult p defGroups callGroups =>
      simp only [State.step, State.sendIndexedResult] at h
      split at h
      · rename_i unit hindexing
        simp only [Option.ite_none_right_eq_some] at h
        obtain ⟨hcut, h⟩ := h
        cases h
        exact .sendIndexedResult p ⟨unit, defGroups, callGroups⟩ hindexing hcut
      · contradiction
  | getStmts c =>
      simp only [State.step, State.getStmts] at h
      split at h
      · rename_i batch rest hidle hqueue
        cases h
        exact .getStmts c batch rest hidle hqueue
      · contradiction
  | dml c reply =>
      simp only [State.step, State.storeStmt] at h
      split at h
      · rename_i batch n hstoring
        obtain ⟨stmt, hstmt, h⟩ := Option.map_eq_some_iff.mp h
        cases h
        exact .dml c reply batch n stmt hstoring hstmt
      · contradiction

/-! ## One statement -/

section Dml

variable {stored : String → String} {retryCount : Int} {reply : Reply}

theorem Database.dml_of_executes (h : Executes retryCount reply)
    (db : Database) (stmt : Statement) :
    db.dml stored retryCount reply stmt = db.execute stored stmt := by
  unfold dml
  rw [executed_of_executes h]
  rfl

theorem Database.dml_of_not_executes (h : ¬Executes retryCount reply)
    (db : Database) (stmt : Statement) :
    db.dml stored retryCount reply stmt = db := by
  unfold dml
  rw [executed_of_not_executes h]
  rfl

theorem Database.log_dml (db : Database) (stmt : Statement) :
    (db.dml stored retryCount reply stmt).log =
      db.log ++ executed retryCount reply stmt := by
  by_cases h : Executes retryCount reply
  · rw [dml_of_executes h, executed_of_executes h]
    rfl
  · rw [dml_of_not_executes h, executed_of_not_executes h, List.append_nil]

theorem Database.log_subset_dml (db : Database) (stmt : Statement) :
    db.log ⊆ (db.dml stored retryCount reply stmt).log := by
  rw [log_dml]
  exact List.subset_append_left _ _

theorem Database.mem_filepaths_dml {db : Database} {stmt : Statement}
    {row : FilepathRow}
    (h : row ∈ (db.dml stored retryCount reply stmt).filepaths) :
    row ∈ db.filepaths ∨ Executes retryCount reply ∧
      ∃ filepathId filepath createTime,
        stmt = .replaceFilepath filepathId filepath createTime ∧
          row = ⟨filepathId, stored filepath, fromUnixtime createTime⟩ := by
  by_cases hexecutes : Executes retryCount reply
  · rw [dml_of_executes hexecutes] at h
    cases stmt with
    | replaceFilepath filepathId filepath createTime =>
        rcases mem_replaceFilepath h with hold | hnew
        · exact .inl hold
        · exact .inr ⟨hexecutes, filepathId, filepath, createTime, rfl, hnew⟩
    | _ => exact .inl h
  · rw [dml_of_not_executes hexecutes] at h
    exact .inl h

end Dml

/-! ## One batch -/

/-- A queued batch is what `send_indexed_result` makes of the symbols. -/
theorem Batch.Cut.converges {limit : Int} {batch : Batch project}
    (h : batch.Cut (batchLimit limit)) (names : TableNames) :
    Converges (batch.unit.task.sendIndexedResult names limit)
      (batch.stmts.map (Statement.text names),
        batch.unit.task.clearCurrentTranslationUnitResult) :=
  ParseTask.sendIndexedResult_of_cut names h.1 h.2.1 h.2.2

/-! ## Runs whose statements execute -/

section AllExecute

variable {P C : Type*} [DecidableEq P] [DecidableEq C]

/-- Every statement that the step sends is executed. -/
def AllExecute (s : State project P C) : Action P C → Prop
  | .assignFileId _ _ reply => Executes s.flags.retryCount reply
  | .dml _ reply => Executes s.flags.retryCount reply
  | _ => True

/-- A step of a run with default flags whose statements succeed at once. -/
def Smooth : Action P C → Prop
  | .startRun flags => flags = {}
  | .assignFileId _ _ reply => reply = ⟨true, fun _ => .success⟩
  | .dml _ reply => reply = ⟨true, fun _ => .success⟩
  | _ => True

theorem executes_success {retryCount : Int}
    (h : 2 ≤ retryBound retryCount) :
    Executes retryCount ⟨true, fun _ => .success⟩ :=
  ⟨rfl, 1, le_rfl, h, rfl, by omega⟩

theorem allowed_of_smooth {schedule : List (Action P C)}
    (h : ∀ a ∈ schedule, Smooth a) {s : State project P C}
    (hflags : s.flags = {}) :
    (indexing project P C).Allowed AllExecute s schedule := by
  apply System.allowed_of_invariant (I := fun s => s.flags = {}) ?_ ?_ h hflags
  · intro s a hflags ha
    have hbound : 2 ≤ retryBound s.flags.retryCount := by
      rw [hflags]
      decide
    cases a with
    | assignFileId p mtime reply => exact ha ▸ executes_success hbound
    | dml c reply => exact ha ▸ executes_success hbound
    | _ => trivial
  · intro s s' a hflags ha hstep
    cases State.effect_of_step hstep with
    | startRun flags => exact ha
    | _ => exact hflags

end AllExecute

end Pview.Pipeline
