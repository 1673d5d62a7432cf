import Pview.Foundation.Allocation
import Pview.Foundation.PrimaryKey
import Pview.Indexer.SymbolTables
import Pview.Pipeline.System

/-!
# File ids

Where the ids of files come from and which symbols are stored with them, over
any number of runs: parse tasks that hold the lock of the filepaths table
between the statements of `query_or_assign_file_id`, their caches, the queue
and the store tasks.  A symbol carries the file that it was seen in, which no
column holds.

Which compile commands are up to date is left open: any of them may be indexed
at any time.
-/

namespace Pview.FileIds

open Pview.Foundation
open Pview.Foundation.PrimaryKey
open Pview.Indexer
open Pview.MySQL
open Pview.Pipeline (Project CompileCommand Flags)

/-- A symbol, or its row, and the path of its location. -/
structure Seen (α : Type) where
  symbol : α
  file : String
  deriving DecidableEq, Repr

def Seen.map {α β : Type} (f : α → β) (d : Seen α) : Seen β :=
  ⟨f d.symbol, d.file⟩

/-! ## The database -/

inductive Stmt where
  | insertFuncDefs (currentTime : Int) (rows : List (Seen FuncDef))
  | insertFuncCalls (currentTime : Int) (rows : List (Seen FuncCall))
  | replaceFilepath (filepathId : Int) (filepath : String) (createTime : Int)
  deriving DecidableEq, Repr

structure Tables where
  filepaths : List FilepathRow
  funcDefinitions : List (Seen FuncDefRow)
  funcCalls : List (Seen FuncCallRow)
  deriving DecidableEq, Repr

namespace Tables

variable (project : Project) (column : String → String)

def execute (tables : Tables) : Stmt → Tables
  | .insertFuncDefs currentTime rows => { tables with
      funcDefinitions := insertAllIgnore (fun d => d.symbol.usr)
        tables.funcDefinitions
        (rows.map (Seen.map (FuncDef.row column currentTime))) }
  | .insertFuncCalls currentTime rows => { tables with
      funcCalls := insertAllIgnore (fun d => d.symbol.funcCallId)
        tables.funcCalls
        (rows.map (Seen.map (FuncCall.row column currentTime))) }
  | .replaceFilepath filepathId filepath createTime => { tables with
      filepaths := replaceFilepath tables.filepaths filepathId
        (project.stored filepath) createTime }

def dml (retryCount : Int) (reply : Reply) (tables : Tables) (stmt : Stmt) :
    Tables :=
  (executed retryCount reply stmt).foldl (execute project column) tables

end Tables

/-! ## Parse tasks -/

/-- A call of `query_or_assign_file_id` that has missed the cache, by what it
does next.  `before` is the table as the call found it under its lock. -/
inductive Phase where
  | idle
  | locking (filepath : String)
  | querying (filepath : String) (before : List FilepathRow)
  | assigning (filepath : String) (before : List FilepathRow)
  | replacing (filepath : String) (before : List FilepathRow) (fnId : Int)
  | unlocking (filepath : String) (before : List FilepathRow) (fnId : Int)
  deriving DecidableEq, Repr

/-- The translation unit of a parse task; `located` are the paths and file ids
that `gen_source_location` gave to locations in it. -/
structure CurrentUnit where
  filepath : String
  filepathId : Int
  time : Int
  located : List (String × Int)
  funcDefs : List (Seen FuncDef)
  funcCalls : List (Seen FuncCall)
  deriving DecidableEq, Repr

structure Parser where
  unit : Option CurrentUnit
  phase : Phase
  /-- `local_filepath_cache_`. -/
  cache : List (String × Int)
  deriving DecidableEq, Repr

structure Return where
  filepath : String
  fileId : Int
  tableBefore : List FilepathRow
  tableAfter : List FilepathRow
  cacheBefore : List (String × Int)
  cacheAfter : List (String × Int)
  deriving DecidableEq, Repr

namespace Parser

def new : Parser := ⟨none, .idle, []⟩

def addLocated (parser : Parser) (filepath : String) (fileId : Int) : Parser :=
  { parser with unit := parser.unit.map fun unit =>
      { unit with located := (filepath, fileId) :: unit.located } }

/-- The end of `query_or_assign_file_id`, after the destructor of the lock. -/
def finish (parser : Parser) (filepath : String) (fnId : Int) : Parser :=
  { parser.addLocated filepath fnId with
    phase := .idle
    cache :=
      if 0 ≤ fnId then (filepath, fnId) :: parser.cache else parser.cache }

end Parser

/-- The steps of a parse task in a translation unit that send nothing. -/
inductive ParseAction where
  | genSourceLocation (file : String)
  | addFuncDef (d : Seen FuncDef)
  | addFuncCall (d : Seen FuncCall)
  /-- The unit fails, or a query without a result set crashes it. -/
  | fail

def Parser.step (project : Project) (rows : List FilepathRow)
    (parser : Parser) (unit : CurrentUnit) :
    ParseAction → Option (Parser × List Return)
  | .genSourceLocation file =>
      if parser.phase = .idle then
        let (filepath, inProject) := sourceFile project.root file
        if filepath = unit.filepath then
          some (parser.addLocated filepath unit.filepathId, [])
        else if inProject then
          match parser.cache.find? fun entry => entry.1 = filepath with
          | some (_, fileId) => some (parser.addLocated filepath fileId,
              [⟨filepath, fileId, rows, rows, parser.cache, parser.cache⟩])
          | none => some ({ parser with phase := .locking filepath }, [])
        else
          some (parser.addLocated filepath kInvalidFileId, [])
      else
        none
  | .addFuncDef d =>
      if parser.phase = .idle ∧
          (d.file, d.symbol.info.sourceLocation.fileId) ∈ unit.located then
        some ({ parser with
          unit := some { unit with funcDefs := unit.funcDefs ++ [d] } }, [])
      else
        none
  | .addFuncCall d =>
      if parser.phase = .idle ∧
          (d.file, d.symbol.info.sourceLocation.fileId) ∈ unit.located then
        some ({ parser with
          unit := some { unit with funcCalls := unit.funcCalls ++ [d] } }, [])
      else
        none
  | .fail =>
      match parser.phase with
      | .idle => some ({ parser with unit := none }, [])
      | .querying _ _ => some ({ parser with unit := none, phase := .idle }, [])
      | _ => none

/-! ## Batches -/

structure Batch where
  unit : CurrentUnit
  defGroups : List (List (Seen FuncDef))
  callGroups : List (List (Seen FuncCall))
  deriving DecidableEq, Repr

def Batch.stmts (batch : Batch) : List Stmt :=
  batch.defGroups.map (.insertFuncDefs batch.unit.time) ++
    batch.callGroups.map (.insertFuncCalls batch.unit.time) ++
    [.replaceFilepath batch.unit.filepathId batch.unit.filepath
      batch.unit.time]

def Batch.Cut (limit : Nat) (batch : Batch) : Prop :=
  (limit ≠ 0 ∨ batch.unit.funcDefs = [] ∧ batch.unit.funcCalls = []) ∧
  CutInto limit (batch.unit.funcDefs.filter fun d => !d.symbol.skipped)
    batch.defGroups ∧
  CutInto limit (batch.unit.funcCalls.filter fun d => !d.symbol.skipped)
    batch.callGroups

instance (limit : Nat) (batch : Batch) : Decidable (batch.Cut limit) :=
  inferInstanceAs (Decidable (_ ∧ _))

/-! ## The system -/

structure State (P C : Type*) where
  flags : Flags
  nextFilepathId : Int
  tables : Tables
  /-- The task whose connection has the filepaths table locked. -/
  holder : Option P
  parsers : P → Parser
  queue : List Batch
  /-- The statements of its batch that a store task has still to send. -/
  storers : C → List Stmt
  /-- The ids drawn in this run, with the paths they were drawn for. -/
  given : List (String × Int)
  /-- The main files of the units indexed in this run. -/
  indexed : List String
  /-- The calls that ended in this run. -/
  returned : List Return

inductive Action (P C : Type*) where
  | startRun (flags : Flags)
  | beginUnit (p : P) (command : CompileCommand) (time : Int)
  | parse (p : P) (action : ParseAction)
  | lock (p : P) (reply : Reply)
  | query (p : P) (ids : List Int)
  | getNextFilepathId (p : P)
  /-- `mtime` is `get_file_mtime` of the path. -/
  | replace (p : P) (mtime : Int) (reply : Reply)
  | unlock (p : P) (reply : Reply)
  | sendIndexedResult (p : P) (defGroups : List (List (Seen FuncDef)))
      (callGroups : List (List (Seen FuncCall)))
  | cleanUp (p : P)
  | getStmts (c : C)
  | dml (c : C) (reply : Reply)

structure Start where
  filepaths : List FilepathRow
  nextFilepathId : Int
  flags : Flags

namespace State

variable {P C : Type*}

def start (start : Start) : State P C where
  flags := start.flags
  nextFilepathId := start.nextFilepathId
  tables := ⟨start.filepaths, [], []⟩
  holder := none
  parsers := fun _ => .new
  queue := []
  storers := fun _ => []
  given := []
  indexed := []
  returned := []

def preparedId (s : State P C) : Int :=
  getInt (maxFilepathId s.tables.filepaths) + 1

def startRun (s : State P C) (flags : Flags) : State P C where
  flags := flags
  nextFilepathId := s.preparedId
  tables := s.tables
  holder := none
  parsers := fun _ => .new
  queue := []
  storers := fun _ => []
  given := []
  indexed := []
  returned := []

def Free (s : State P C) (p : P) : Prop := s.holder = none ∨ s.holder = some p

variable [DecidableEq P] [DecidableEq C]

instance (s : State P C) (p : P) : Decidable (s.Free p) :=
  inferInstanceAs (Decidable (_ ∨ _))

def setParser (s : State P C) (p : P) (parser : Parser) : State P C :=
  { s with parsers := Function.update s.parsers p parser }

def setPhase (s : State P C) (p : P) (phase : Phase) : State P C :=
  s.setParser p { s.parsers p with phase := phase }

/-- A call of `query_or_assign_file_id` returns. -/
def finish (s : State P C) (p : P) (filepath : String)
    (before : List FilepathRow) (fnId : Int) : State P C :=
  let parser := (s.parsers p).finish filepath fnId
  { s.setParser p parser with
    returned := ⟨filepath, fnId, before, s.tables.filepaths,
      (s.parsers p).cache, parser.cache⟩ :: s.returned }

def draw (s : State P C) (filepath : String) : State P C :=
  { s with
    nextFilepathId := s.nextFilepathId + 1
    given := (filepath, s.nextFilepathId) :: s.given }

def beginUnit (project : Project) (s : State P C) (p : P)
    (command : CompileCommand) (time : Int) : Option (State P C) :=
  if command ∈ project.commands ∧ (s.parsers p).unit = none ∧
      (s.parsers p).phase = .idle then
    let filepath := project.filepath command
    some ((s.draw filepath).setParser p { s.parsers p with
      unit := some ⟨filepath, s.nextFilepathId, time, [], [], []⟩ })
  else
    none

def parse (project : Project) (s : State P C) (p : P) (action : ParseAction) :
    Option (State P C) :=
  (s.parsers p).unit.bind fun unit =>
    ((s.parsers p).step project s.tables.filepaths unit action).map
      fun (parser, returned) =>
        { s.setParser p parser with returned := returned ++ s.returned }

def lock (s : State P C) (p : P) (reply : Reply) : Option (State P C) :=
  match (s.parsers p).phase with
  | .locking filepath =>
      let locked := s.setPhase p (.querying filepath s.tables.filepaths)
      if Executes s.flags.retryCount reply then
        if s.Free p then some { locked with holder := some p } else none
      else if (MySQL.dml s.flags.retryCount reply).ret ≠ 0 then
        some (s.finish p filepath s.tables.filepaths (-1))
      else
        some locked
  | _ => none

def query (project : Project) (s : State P C) (p : P) (ids : List Int) :
    Option (State P C) :=
  match (s.parsers p).phase with
  | .querying filepath before =>
      if s.Free p ∧ ids.Perm
          (filepathIds s.tables.filepaths (project.stored filepath)) then
        let fnId := (ids.head?.map fun id => getInt (some id)).getD (-1)
        if 0 ≤ fnId then
          some (s.setPhase p (.unlocking filepath before fnId))
        else
          some (s.setPhase p (.assigning filepath before))
      else
        none
  | _ => none

def getNextFilepathId (s : State P C) (p : P) : Option (State P C) :=
  match (s.parsers p).phase with
  | .assigning filepath before =>
      some ((s.draw filepath).setPhase p
        (.replacing filepath before s.nextFilepathId))
  | _ => none

def replace (project : Project) (column : String → String) (s : State P C)
    (p : P) (mtime : Int) (reply : Reply) : Option (State P C) :=
  match (s.parsers p).phase with
  | .replacing filepath before fnId =>
      if s.Free p then
        let fnId' :=
          if (MySQL.dml s.flags.retryCount reply).ret ≠ 0 then -1 else fnId
        some { s.setPhase p (.unlocking filepath before fnId') with
          tables := s.tables.dml project column s.flags.retryCount reply
            (.replaceFilepath fnId filepath mtime) }
      else
        none
  | _ => none

def unlock (s : State P C) (p : P) (reply : Reply) : Option (State P C) :=
  match (s.parsers p).phase with
  | .unlocking filepath before fnId =>
      some { s.finish p filepath before fnId with
        holder :=
          if Executes s.flags.retryCount reply ∧ s.holder = some p then none
          else s.holder }
  | _ => none

def sendIndexedResult (s : State P C) (p : P)
    (defGroups : List (List (Seen FuncDef)))
    (callGroups : List (List (Seen FuncCall))) : Option (State P C) :=
  match s.parsers p with
  | ⟨some unit, .idle, cache⟩ =>
      let batch : Batch := ⟨unit, defGroups, callGroups⟩
      if batch.Cut (batchLimit s.flags.batchSize) then
        some { s.setParser p ⟨none, .idle, cache⟩ with
          queue := s.queue ++ [batch]
          indexed := unit.filepath :: s.indexed }
      else
        none
  | _ => none

/-- The connection of the task is closed, which gives up its lock. -/
def cleanUp (s : State P C) (p : P) : Option (State P C) :=
  match s.parsers p with
  | ⟨none, .idle, _⟩ => some { s.setParser p .new with
      holder := if s.holder = some p then none else s.holder }
  | _ => none

def getStmts (s : State P C) (c : C) : Option (State P C) :=
  match s.storers c, s.queue with
  | [], batch :: rest => some { s with
      queue := rest
      storers := Function.update s.storers c batch.stmts }
  | _, _ => none

def Blocked (s : State P C) : Stmt → Prop
  | .replaceFilepath _ _ _ => s.holder ≠ none
  | _ => False

instance (s : State P C) : (stmt : Stmt) → Decidable (s.Blocked stmt)
  | .replaceFilepath _ _ _ => inferInstanceAs (Decidable (¬_))
  | .insertFuncDefs _ _ => inferInstanceAs (Decidable False)
  | .insertFuncCalls _ _ => inferInstanceAs (Decidable False)

def dml (project : Project) (column : String → String) (s : State P C)
    (c : C) (reply : Reply) : Option (State P C) :=
  match s.storers c with
  | stmt :: rest =>
      if Executes s.flags.retryCount reply ∧ s.Blocked stmt then
        none
      else
        some { s with
          tables := s.tables.dml project column s.flags.retryCount reply stmt
          storers := Function.update s.storers c
            (if (MySQL.dml s.flags.retryCount reply).ret ≠ 0 then [] else rest) }
  | [] => none

def step (project : Project) (column : String → String) (s : State P C) :
    Action P C → Option (State P C)
  | .startRun flags => some (s.startRun flags)
  | .beginUnit p command time => s.beginUnit project p command time
  | .parse p action => s.parse project p action
  | .lock p reply => s.lock p reply
  | .query p ids => s.query project p ids
  | .getNextFilepathId p => s.getNextFilepathId p
  | .replace p mtime reply => s.replace project column p mtime reply
  | .unlock p reply => s.unlock p reply
  | .sendIndexedResult p defGroups callGroups =>
      s.sendIndexedResult p defGroups callGroups
  | .cleanUp p => s.cleanUp p
  | .getStmts c => s.getStmts c
  | .dml c reply => s.dml project column c reply

end State

def fileIds (project : Project) (column : String → String) (P C : Type*)
    [DecidableEq P] [DecidableEq C] (start : Start) :
    System (State P C) (Action P C) where
  init := .start start
  step := State.step project column

/-! ## What one step can do -/

inductive Parser.Effect (project : Project) (rows : List FilepathRow)
    (parser : Parser) (unit : CurrentUnit) :
    ParseAction → Parser → List Return → Prop
  | current (file : String) (idle : parser.phase = .idle)
      (source : (sourceFile project.root file).1 = unit.filepath) :
      Effect project rows parser unit (.genSourceLocation file)
        (parser.addLocated unit.filepath unit.filepathId) []
  | cached (file filepath : String) (fileId : Int)
      (idle : parser.phase = .idle)
      (source : sourceFile project.root file = (filepath, true))
      (hit : (filepath, fileId) ∈ parser.cache) :
      Effect project rows parser unit (.genSourceLocation file)
        (parser.addLocated filepath fileId)
        [⟨filepath, fileId, rows, rows, parser.cache, parser.cache⟩]
  | missed (file filepath : String) (idle : parser.phase = .idle)
      (source : sourceFile project.root file = (filepath, true))
      (miss : ∀ fileId, (filepath, fileId) ∉ parser.cache) :
      Effect project rows parser unit (.genSourceLocation file)
        { parser with phase := .locking filepath } []
  | outside (file filepath : String) (idle : parser.phase = .idle)
      (source : sourceFile project.root file = (filepath, false)) :
      Effect project rows parser unit (.genSourceLocation file)
        (parser.addLocated filepath kInvalidFileId) []
  | addFuncDef (d : Seen FuncDef) (idle : parser.phase = .idle)
      (located : (d.file, d.symbol.info.sourceLocation.fileId) ∈
        unit.located) :
      Effect project rows parser unit (.addFuncDef d)
        { parser with
          unit := some { unit with funcDefs := unit.funcDefs ++ [d] } } []
  | addFuncCall (d : Seen FuncCall) (idle : parser.phase = .idle)
      (located : (d.file, d.symbol.info.sourceLocation.fileId) ∈
        unit.located) :
      Effect project rows parser unit (.addFuncCall d)
        { parser with
          unit := some { unit with funcCalls := unit.funcCalls ++ [d] } } []
  | fail (idle : parser.phase = .idle) :
      Effect project rows parser unit .fail { parser with unit := none } []
  | crash (filepath : String) (before : List FilepathRow)
      (was : parser.phase = .querying filepath before) :
      Effect project rows parser unit .fail
        { parser with unit := none, phase := .idle } []

theorem Parser.effect_of_step {project : Project} {rows : List FilepathRow}
    {parser parser' : Parser} {unit : CurrentUnit} {action : ParseAction}
    {returned : List Return}
    (h : parser.step project rows unit action = some (parser', returned)) :
    parser.Effect project rows unit action parser' returned := by
  cases action with
  | genSourceLocation file =>
      simp only [Parser.step, Option.ite_none_right_eq_some] at h
      generalize hsource : sourceFile project.root file = source at h
      obtain ⟨filepath, inProject⟩ := source
      dsimp only at h
      obtain ⟨hidle, h⟩ := h
      split_ifs at h with hcurrent hinside
      · cases h
        rw [hcurrent] at hsource ⊢
        exact .current file hidle (by rw [hsource])
      · rw [hinside] at hsource
        split at h
        · rename_i entry fileId hfind
          have hpath : entry = filepath := by
            simpa using List.find?_some hfind
          have hhit := List.mem_of_find?_eq_some hfind
          rw [hpath] at hhit
          cases h
          exact .cached file filepath fileId hidle hsource hhit
        · rename_i hfind
          cases h
          refine .missed file filepath hidle hsource fun fileId hmem => ?_
          simpa using List.find?_eq_none.mp hfind _ hmem
      · rw [Bool.not_eq_true] at hinside
        rw [hinside] at hsource
        cases h
        exact .outside file filepath hidle hsource
  | addFuncDef d =>
      obtain ⟨⟨hidle, hlocated⟩, h⟩ := Option.ite_none_right_eq_some.mp h
      cases h
      exact .addFuncDef d hidle hlocated
  | addFuncCall d =>
      obtain ⟨⟨hidle, hlocated⟩, h⟩ := Option.ite_none_right_eq_some.mp h
      cases h
      exact .addFuncCall d hidle hlocated
  | fail =>
      simp only [Parser.step] at h
      split at h
      · rename_i hidle
        cases h
        exact .fail hidle
      · rename_i filepath before hquerying
        cases h
        exact .crash filepath before hquerying
      · contradiction

inductive State.Effect {P C : Type*} [DecidableEq P] [DecidableEq C]
    (project : Project) (column : String → String) (s : State P C) :
    Action P C → State P C → Prop
  | startRun (flags : Flags) :
      Effect project column s (.startRun flags) (s.startRun flags)
  | beginUnit (p : P) (command : CompileCommand) (time : Int)
      (idle : (s.parsers p).phase = .idle) :
      Effect project column s (.beginUnit p command time)
        ((s.draw (project.filepath command)).setParser p { s.parsers p with
          unit := some ⟨project.filepath command, s.nextFilepathId, time, [],
            [], []⟩ })
  | parse (p : P) (action : ParseAction) (unit : CurrentUnit)
      (parser : Parser) (returned : List Return)
      (was : (s.parsers p).unit = some unit)
      (moves : (s.parsers p).step project s.tables.filepaths unit action =
        some (parser, returned)) :
      Effect project column s (.parse p action)
        { s.setParser p parser with returned := returned ++ s.returned }
  | lockGranted (p : P) (reply : Reply) (filepath : String)
      (was : (s.parsers p).phase = .locking filepath) (free : s.Free p) :
      Effect project column s (.lock p reply)
        { s.setPhase p (.querying filepath s.tables.filepaths) with
          holder := some p }
  | lockFailed (p : P) (reply : Reply) (filepath : String)
      (was : (s.parsers p).phase = .locking filepath) :
      Effect project column s (.lock p reply)
        (s.finish p filepath s.tables.filepaths (-1))
  | lockLost (p : P) (reply : Reply) (filepath : String)
      (was : (s.parsers p).phase = .locking filepath)
      (lost : ¬Executes s.flags.retryCount reply ∧
        ¬FailsForGood s.flags.retryCount reply) :
      Effect project column s (.lock p reply)
        (s.setPhase p (.querying filepath s.tables.filepaths))
  | queryFound (p : P) (ids : List Int) (filepath : String)
      (before : List FilepathRow) (id : Int)
      (was : (s.parsers p).phase = .querying filepath before)
      (stored : id ∈ ids ∧
        id ∈ filepathIds s.tables.filepaths (project.stored filepath))
      (found : 0 ≤ getInt (some id)) :
      Effect project column s (.query p ids)
        (s.setPhase p (.unlocking filepath before (getInt (some id))))
  | queryMissed (p : P) (ids : List Int) (filepath : String)
      (before : List FilepathRow)
      (was : (s.parsers p).phase = .querying filepath before)
      (answer : ids.Perm
        (filepathIds s.tables.filepaths (project.stored filepath)))
      (missed : ∀ id ∈ ids.head?, getInt (some id) < 0) :
      Effect project column s (.query p ids)
        (s.setPhase p (.assigning filepath before))
  | getNextFilepathId (p : P) (filepath : String) (before : List FilepathRow)
      (was : (s.parsers p).phase = .assigning filepath before) :
      Effect project column s (.getNextFilepathId p)
        ((s.draw filepath).setPhase p
          (.replacing filepath before s.nextFilepathId))
  | replace (p : P) (mtime : Int) (reply : Reply) (filepath : String)
      (before : List FilepathRow) (fnId : Int)
      (was : (s.parsers p).phase = .replacing filepath before fnId)
      (free : s.Free p) :
      Effect project column s (.replace p mtime reply)
        { s.setPhase p (.unlocking filepath before
            (if (MySQL.dml s.flags.retryCount reply).ret ≠ 0 then -1
              else fnId)) with
          tables := s.tables.dml project column s.flags.retryCount reply
            (.replaceFilepath fnId filepath mtime) }
  | unlock (p : P) (reply : Reply) (filepath : String)
      (before : List FilepathRow) (fnId : Int)
      (was : (s.parsers p).phase = .unlocking filepath before fnId) :
      Effect project column s (.unlock p reply)
        { s.finish p filepath before fnId with
          holder :=
            if Executes s.flags.retryCount reply ∧ s.holder = some p then none
            else s.holder }
  | sendIndexedResult (p : P) (batch : Batch) (cache : List (String × Int))
      (was : s.parsers p = ⟨some batch.unit, .idle, cache⟩)
      (cut : batch.Cut (batchLimit s.flags.batchSize)) :
      Effect project column s
        (.sendIndexedResult p batch.defGroups batch.callGroups)
        { s.setParser p ⟨none, .idle, cache⟩ with
          queue := s.queue ++ [batch]
          indexed := batch.unit.filepath :: s.indexed }
  | cleanUp (p : P) (cache : List (String × Int))
      (was : s.parsers p = ⟨none, .idle, cache⟩) :
      Effect project column s (.cleanUp p) { s.setParser p .new with
        holder := if s.holder = some p then none else s.holder }
  | getStmts (c : C) (batch : Batch) (rest : List Batch)
      (was : s.storers c = []) (head : s.queue = batch :: rest) :
      Effect project column s (.getStmts c) { s with
        queue := rest
        storers := Function.update s.storers c batch.stmts }
  | dml (c : C) (reply : Reply) (stmt : Stmt) (rest : List Stmt)
      (was : s.storers c = stmt :: rest)
      (unblocked : Executes s.flags.retryCount reply → ¬s.Blocked stmt) :
      Effect project column s (.dml c reply) { s with
        tables := s.tables.dml project column s.flags.retryCount reply stmt
        storers := Function.update s.storers c
          (if (MySQL.dml s.flags.retryCount reply).ret ≠ 0 then [] else rest) }

section Effects

variable {P C : Type*} [DecidableEq P] [DecidableEq C] {project : Project}
  {column : String → String} {s s' : State P C}

private theorem State.effect_of_lock {p : P} {reply : Reply}
    (h : s.lock p reply = some s') :
    s.Effect project column (.lock p reply) s' := by
  unfold State.lock at h
  split at h
  · rename_i filepath hlocking
    split_ifs at h with hexecutes hfree hret
    · cases h
      exact .lockGranted p reply filepath hlocking hfree
    · cases h
      exact .lockFailed p reply filepath hlocking
    · cases h
      rw [dml_ret_ne_zero_iff] at hret
      exact .lockLost p reply filepath hlocking ⟨hexecutes, hret⟩
  · contradiction

private theorem State.effect_of_query {p : P} {ids : List Int}
    (h : s.query project p ids = some s') :
    s.Effect project column (.query p ids) s' := by
  simp only [State.query] at h
  split at h
  · rename_i filepath before hquerying
    split_ifs at h with hanswer hfound
    · cases h
      cases ids with
      | nil => simp at hfound
      | cons id ids =>
          have hid : id ∈ id :: ids := List.mem_cons_self
          exact .queryFound p _ filepath before id hquerying
            ⟨hid, hanswer.2.mem_iff.mp hid⟩ hfound
    · cases h
      apply State.Effect.queryMissed p ids filepath before hquerying hanswer.2
      cases ids with
      | nil => simp
      | cons id ids => simpa using hfound
  · contradiction

private theorem State.effect_of_getNextFilepathId {p : P}
    (h : s.getNextFilepathId p = some s') :
    s.Effect project column (.getNextFilepathId p) s' := by
  unfold State.getNextFilepathId at h
  split at h
  · rename_i filepath before hassigning
    cases h
    exact .getNextFilepathId p filepath before hassigning
  · contradiction

private theorem State.effect_of_replace {p : P} {mtime : Int} {reply : Reply}
    (h : s.replace project column p mtime reply = some s') :
    s.Effect project column (.replace p mtime reply) s' := by
  unfold State.replace at h
  split at h
  · rename_i filepath before fnId hreplacing
    obtain ⟨hfree, h⟩ := Option.ite_none_right_eq_some.mp h
    cases h
    exact .replace p mtime reply filepath before fnId hreplacing hfree
  · contradiction

private theorem State.effect_of_unlock {p : P} {reply : Reply}
    (h : s.unlock p reply = some s') :
    s.Effect project column (.unlock p reply) s' := by
  unfold State.unlock at h
  split at h
  · rename_i filepath before fnId hunlocking
    cases h
    exact .unlock p reply filepath before fnId hunlocking
  · contradiction

private theorem State.effect_of_sendIndexedResult {p : P}
    {defGroups : List (List (Seen FuncDef))}
    {callGroups : List (List (Seen FuncCall))}
    (h : s.sendIndexedResult p defGroups callGroups = some s') :
    s.Effect project column (.sendIndexedResult p defGroups callGroups) s' := by
  unfold State.sendIndexedResult at h
  split at h
  · rename_i unit cache hparser
    obtain ⟨hcut, h⟩ := Option.ite_none_right_eq_some.mp h
    cases h
    exact .sendIndexedResult p ⟨unit, defGroups, callGroups⟩ cache hparser hcut
  · contradiction

private theorem State.effect_of_cleanUp {p : P} (h : s.cleanUp p = some s') :
    s.Effect project column (.cleanUp p) s' := by
  unfold State.cleanUp at h
  split at h
  · rename_i cache hparser
    cases h
    exact .cleanUp p cache hparser
  · contradiction

private theorem State.effect_of_getStmts {c : C} (h : s.getStmts c = some s') :
    s.Effect project column (.getStmts c) s' := by
  unfold State.getStmts at h
  split at h
  · rename_i batch rest hidle hqueue
    cases h
    exact .getStmts c batch rest hidle hqueue
  · contradiction

private theorem State.effect_of_dml {c : C} {reply : Reply}
    (h : s.dml project column c reply = some s') :
    s.Effect project column (.dml c reply) s' := by
  unfold State.dml at h
  split at h
  · rename_i stmt rest hstorer
    obtain ⟨hunblocked, h⟩ := Option.ite_none_left_eq_some.mp h
    cases h
    exact .dml c reply stmt rest hstorer fun hexecutes hblocked =>
      hunblocked ⟨hexecutes, hblocked⟩
  · contradiction

theorem State.effect_of_step {action : Action P C}
    (h : s.step project column action = some s') :
    s.Effect project column action s' := by
  cases action with
  | startRun flags =>
      cases h
      exact .startRun flags
  | beginUnit p command time =>
      obtain ⟨⟨-, -, hidle⟩, h⟩ := Option.ite_none_right_eq_some.mp h
      cases h
      exact .beginUnit p command time hidle
  | parse p action =>
      obtain ⟨unit, hunit, h⟩ := Option.bind_eq_some_iff.mp h
      obtain ⟨⟨parser, returned⟩, hmoves, h⟩ := Option.map_eq_some_iff.mp h
      cases h
      exact .parse p action unit parser returned hunit hmoves
  | lock p reply => exact effect_of_lock h
  | query p ids => exact effect_of_query h
  | getNextFilepathId p => exact effect_of_getNextFilepathId h
  | replace p mtime reply => exact effect_of_replace h
  | unlock p reply => exact effect_of_unlock h
  | sendIndexedResult p defGroups callGroups =>
      exact effect_of_sendIndexedResult h
  | cleanUp p => exact effect_of_cleanUp h
  | getStmts c => exact effect_of_getStmts h
  | dml c reply => exact effect_of_dml h

end Effects

/-! ## The tables as the queries see them -/

def Stmt.statement : Stmt → Statement
  | .insertFuncDefs currentTime rows =>
      .insertFuncDefs currentTime (rows.map Seen.symbol)
  | .insertFuncCalls currentTime rows =>
      .insertFuncCalls currentTime (rows.map Seen.symbol)
  | .replaceFilepath filepathId filepath createTime =>
      .replaceFilepath filepathId filepath createTime

structure Tables.Shows (tables : Tables) (index : Index) : Prop where
  funcDefinitions :
    tables.funcDefinitions.map Seen.symbol = index.funcDefinitions
  funcCalls : tables.funcCalls.map Seen.symbol = index.funcCalls

section Shows

variable {project : Project} {column : String → String} {tables : Tables}
  {index : Index}

theorem Tables.Shows.execute (h : tables.Shows index) (stmt : Stmt) :
    (tables.execute project column stmt).Shows
      (executeOnIndex column index stmt.statement) := by
  cases stmt with
  | insertFuncDefs currentTime rows =>
      refine ⟨?_, h.funcCalls⟩
      have hrows : (rows.map (Seen.map (FuncDef.row column currentTime))).map
          Seen.symbol = (rows.map Seen.symbol).map
            (FuncDef.row column currentTime) := by
        rw [List.map_map, List.map_map]
        rfl
      calc (insertAllIgnore (fun d => d.symbol.usr) tables.funcDefinitions
            (rows.map (Seen.map (FuncDef.row column currentTime)))).map
              Seen.symbol
        _ = insertAllIgnore FuncDefRow.usr
            (tables.funcDefinitions.map Seen.symbol) _ :=
          map_insertAllIgnore (fun _ => rfl) _ _
        _ = _ := by
          rw [h.funcDefinitions, hrows]
          rfl
  | insertFuncCalls currentTime rows =>
      refine ⟨h.funcDefinitions, ?_⟩
      have hrows : (rows.map (Seen.map (FuncCall.row column currentTime))).map
          Seen.symbol = (rows.map Seen.symbol).map
            (FuncCall.row column currentTime) := by
        rw [List.map_map, List.map_map]
        rfl
      calc (insertAllIgnore (fun d => d.symbol.funcCallId) tables.funcCalls
            (rows.map (Seen.map (FuncCall.row column currentTime)))).map
              Seen.symbol
        _ = insertAllIgnore FuncCallRow.funcCallId
            (tables.funcCalls.map Seen.symbol) _ :=
          map_insertAllIgnore (fun _ => rfl) _ _
        _ = _ := by
          rw [h.funcCalls, hrows]
          rfl
  | replaceFilepath => exact ⟨h.funcDefinitions, h.funcCalls⟩

theorem Tables.Shows.foldl (h : tables.Shows index) (stmts : List Stmt) :
    (stmts.foldl (Tables.execute project column) tables).Shows
      (executeLog column index (stmts.map Stmt.statement)) := by
  induction stmts generalizing tables index with
  | nil => exact h
  | cons stmt stmts ih => exact ih (h.execute stmt)

/-- What the runs leave in the symbol tables is what the inserts of a log of
statements make of empty ones. -/
theorem Tables.shows_of_reachable {P C : Type*} [DecidableEq P] [DecidableEq C]
    {start : Start} {s : State P C}
    (h : (fileIds project column P C start).Reachable s) :
    ∃ log, s.tables.Shows (executeLog column .empty log) := by
  have hdml : ∀ {tables : Tables} (retryCount : Int) (reply : Reply)
      (stmt : Stmt), (∃ log, tables.Shows (executeLog column .empty log)) →
        ∃ log, (tables.dml project column retryCount reply stmt).Shows
          (executeLog column .empty log) := by
    rintro tables retryCount reply stmt ⟨log, hlog⟩
    refine ⟨log ++ (executed retryCount reply stmt).map Stmt.statement, ?_⟩
    rw [executeLog, List.foldl_append]
    exact hlog.foldl _
  apply System.ReachWhere.invariant
    (I := fun s => ∃ log, s.tables.Shows (executeLog column .empty log)) _ _ h
  · exact ⟨[], rfl, rfl⟩
  · intro s s' action hlog _ hstep
    cases State.effect_of_step hstep with
    | replace p mtime reply => exact hdml _ _ _ hlog
    | dml c reply stmt => exact hdml _ _ _ hlog
    | _ => exact hlog

end Shows

end Pview.FileIds
