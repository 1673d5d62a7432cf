import Pview.Foundation.Inventory
import Pview.Indexer.IdCounters
import Pview.Pipeline.Confluence

/-!
# Ids of symbols

Every definition and every call gets the next value of a counter that all parse
tasks share and that each run starts above the ids of its tables.  Below, the
steps that add a symbol draw its id from the counters of `IndexCtx`.
-/

namespace Pview.Indexer

inductive SymbolKind where
  | funcDef
  | funcCall
  deriving DecidableEq, Repr

def ParseTask.ids (task : ParseTask) : SymbolKind → List Int
  | .funcDef => task.funcDefs.map fun d => (d.id : Int)
  | .funcCall => task.funcCalls.map fun d => (d.id : Int)

def Statement.ids : SymbolKind → Statement → List Int
  | .funcDef, .insertFuncDefs _ rows => rows.map fun d => (d.id : Int)
  | .funcCall, .insertFuncCalls _ rows => rows.map fun d => (d.id : Int)
  | _, _ => []

def storedIds (index : MySQL.Index) : SymbolKind → List Int
  | .funcDef => index.funcDefinitions.map MySQL.FuncDefRow.funcDefId
  | .funcCall => index.funcCalls.map MySQL.FuncCallRow.funcCallId

end Pview.Indexer

namespace Pview.Pipeline

open Pview.Foundation
open Pview.Foundation.PrimaryKey
open Pview.Indexer
open Pview.MySQL

variable {project : Project} {P C : Type*}

/-! ## The counters -/

/-- `next_func_def_id_` and `next_func_call_id_` beside the other state. -/
structure Numbered (project : Project) (P C : Type*) where
  state : State project P C
  next : SymbolKind → Int

def ParseAction.symbol : ParseAction → Option (SymbolKind × Nat)
  | .addFuncDef d => some (.funcDef, d.id)
  | .addFuncCall d => some (.funcCall, d.id)
  | _ => none

def Action.draws : Action P C → Option (SymbolKind × Nat)
  | .parse _ action => action.symbol
  | _ => none

def Action.starts : Action P C → Bool
  | .startRun _ => true
  | _ => false

section System

variable (column : String → String) (index : Index)

def State.tables (s : State project P C) : Index :=
  executeLog column index s.db.log

def startIds (index : Index) (kind : SymbolKind) : Int :=
  nextId (storedIds index kind)

variable [DecidableEq P] [DecidableEq C]

def Numbered.step (s : Numbered project P C) (action : Action P C) :
    Option (Numbered project P C) :=
  match action.draws with
  | some (kind, id) =>
      if (id : Int) = s.next kind then
        (s.state.step action).map fun state =>
          ⟨state, Function.update s.next kind (getNextId (s.next kind) 1)⟩
      else
        none
  | none =>
      (s.state.step action).map fun state =>
        ⟨state, if action.starts then startIds (s.state.tables column index)
          else s.next⟩

def numbering (project : Project) (P C : Type*) [DecidableEq P] [DecidableEq C]
    (rows : List FilepathRow) :
    System (Numbered project P C) (Action P C) where
  init := ⟨(indexingFrom project P C rows).init, startIds index⟩
  step := Numbered.step column index

/-- The ids read fit an `int32_t`, and the counters do not overflow. -/
def InRange (s : Numbered project P C) (action : Action P C) : Prop :=
  (action.starts = true → ∀ kind,
    ∀ id ∈ storedIds (s.state.tables column index) kind, id < 2 ^ 31) ∧
  ∀ kind id, action.draws = some (kind, id) → s.next kind < 2 ^ 63 - 1

instance (s : Numbered project P C) (action : Action P C) :
    Decidable (InRange column index s action) :=
  decidable_of_iff ((action.starts = true →
      (∀ id ∈ storedIds (s.state.tables column index) .funcDef, id < 2 ^ 31) ∧
        ∀ id ∈ storedIds (s.state.tables column index) .funcCall,
          id < 2 ^ 31) ∧
      ∀ drawn ∈ action.draws, s.next drawn.1 < 2 ^ 63 - 1)
    ⟨fun h => ⟨fun hstarts kind => match kind with
        | .funcDef => (h.1 hstarts).1
        | .funcCall => (h.1 hstarts).2,
        fun kind id hdraws => h.2 (kind, id) hdraws⟩,
      fun h => ⟨fun hstarts => ⟨h.1 hstarts .funcDef, h.1 hstarts .funcCall⟩,
        fun drawn hdraws => h.2 drawn.1 drawn.2 hdraws⟩⟩

end System

/-! ## Where ids are held -/

inductive Place (P C : Type*) where
  | table
  | parser (p : P)
  | queue
  | storer (c : C)
  deriving DecidableEq

def Parser.ids (kind : SymbolKind) (parser : Parser project) : List Int :=
  match parser.activity with
  | .idle => []
  | .indexing unit | .assigning unit _ _ => unit.task.ids kind

def Batch.idsFrom (kind : SymbolKind) (n : Nat) (batch : Batch project) :
    List Int :=
  (batch.stmts.drop n).flatMap (Statement.ids kind)

def Storer.ids (kind : SymbolKind) : Storer project → List Int
  | .idle => []
  | .storing batch n => batch.idsFrom kind n

def State.held (column : String → String) (index : Index)
    (s : State project P C) (kind : SymbolKind) : Place P C → List Int
  | .table => storedIds (s.tables column index) kind
  | .parser p => (s.parsers p).ids kind
  | .queue => s.queue.flatMap (Batch.idsFrom kind 0)
  | .storer c => (s.storers c).ids kind

/-! ## Parsers -/

section Parsers

variable {flags : Flags} {rows : List FilepathRow} {nextFilepathId next' : Int}
  {parser parser' : Parser project} {action : ParseAction}

theorem Parser.ids_of_symbol {kind : SymbolKind} {id : Nat}
    (hsymbol : action.symbol = some (kind, id))
    (h : parser.step flags rows nextFilepathId action =
      some (parser', next')) :
    parser'.ids kind = parser.ids kind ++ [(id : Int)] ∧
      ∀ other, other ≠ kind → parser'.ids other = parser.ids other := by
  cases action with
  | addFuncDef d =>
      cases hsymbol
      cases hactivity : parser.activity with
      | indexing unit =>
          simp only [Parser.step, hactivity, Option.some.injEq] at h
          cases h
          constructor
          · simp [Parser.ids, hactivity, TranslationUnit.addFuncDef,
              ParseTask.ids]
          · intro other hother
            cases other <;> simp_all [Parser.ids, TranslationUnit.addFuncDef,
              ParseTask.ids]
      | idle | assigning => simp [Parser.step, hactivity] at h
  | addFuncCall d =>
      cases hsymbol
      cases hactivity : parser.activity with
      | indexing unit =>
          simp only [Parser.step, hactivity, Option.some.injEq] at h
          cases h
          constructor
          · simp [Parser.ids, hactivity, TranslationUnit.addFuncCall,
              ParseTask.ids]
          · intro other hother
            cases other <;> simp_all [Parser.ids, TranslationUnit.addFuncCall,
              ParseTask.ids]
      | idle | assigning => simp [Parser.step, hactivity] at h
  | begin | queryFileId | fail => contradiction

theorem Parser.ids_sublist (hsymbol : action.symbol = none)
    (h : parser.step flags rows nextFilepathId action =
      some (parser', next')) (kind : SymbolKind) :
    (parser'.ids kind).Sublist (parser.ids kind) := by
  cases action with
  | addFuncDef | addFuncCall => contradiction
  | begin command check time =>
      cases hactivity : parser.activity with
      | idle =>
          simp only [Parser.step, hactivity] at h
          split at h
          · split at h
            · cases h
              cases kind <;>
                simp [Parser.ids, TranslationUnit.start, ParseTask.ids]
            · cases h
              exact List.Sublist.refl _
          · contradiction
      | indexing | assigning => simp [Parser.step, hactivity] at h
  | queryFileId file lock ids =>
      cases hactivity : parser.activity with
      | indexing unit =>
          simp only [Parser.step, hactivity] at h
          split at h
          · split at h
            · cases h
              exact List.Sublist.refl _
            · split at h
              · cases h
                simp [Parser.ids, hactivity]
              · cases h
                simp [Parser.ids, hactivity]
          · contradiction
      | idle | assigning => simp [Parser.step, hactivity] at h
  | fail =>
      cases hactivity : parser.activity with
      | indexing unit =>
          simp only [Parser.step, hactivity, Option.some.injEq] at h
          cases h
          simp [Parser.ids]
      | idle | assigning => simp [Parser.step, hactivity] at h

end Parsers

/-! ## Statements -/

section Statements

variable {column : String → String}

theorem storedIds_executeOnIndex (index : Index) (stmt : Statement)
    (kind : SymbolKind) :
    ∃ added, added.Sublist (stmt.ids kind) ∧
      storedIds (executeOnIndex column index stmt) kind =
        storedIds index kind ++ added := by
  cases kind with
  | funcDef =>
      obtain ⟨added, hadded, heq⟩ := exists_insertAllIgnore_eq
        FuncDefRow.usr index.funcDefinitions (stmt.funcDefRows column)
      refine ⟨added.map FuncDefRow.funcDefId, ?_, ?_⟩
      · have hids := hadded.map FuncDefRow.funcDefId
        cases stmt <;> simpa [Statement.funcDefRows, Statement.ids,
          Function.comp_def, FuncDef.row] using hids
      · have hrows : (executeOnIndex column index stmt).funcDefinitions =
          index.funcDefinitions ++ added := heq
        rw [storedIds, hrows, List.map_append]
        rfl
  | funcCall =>
      obtain ⟨added, hadded, heq⟩ := exists_insertAllIgnore_eq
        FuncCallRow.funcCallId index.funcCalls (stmt.funcCallRows column)
      refine ⟨added.map FuncCallRow.funcCallId, ?_, ?_⟩
      · have hids := hadded.map FuncCallRow.funcCallId
        cases stmt <;> simpa [Statement.funcCallRows, Statement.ids,
          Function.comp_def, FuncCall.row] using hids
      · have hrows : (executeOnIndex column index stmt).funcCalls =
          index.funcCalls ++ added := heq
        rw [storedIds, hrows, List.map_append]
        rfl

end Statements

/-! ## Every id once -/

section Invariant

variable [DecidableEq P] [DecidableEq C] {column : String → String}
  {index : Index}

structure Numbered.Inv (column : String → String) (index : Index)
    (s : Numbered project P C) : Prop where
  inventory : ∀ kind, Inventory (s.state.held column index kind) (s.next kind)
  kept : (s.state.tables column index).funcCalls =
    index.funcCalls ++ funcCallRowsOf column s.state.db.log

variable {s s' : State project P C}

omit [DecidableEq P] [DecidableEq C] in
theorem State.tables_dml {retryCount : Int} {reply : Reply} {stmt : Statement}
    (h : s'.db = s.db.dml project.stored retryCount reply stmt) :
    s'.tables column index = s.tables column index ∧ s'.db.log = s.db.log ∨
      s'.tables column index =
          executeOnIndex column (s.tables column index) stmt ∧
        s'.db.log = s.db.log ++ [stmt] := by
  have hlog : s'.db.log = s.db.log ++ executed retryCount reply stmt := by
    rw [h, Database.log_dml]
  rw [State.tables, hlog, executeLog, List.foldl_append]
  by_cases hexecutes : Executes retryCount reply
  · rw [executed_of_executes hexecutes]
    exact .inr ⟨rfl, rfl⟩
  · rw [executed_of_not_executes hexecutes, List.append_nil]
    exact .inl ⟨rfl, rfl⟩

section Steps

variable {kind : SymbolKind} {next : Int}

omit [DecidableEq C] in
theorem held_of_sublist {p : P} {parser : Parser project}
    (h : Inventory (s.held column index kind) next)
    (hids : (parser.ids kind).Sublist ((s.parsers p).ids kind))
    (hparsers : s'.parsers = Function.update s.parsers p parser)
    (htables : s'.tables column index = s.tables column index)
    (hqueue : s'.queue = s.queue) (hstorers : s'.storers = s.storers) :
    Inventory (s'.held column index kind) next := by
  refine h.mono fun place => ?_
  cases place with
  | table => rw [State.held, State.held, htables]
  | parser p' =>
      rw [State.held, State.held, hparsers]
      by_cases hp : p' = p
      · rw [hp, Function.update_self]
        exact hids
      · rw [Function.update_of_ne hp]
  | queue => rw [State.held, State.held, hqueue]
  | storer c => rw [State.held, State.held, hstorers]

theorem held_draw {p : P} {parser : Parser project}
    (h : Inventory (s.held column index kind) next)
    (hids : parser.ids kind = (s.parsers p).ids kind ++ [next])
    (hparsers : s'.parsers = Function.update s.parsers p parser)
    (htables : s'.tables column index = s.tables column index)
    (hqueue : s'.queue = s.queue) (hstorers : s'.storers = s.storers) :
    Inventory (s'.held column index kind) (next + 1) := by
  refine h.make (a := .parser p) ?_ fun place hplace => ?_
  · rw [State.held, hparsers, Function.update_self, hids]
    rfl
  · cases place with
    | table => rw [State.held, State.held, htables]
    | parser p' =>
        have hp : p' ≠ p := fun heq => hplace (heq ▸ rfl)
        rw [State.held, State.held, hparsers, Function.update_of_ne hp]
    | queue => rw [State.held, State.held, hqueue]
    | storer c => rw [State.held, State.held, hstorers]

omit [DecidableEq P] [DecidableEq C] in
theorem Batch.Cut.ids {limit : Nat} {batch : Batch project}
    (h : batch.Cut limit) (kind : SymbolKind) :
    (batch.idsFrom kind 0).Sublist (batch.unit.task.ids kind) := by
  have hdefs := (List.filter_sublist (l := batch.unit.task.funcDefs)
    (p := fun d => !d.skipped)).map fun d => (d.id : Int)
  have hcalls := (List.filter_sublist (l := batch.unit.task.funcCalls)
    (p := fun d => !d.skipped)).map fun d => (d.id : Int)
  rw [← h.2.1.flatten] at hdefs
  rw [← h.2.2.flatten] at hcalls
  cases kind with
  | funcDef =>
      simpa [Batch.idsFrom, Batch.stmts_eq, Batch.symbols, Batch.marker,
        Statement.ids, ParseTask.ids, List.flatMap_map, List.flatMap_def,
        Function.comp_def, List.map_flatten] using hdefs
  | funcCall =>
      simpa [Batch.idsFrom, Batch.stmts_eq, Batch.symbols, Batch.marker,
        Statement.ids, ParseTask.ids, List.flatMap_map, List.flatMap_def,
        Function.comp_def, List.map_flatten] using hcalls

theorem held_send {p : P} {batch : Batch project} {limit : Nat}
    (h : Inventory (s.held column index kind) next)
    (hwas : (s.parsers p).activity = .indexing batch.unit)
    (hcut : batch.Cut limit) (hdb : s'.db = s.db)
    (hqueue : s'.queue = s.queue ++ [batch])
    (hparsers : s'.parsers = Function.update s.parsers p
      { s.parsers p with activity := .idle })
    (hstorers : s'.storers = s.storers) :
    Inventory (s'.held column index kind) next := by
  refine h.transfer (a := .parser p) (b := .queue) (by simp)
    (batch.idsFrom kind 0) ?_ ?_ ?_
  · have hids := hcut.ids kind
    simpa [State.held, hparsers, Parser.ids, hwas] using hids
  · simp [State.held, hqueue]
  · intro place hsource htarget
    cases place with
    | table => simp [State.held, State.tables, hdb]
    | parser p' =>
        have hp : p' ≠ p := fun heq => hsource (heq ▸ rfl)
        rw [State.held, State.held, hparsers, Function.update_of_ne hp]
    | queue => contradiction
    | storer c => rw [State.held, State.held, hstorers]

theorem held_take {c : C} {batch : Batch project} {rest : List (Batch project)}
    (h : Inventory (s.held column index kind) next)
    (hwas : s.storers c = .idle) (hhead : s.queue = batch :: rest)
    (hdb : s'.db = s.db) (hqueue : s'.queue = rest)
    (hparsers : s'.parsers = s.parsers)
    (hstorers : s'.storers = Function.update s.storers c (.storing batch 0)) :
    Inventory (s'.held column index kind) next := by
  refine h.transfer (a := .queue) (b := .storer c) (by simp)
    (batch.idsFrom kind 0) ?_ ?_ ?_
  · simp [State.held, hqueue, hhead]
  · simp [State.held, hstorers, hwas, Storer.ids]
  · intro place hsource htarget
    cases place with
    | table => simp [State.held, State.tables, hdb]
    | parser p => rw [State.held, State.held, hparsers]
    | queue => contradiction
    | storer c' =>
        have hc : c' ≠ c := fun heq => htarget (heq ▸ rfl)
        rw [State.held, State.held, hstorers, Function.update_of_ne hc]

omit [DecidableEq P] [DecidableEq C] in
theorem Batch.idsFrom_eq {batch : Batch project} {n : Nat} {stmt : Statement}
    (h : batch.stmts[n]? = some stmt) (kind : SymbolKind) :
    batch.idsFrom kind n = stmt.ids kind ++ batch.idsFrom kind (n + 1) := by
  obtain ⟨hn, hget⟩ := List.getElem?_eq_some_iff.mp h
  rw [Batch.idsFrom, List.drop_eq_getElem_cons hn, hget, List.flatMap_cons]
  rfl

omit [DecidableEq P] [DecidableEq C] in
theorem Storer.ids_next (batch : Batch project) (n : Nat) (ret : Int)
    (kind : SymbolKind) :
    ((Storer.next batch n ret).ids kind).Sublist
      (batch.idsFrom kind (n + 1)) := by
  unfold Storer.next
  split
  · exact List.nil_sublist _
  · exact List.Sublist.refl _

theorem held_dml {c : C} {reply : Reply} {batch : Batch project} {n : Nat}
    {stmt : Statement} {ret : Int}
    (h : Inventory (s.held column index kind) next)
    (hwas : s.storers c = .storing batch n)
    (hnext : batch.stmts[n]? = some stmt)
    (hdb : s'.db = s.db.dml project.stored s.flags.retryCount reply stmt)
    (hqueue : s'.queue = s.queue) (hparsers : s'.parsers = s.parsers)
    (hstorers : s'.storers =
      Function.update s.storers c (.next batch n ret)) :
    Inventory (s'.held column index kind) next := by
  have hadded : ∃ added, added.Sublist (stmt.ids kind) ∧
      storedIds (s'.tables column index) kind =
        storedIds (s.tables column index) kind ++ added := by
    rcases State.tables_dml hdb with ⟨hsame, -⟩ | ⟨hexecuted, -⟩
    · exact ⟨[], List.nil_sublist _, by rw [hsame, List.append_nil]⟩
    · rw [hexecuted]
      exact storedIds_executeOnIndex _ stmt kind
  obtain ⟨added, hsub, hstored⟩ := hadded
  refine h.transfer (a := .storer c) (b := .table) (by simp) added ?_ hstored ?_
  · rw [State.held, State.held, hstorers, hwas, Function.update_self,
      Storer.ids, Batch.idsFrom_eq hnext]
    exact hsub.append (Storer.ids_next batch n ret kind)
  · intro place hsource htarget
    cases place with
    | table => contradiction
    | parser p => rw [State.held, State.held, hparsers]
    | queue => rw [State.held, State.held, hqueue]
    | storer c' =>
        have hc : c' ≠ c := fun heq => hsource (heq ▸ rfl)
        rw [State.held, State.held, hstorers, Function.update_of_ne hc]

end Steps

omit [DecidableEq P] [DecidableEq C] in
theorem State.tables_replaceFilepath {retryCount : Int} {reply : Reply}
    {filepathId : Int} {filepath : String} {createTime : Int}
    (h : s'.db = s.db.dml project.stored retryCount reply
      (.replaceFilepath filepathId filepath createTime)) :
    s'.tables column index = s.tables column index := by
  rcases State.tables_dml h with ⟨hsame, -⟩ | ⟨hexecuted, -⟩
  · exact hsame
  · rw [hexecuted]
    rfl

omit [DecidableEq P] [DecidableEq C] in
theorem kept_replaceFilepath {retryCount : Int} {reply : Reply}
    {filepathId : Int} {filepath : String} {createTime : Int}
    (hkept : (s.tables column index).funcCalls =
      index.funcCalls ++ funcCallRowsOf column s.db.log)
    (h : s'.db = s.db.dml project.stored retryCount reply
      (.replaceFilepath filepathId filepath createTime)) :
    (s'.tables column index).funcCalls =
      index.funcCalls ++ funcCallRowsOf column s'.db.log := by
  have hcalls : funcCallRowsOf column s'.db.log =
      funcCallRowsOf column s.db.log := by
    rw [h, Database.log_dml]
    by_cases hexecutes : Executes retryCount reply
    · simp [executed_of_executes hexecutes, funcCallRowsOf,
        Statement.funcCallRows]
    · simp [executed_of_not_executes hexecutes]
  rw [State.tables_replaceFilepath h, hcalls, hkept]

omit [DecidableEq P] [DecidableEq C] in
theorem kept_dml {c : C} {reply : Reply} {batch : Batch project} {n : Nat}
    {stmt : Statement} {next : Int}
    (h : Inventory (s.held column index .funcCall) next)
    (hkept : (s.tables column index).funcCalls =
      index.funcCalls ++ funcCallRowsOf column s.db.log)
    (hwas : s.storers c = .storing batch n)
    (hnext : batch.stmts[n]? = some stmt)
    (hdb : s'.db = s.db.dml project.stored s.flags.retryCount reply stmt) :
    (s'.tables column index).funcCalls =
      index.funcCalls ++ funcCallRowsOf column s'.db.log := by
  rcases State.tables_dml hdb with ⟨hsame, hlog⟩ | ⟨hexecuted, hlog⟩
  · rw [hsame, hlog, hkept]
  · have hids : ((stmt.funcCallRows column).map FuncCallRow.funcCallId) =
        stmt.ids .funcCall := by
      cases stmt <;> simp [Statement.funcCallRows, Statement.ids,
        FuncCall.row]
    have hheld : s.held column index .funcCall (.storer c) =
        stmt.ids .funcCall ++ batch.idsFrom .funcCall (n + 1) := by
      rw [State.held, hwas, Storer.ids, Batch.idsFrom_eq hnext]
    have hstorer := h.nodup (.storer c)
    rw [hheld] at hstorer
    have hnodup : (((s.tables column index).funcCalls ++
        stmt.funcCallRows column).map FuncCallRow.funcCallId).Nodup := by
      rw [List.map_append, List.nodup_append, hids]
      refine ⟨h.nodup .table, (List.nodup_append.mp hstorer).1, ?_⟩
      rintro id htable _ hid rfl
      have hplace := h.unique .table (.storer c) id htable
        (hheld ▸ List.mem_append_left _ hid)
      contradiction
    calc (s'.tables column index).funcCalls
      _ = insertAllIgnore FuncCallRow.funcCallId
          (s.tables column index).funcCalls (stmt.funcCallRows column) := by
        rw [hexecuted]
        rfl
      _ = (s.tables column index).funcCalls ++ stmt.funcCallRows column :=
        insertAllIgnore_of_nodup hnodup
      _ = index.funcCalls ++ funcCallRowsOf column s'.db.log := by
        rw [hkept, hlog, List.append_assoc]
        simp [funcCallRowsOf]

/-! ## Runs -/

theorem lt_nextId {ids : List Int} (h : ∀ id ∈ ids, id < 2 ^ 31) :
    ∀ id ∈ ids, id < nextId ids := by
  have hbig : ∀ id ∈ ids, id < 2 ^ 63 - 1 := fun id hid => by
    have hlt := h id hid
    omega
  have hrange := nextId_range ids
  intro id hid
  have hfresh := (fresh_iff hbig).mpr h id hid
  rw [givenFrom_iff (by omega)] at hfresh
  have hlt := hbig id hid
  omega

omit [DecidableEq P] [DecidableEq C] in
theorem held_start {kind : SymbolKind} {next : Int}
    (h : Inventory (s.held column index kind) next) (flags : Flags)
    (hrange : ∀ id ∈ storedIds (s.tables column index) kind, id < 2 ^ 31) :
    Inventory ((s.startRun flags).held column index kind)
      (startIds (s.tables column index) kind) := by
  refine h.restart (fun place => ?_) fun place id hid => ?_
  · cases place with
    | table => exact List.Sublist.refl _
    | parser | queue | storer => exact List.nil_sublist _
  · cases place with
    | table => exact lt_nextId hrange id hid
    | parser | queue | storer => contradiction

theorem held_first (rows : List FilepathRow) (kind : SymbolKind)
    (hnodup : (storedIds index kind).Nodup)
    (hrange : ∀ id ∈ storedIds index kind, id < 2 ^ 31) :
    Inventory ((indexingFrom project P C rows).init.held column index kind)
      (startIds index kind) := by
  refine { unique := ?_, below := ?_, nodup := ?_ }
  · intro place place' id hid hid'
    cases place <;> cases place' <;> first | rfl | contradiction
  · intro place id hid
    cases place with
    | table => exact lt_nextId hrange id hid
    | parser | queue | storer => contradiction
  · intro place
    cases place with
    | table => exact hnodup
    | parser | queue | storer => exact List.nodup_nil

namespace Numbered

variable {s s' : Numbered project P C} {action : Action P C}

theorem Inv.step_none (h : s.Inv column index)
    (hrange : InRange column index s action) (hdraws : action.draws = none)
    {state : State project P C} (hstate : s.state.step action = some state) :
    Inv column index ⟨state, if action.starts then
      startIds (s.state.tables column index) else s.next⟩ := by
  cases State.effect_of_step hstate with
  | startRun flags =>
      exact ⟨fun kind => held_start (h.inventory kind) flags
        (hrange.1 rfl kind), h.kept⟩
  | parse p action parser nextFilepathId moves =>
      refine ⟨fun kind => ?_, h.kept⟩
      exact held_of_sublist (h.inventory kind)
        (Parser.ids_sublist hdraws moves kind) rfl rfl rfl rfl
  | assignFileId p mtime reply unit filepath fnId was =>
      refine ⟨fun kind => ?_, ?_⟩
      · refine held_of_sublist (h.inventory kind) ?_ rfl
          (State.tables_replaceFilepath rfl) rfl rfl
        rw [Parser.ids, Parser.ids, was]
        exact List.Sublist.refl _
      · exact kept_replaceFilepath h.kept rfl
  | sendIndexedResult p batch was cut =>
      refine ⟨fun kind => ?_, h.kept⟩
      exact held_send (h.inventory kind) was cut rfl rfl rfl rfl
  | getStmts c batch rest was head =>
      refine ⟨fun kind => ?_, h.kept⟩
      exact held_take (h.inventory kind) was head rfl rfl rfl rfl
  | dml c reply batch n stmt was next =>
      refine ⟨fun kind => ?_, ?_⟩
      · exact held_dml (h.inventory kind) was next rfl rfl rfl rfl
      · exact kept_dml (h.inventory .funcCall) h.kept was next rfl

theorem Inv.step (h : s.Inv column index)
    (hrange : InRange column index s action)
    (hstep : s.step column index action = some s') : s'.Inv column index := by
  cases hdraws : action.draws with
  | none =>
      simp only [Numbered.step, hdraws, Option.map_eq_some_iff] at hstep
      obtain ⟨state, hstate, rfl⟩ := hstep
      exact h.step_none hrange hdraws hstate
  | some drawn =>
      obtain ⟨kind, id⟩ := drawn
      simp only [Numbered.step, hdraws, Option.ite_none_right_eq_some,
        Option.map_eq_some_iff] at hstep
      obtain ⟨hid, state, hstate, rfl⟩ := hstep
      have hnext : getNextId (s.next kind) 1 = s.next kind + 1 := by
        have hlt := hrange.2 kind id hdraws
        simp only [getNextId, Int.bmod]
        split <;> omega
      cases State.effect_of_step hstate with
      | parse p action parser nextFilepathId moves =>
          obtain ⟨hdrawn, hothers⟩ := Parser.ids_of_symbol hdraws moves
          refine ⟨fun other => ?_, h.kept⟩
          by_cases hother : other = kind
          · subst hother
            show Inventory _
              (Function.update s.next other (getNextId (s.next other) 1) other)
            rw [Function.update_self, hnext]
            exact held_draw (h.inventory other) (hid ▸ hdrawn) rfl rfl rfl rfl
          · show Inventory _
              (Function.update s.next kind (getNextId (s.next kind) 1) other)
            rw [Function.update_of_ne hother]
            exact held_of_sublist (h.inventory other)
              (by rw [hothers other hother]) rfl rfl rfl rfl
      | startRun | assignFileId | sendIndexedResult | getStmts | dml =>
          contradiction

end Numbered

theorem Numbered.Inv.of_reachWhere {rows : List FilepathRow}
    (hnodup : ∀ kind, (storedIds index kind).Nodup)
    (hrange : ∀ kind, ∀ id ∈ storedIds index kind, id < 2 ^ 31)
    {s : Numbered project P C}
    (hreach : (numbering column index project P C rows).ReachWhere
      (InRange column index) s) : s.Inv column index := by
  apply hreach.invariant
  · refine ⟨fun kind => held_first rows kind (hnodup kind) (hrange kind), ?_⟩
    simp [numbering, indexingFrom, State.tables, executeLog, funcCallRowsOf]
  · exact fun h hallowed hstep => h.step hallowed hstep

/--
While the ids fit the columns they are read from, no id is ever given twice:
the ids of each table are pairwise different, and the table of calls consists of
the rows of all executed statements, none of which has been ignored.
-/
theorem symbolIds_unique {rows : List FilepathRow}
    (hnodup : ∀ kind, (storedIds index kind).Nodup)
    (hrange : ∀ kind, ∀ id ∈ storedIds index kind, id < 2 ^ 31)
    {s : Numbered project P C}
    (hreach : (numbering column index project P C rows).ReachWhere
      (InRange column index) s) :
    (∀ kind, (storedIds (s.state.tables column index) kind).Nodup) ∧
      (s.state.tables column index).funcCalls =
        index.funcCalls ++ funcCallRowsOf column s.state.db.log := by
  have hinv := Numbered.Inv.of_reachWhere hnodup hrange hreach
  exact ⟨fun kind => (hinv.inventory kind).nodup .table, hinv.kept⟩

end Invariant

/-- The definition of `main` is ignored in the second run, its call is not. -/
def numberedRun (n : Nat) (mtime time : Int) : List (Action Unit Unit) :=
  [.startRun {},
    .parse () (.begin callingCommand ⟨true, true, mtime, .noInstance⟩ time),
    .parse () (.addFuncDef { callingDef n with id := n }),
    .parse () (.addFuncCall { callingCall n with id := n }),
    .sendIndexedResult () [[{ callingDef n with id := n }]]
      [[{ callingCall n with id := n }]],
    .getStmts (), .dml () ⟨true, fun _ => .success⟩,
    .dml () ⟨true, fun _ => .success⟩, .dml () ⟨true, fun _ => .success⟩]

theorem symbolIds_unique_twice :
    ∃ s : Numbered callingProject Unit Unit,
      storedIds (s.state.tables id .empty) .funcDef = [1] ∧
      storedIds (s.state.tables id .empty) .funcCall = [1, 2] ∧
      (s.state.tables id .empty).funcCalls =
        [] ++ funcCallRowsOf id s.state.db.log := by
  have hrun : ((numbering id .empty callingProject Unit Unit []).runWhere
      (InRange id .empty) (numbering id .empty callingProject Unit Unit []).init
      (numberedRun 1 50 100 ++ numberedRun 2 150 200)).map (fun s =>
        (storedIds (s.state.tables id .empty) .funcDef,
          storedIds (s.state.tables id .empty) .funcCall)) =
      some ([1], [1, 2]) := by
    decide +kernel
  obtain ⟨s, hrun, hs⟩ := Option.map_eq_some_iff.mp hrun
  simp only [Prod.mk.injEq] at hs
  have hunique := symbolIds_unique (by intro kind; cases kind <;> decide)
    (by intro kind; cases kind <;> decide) (.runWhere .init hrun)
  exact ⟨s, hs.1, hs.2, hunique.2⟩

end Pview.Pipeline
