import Pview.FileIds.System

/-!
# Which file an id stands for

Ids are drawn from one counter, copied between tasks, statements and tables,
and read back from the table with the paths they are stored under.  No id
stands for two paths as long as the ids that are read fit `getInt` and a run
starts its counter above the ids that are still around.
-/

namespace Pview.FileIds

open Pview.Foundation
open Pview.Foundation.PrimaryKey
open Pview.Indexer
open Pview.MySQL
open Pview.Pipeline (Project CompileCommand Flags)

/-! ## Where ids are found -/

def nonneg (pairs : List (String × Int)) : List (String × Int) :=
  pairs.filter fun pair => 0 ≤ pair.2

@[simp]
theorem mem_nonneg {pairs : List (String × Int)} {pair : String × Int} :
    pair ∈ nonneg pairs ↔ pair ∈ pairs ∧ 0 ≤ pair.2 := by
  simp [nonneg]

def defPair (d : Seen FuncDef) : String × Int :=
  (d.file, d.symbol.info.sourceLocation.fileId)

def callPair (d : Seen FuncCall) : String × Int :=
  (d.file, d.symbol.info.sourceLocation.fileId)

def Phase.pairs : Phase → List (String × Int)
  | .replacing filepath _ fnId => [(filepath, fnId)]
  | .unlocking filepath _ fnId => nonneg [(filepath, fnId)]
  | _ => []

def CurrentUnit.pairs (unit : CurrentUnit) : List (String × Int) :=
  (unit.filepath, unit.filepathId) :: nonneg (unit.located ++
    unit.funcDefs.map defPair ++ unit.funcCalls.map callPair)

def Parser.pairs (parser : Parser) : List (String × Int) :=
  parser.phase.pairs ++ parser.unit.elim [] CurrentUnit.pairs ++
    nonneg parser.cache

def Stmt.pairs : Stmt → List (String × Int)
  | .insertFuncDefs _ rows => rows.map defPair
  | .insertFuncCalls _ rows => rows.map callPair
  | .replaceFilepath filepathId filepath _ => [(filepath, filepathId)]

def Batch.pairs (batch : Batch) : List (String × Int) :=
  batch.stmts.flatMap Stmt.pairs

def Tables.symbols (tables : Tables) : List (String × Int) :=
  tables.funcDefinitions.map (fun d => (d.file, d.symbol.locationFileId)) ++
    tables.funcCalls.map fun d => (d.file, d.symbol.locationFileId)

inductive Place (P C : Type*) where
  | given
  | returned
  | parser (p : P)
  | queue
  | storer (c : C)
  | symbols

variable {P C : Type*}

def State.pairsAt (s : State P C) : Place P C → List (String × Int)
  | .given => s.given
  | .returned => nonneg (s.returned.map fun call => (call.filepath, call.fileId))
  | .parser p => (s.parsers p).pairs
  | .queue => s.queue.flatMap Batch.pairs
  | .storer c => (s.storers c).flatMap Stmt.pairs
  | .symbols => s.tables.symbols

def State.Knows (s : State P C) (filepath : String) (id : Int) : Prop :=
  ∃ place, (filepath, id) ∈ s.pairsAt place

/-- The id stands for a path, here as the column holds it, in the filepaths
table or anywhere else. -/
def State.Claims (project : Project) (s : State P C) (text : String)
    (id : Int) : Prop :=
  (∃ filepath, s.Knows filepath id ∧ project.stored filepath = text) ∨
    ∃ row ∈ s.tables.filepaths, row.filepath = text ∧ row.filepathId = id

theorem State.Knows.claims {project : Project} {s : State P C}
    {filepath : String} {id : Int} (h : s.Knows filepath id) :
    s.Claims project (project.stored filepath) id :=
  .inl ⟨filepath, h, rfl⟩

/-! ## Parse tasks -/

theorem mem_pairs_setPhase {parser : Parser} {phase : Phase}
    {pair : String × Int} (h : pair ∈ { parser with phase := phase }.pairs) :
    pair ∈ parser.pairs ∨ pair ∈ phase.pairs := by
  simp only [Parser.pairs, List.mem_append] at h ⊢
  tauto

theorem pairs_of_unit {parser : Parser} {unit : CurrentUnit}
    (hunit : parser.unit = some unit) {pair : String × Int}
    (h : pair ∈ unit.pairs) : pair ∈ parser.pairs := by
  simp [Parser.pairs, hunit, h]

theorem mem_pairs_setUnit {parser : Parser} {unit : CurrentUnit}
    {pair : String × Int}
    (h : pair ∈ { parser with unit := some unit }.pairs) :
    pair ∈ parser.pairs ∨ pair ∈ unit.pairs := by
  simp only [Parser.pairs, Option.elim_some, List.mem_append] at h ⊢
  tauto

theorem mem_pairs_addLocated {parser : Parser} {filepath : String}
    {fileId : Int} {pair : String × Int}
    (h : pair ∈ (parser.addLocated filepath fileId).pairs) :
    pair ∈ parser.pairs ∨ pair = (filepath, fileId) ∧ 0 ≤ fileId := by
  unfold Parser.addLocated at h
  cases hunit : parser.unit with
  | none =>
      simp only [Parser.pairs, hunit, Option.map_none] at h ⊢
      exact .inl h
  | some unit =>
      rw [hunit] at h
      rcases mem_pairs_setUnit h with hold | hnew
      · exact .inl hold
      · simp only [CurrentUnit.pairs, List.cons_append, List.mem_cons,
          mem_nonneg] at hnew
        rcases hnew with hmain | ⟨rfl | hlocated, hid⟩
        · exact .inl (pairs_of_unit hunit (by simp [CurrentUnit.pairs, hmain]))
        · exact .inr ⟨rfl, hid⟩
        · exact .inl (pairs_of_unit hunit
            (List.mem_cons_of_mem _ (mem_nonneg.mpr ⟨hlocated, hid⟩)))

theorem mem_pairs_finish {parser : Parser} {filepath : String} {fnId : Int}
    {pair : String × Int} (h : pair ∈ (parser.finish filepath fnId).pairs) :
    pair ∈ parser.pairs ∨ pair = (filepath, fnId) ∧ 0 ≤ fnId := by
  have hcases : pair ∈ (parser.addLocated filepath fnId).pairs ∨
      pair = (filepath, fnId) ∧ 0 ≤ fnId := by
    simp only [Parser.finish, Parser.pairs, Phase.pairs, List.nil_append,
      List.mem_append, mem_nonneg] at h ⊢
    rcases h with hunit | ⟨hcache, hid⟩
    · exact .inl (.inl (.inr hunit))
    · split at hcache
      · rcases List.mem_cons.mp hcache with rfl | hcache
        · exact .inr ⟨rfl, hid⟩
        · exact .inl (.inr ⟨hcache, hid⟩)
      · exact .inl (.inr ⟨hcache, hid⟩)
  rcases hcases with hlocated | hnew
  · exact mem_pairs_addLocated hlocated
  · exact .inr hnew

theorem mem_pairs_of_addLocated {parser : Parser} {filepath : String}
    {fileId : Int} (hknown : 0 ≤ fileId → (filepath, fileId) ∈ parser.pairs)
    {pair : String × Int}
    (h : pair ∈ (parser.addLocated filepath fileId).pairs) :
    pair ∈ parser.pairs := by
  rcases mem_pairs_addLocated h with hold | ⟨rfl, hid⟩
  · exact hold
  · exact hknown hid

theorem mem_pairs_of_setUnit {parser : Parser} {unit unit' : CurrentUnit}
    (hunit : parser.unit = some unit)
    (hmain : (unit'.filepath, unit'.filepathId) =
      (unit.filepath, unit.filepathId))
    (hsymbols : ∀ pair ∈ unit'.located ++ unit'.funcDefs.map defPair ++
        unit'.funcCalls.map callPair,
      pair ∈ unit.located ++ unit.funcDefs.map defPair ++
        unit.funcCalls.map callPair)
    {pair : String × Int}
    (h : pair ∈ { parser with unit := some unit' }.pairs) :
    pair ∈ parser.pairs := by
  rcases mem_pairs_setUnit h with hold | hnew
  · exact hold
  · apply pairs_of_unit hunit
    rw [CurrentUnit.pairs, List.mem_cons, mem_nonneg] at hnew ⊢
    rw [hmain] at hnew
    exact hnew.imp_right fun hsymbol =>
      ⟨hsymbols pair hsymbol.1, hsymbol.2⟩

theorem Parser.pairs_step {project : Project} {rows : List FilepathRow}
    {parser parser' : Parser} {unit : CurrentUnit} {action : ParseAction}
    {returned : List Return} (hunit : parser.unit = some unit)
    (h : parser.step project rows unit action = some (parser', returned)) :
    (∀ pair ∈ parser'.pairs, pair ∈ parser.pairs) ∧
      ∀ call ∈ returned, 0 ≤ call.fileId →
        (call.filepath, call.fileId) ∈ parser.pairs := by
  cases Parser.effect_of_step h with
  | current file idle source =>
      refine ⟨fun pair => mem_pairs_of_addLocated fun _ => ?_, by simp⟩
      simp [Parser.pairs, hunit, CurrentUnit.pairs]
  | cached file filepath fileId idle source hit =>
      have hcached : 0 ≤ fileId → (filepath, fileId) ∈ parser.pairs := by
        intro hid
        simp [Parser.pairs, hit, hid]
      exact ⟨fun pair => mem_pairs_of_addLocated hcached,
        by simpa using hcached⟩
  | missed file filepath idle source miss =>
      refine ⟨fun pair hpair => ?_, by simp⟩
      rcases mem_pairs_setPhase hpair with hold | hnew
      · exact hold
      · contradiction
  | outside file filepath idle source =>
      exact ⟨fun pair => mem_pairs_of_addLocated (by simp [kInvalidFileId]),
        by simp⟩
  | addFuncDef d idle located =>
      refine ⟨fun pair hpair => ?_, by simp⟩
      refine mem_pairs_of_setUnit hunit ?_ (fun symbol hsymbol => ?_) hpair
      · rfl
      · simp only [List.map_append, List.map_singleton, List.mem_append,
          List.mem_singleton] at hsymbol ⊢
        rcases hsymbol with (hold | hdef | rfl) | hcall
        · exact .inl (.inl hold)
        · exact .inl (.inr hdef)
        · exact .inl (.inl located)
        · exact .inr hcall
  | addFuncCall d idle located =>
      refine ⟨fun pair hpair => ?_, by simp⟩
      refine mem_pairs_of_setUnit hunit ?_ (fun symbol hsymbol => ?_) hpair
      · rfl
      · simp only [List.map_append, List.map_singleton, List.mem_append,
          List.mem_singleton] at hsymbol ⊢
        rcases hsymbol with (hold | hdef) | hcall | rfl
        · exact .inl (.inl hold)
        · exact .inl (.inr hdef)
        · exact .inr hcall
        · exact .inl (.inl located)
  | fail idle =>
      refine ⟨fun pair hpair => List.mem_append_right _ ?_, by simp⟩
      simpa [Parser.pairs, idle, Phase.pairs] using hpair
  | crash filepath before was =>
      refine ⟨fun pair hpair => List.mem_append_right _ ?_, by simp⟩
      simpa [Parser.pairs, Phase.pairs] using hpair

/-! ## Tables -/

theorem Tables.symbols_execute {project : Project} {column : String → String}
    {tables : Tables} {stmt : Stmt} {pair : String × Int}
    (h : pair ∈ (tables.execute project column stmt).symbols) :
    pair ∈ tables.symbols ∨ pair ∈ stmt.pairs := by
  cases stmt with
  | insertFuncDefs currentTime rows =>
      simp only [Tables.symbols, execute, List.mem_append, List.mem_map] at h ⊢
      rcases h with ⟨d, hd, rfl⟩ | hcalls
      · rcases mem_insertAllIgnore hd with hold | hnew
        · exact .inl (.inl ⟨d, hold, rfl⟩)
        · obtain ⟨d, hsent, rfl⟩ := List.mem_map.mp hnew
          exact .inr (List.mem_map.mpr ⟨d, hsent, rfl⟩)
      · exact .inl (.inr hcalls)
  | insertFuncCalls currentTime rows =>
      simp only [Tables.symbols, execute, List.mem_append, List.mem_map] at h ⊢
      rcases h with hdefs | ⟨d, hd, rfl⟩
      · exact .inl (.inl hdefs)
      · rcases mem_insertAllIgnore hd with hold | hnew
        · exact .inl (.inr ⟨d, hold, rfl⟩)
        · obtain ⟨d, hsent, rfl⟩ := List.mem_map.mp hnew
          exact .inr (List.mem_map.mpr ⟨d, hsent, rfl⟩)
  | replaceFilepath => exact .inl h

theorem Tables.filepaths_execute {project : Project}
    {column : String → String} {tables : Tables} {stmt : Stmt}
    {row : FilepathRow}
    (h : row ∈ (tables.execute project column stmt).filepaths) :
    row ∈ tables.filepaths ∨ ∃ filepath,
      (filepath, row.filepathId) ∈ stmt.pairs ∧
        row.filepath = project.stored filepath := by
  cases stmt with
  | replaceFilepath filepathId filepath createTime =>
      rcases mem_replaceFilepath h with hold | rfl
      · exact .inl hold
      · exact .inr ⟨filepath, List.mem_singleton.mpr rfl, rfl⟩
  | _ => exact .inl h

theorem Tables.dml_cases (project : Project) (column : String → String)
    (retryCount : Int) (reply : Reply) (tables : Tables) (stmt : Stmt) :
    Executes retryCount reply ∧
        tables.dml project column retryCount reply stmt =
          tables.execute project column stmt ∨
      ¬Executes retryCount reply ∧
        tables.dml project column retryCount reply stmt = tables := by
  unfold dml
  by_cases h : Executes retryCount reply
  · rw [executed_of_executes h]
    exact .inl ⟨h, rfl⟩
  · rw [executed_of_not_executes h]
    exact .inr ⟨h, rfl⟩

theorem Tables.symbols_dml {project : Project} {column : String → String}
    {retryCount : Int} {reply : Reply} {tables : Tables} {stmt : Stmt}
    {pair : String × Int}
    (h : pair ∈ (tables.dml project column retryCount reply stmt).symbols) :
    pair ∈ tables.symbols ∨ pair ∈ stmt.pairs := by
  rcases dml_cases project column retryCount reply tables stmt with
    ⟨-, heq⟩ | ⟨-, heq⟩
  · exact symbols_execute (heq ▸ h)
  · exact .inl (heq ▸ h)

theorem Tables.filepaths_dml {project : Project} {column : String → String}
    {retryCount : Int} {reply : Reply} {tables : Tables} {stmt : Stmt}
    {row : FilepathRow}
    (h : row ∈ (tables.dml project column retryCount reply stmt).filepaths) :
    row ∈ tables.filepaths ∨ ∃ filepath,
      (filepath, row.filepathId) ∈ stmt.pairs ∧
        row.filepath = project.stored filepath := by
  rcases dml_cases project column retryCount reply tables stmt with
    ⟨-, heq⟩ | ⟨-, heq⟩
  · exact filepaths_execute (heq ▸ h)
  · exact .inl (heq ▸ h)

/-! ## One step -/

def State.drawnFor (project : Project) (s : State P C) :
    Action P C → Option String
  | .beginUnit _ command _ => some (project.filepath command)
  | .getNextFilepathId p =>
      match (s.parsers p).phase with
      | .assigning filepath _ => some filepath
      | _ => none
  | _ => none

def Action.read : Action P C → List Int
  | .query _ ids => ids
  | _ => []

def Action.restarts : Action P C → Bool
  | .startRun _ => true
  | _ => false

def InRange (action : Action P C) : Prop :=
  ∀ id ∈ action.read, 0 ≤ id ∧ id < 2 ^ 31

instance (action : Action P C) : Decidable (InRange action) :=
  inferInstanceAs (Decidable (∀ id ∈ action.read, _))

theorem getInt_of_inRange {id : Int} (h : 0 ≤ id ∧ id < 2 ^ 31) :
    getInt (some id) = id := by
  simp only [getInt, Int.bmod]
  split <;> omega

theorem State.knows_setParser [DecidableEq P] {s s' : State P C} {p : P}
    {parser : Parser} {Q : String → Int → Prop} {filepath : String} {id : Int}
    (h : s'.Knows filepath id)
    (hknown : ∀ filepath id, s.Knows filepath id → Q filepath id)
    (hparsers : s'.parsers = Function.update s.parsers p parser)
    (hpairs : ∀ pair ∈ parser.pairs,
      pair ∈ (s.parsers p).pairs ∨ Q pair.1 pair.2)
    (hgiven : ∀ pair ∈ s'.given, pair ∈ s.given ∨ Q pair.1 pair.2)
    (hreturned : ∀ call ∈ s'.returned, call ∈ s.returned ∨
      (0 ≤ call.fileId → Q call.filepath call.fileId))
    (hqueue : ∀ batch ∈ s'.queue, batch ∈ s.queue ∨
      ∀ pair ∈ batch.pairs, Q pair.1 pair.2)
    (hstorers : s'.storers = s.storers)
    (hsymbols : s'.tables.symbols = s.tables.symbols) : Q filepath id := by
  obtain ⟨place, hplace⟩ := h
  cases place with
  | parser q =>
      simp only [pairsAt, hparsers, Function.update_apply] at hplace
      split at hplace
      · rcases hpairs _ hplace with hold | hnew
        · exact hknown filepath id ⟨.parser p, hold⟩
        · exact hnew
      · exact hknown filepath id ⟨.parser q, hplace⟩
  | given =>
      rcases hgiven _ hplace with hold | hnew
      · exact hknown filepath id ⟨.given, hold⟩
      · exact hnew
  | returned =>
      simp only [pairsAt, mem_nonneg, List.mem_map] at hplace
      obtain ⟨⟨call, hcall, heq⟩, hid⟩ := hplace
      rcases hreturned call hcall with hold | hnew
      · refine hknown filepath id ⟨.returned, mem_nonneg.mpr ⟨?_, hid⟩⟩
        exact List.mem_map.mpr ⟨call, hold, heq⟩
      · cases heq
        exact hnew hid
  | queue =>
      obtain ⟨batch, hbatch, hpair⟩ := List.mem_flatMap.mp hplace
      rcases hqueue batch hbatch with hold | hnew
      · refine hknown filepath id ⟨.queue, ?_⟩
        exact List.mem_flatMap.mpr ⟨batch, hold, hpair⟩
      · exact hnew _ hpair
  | storer c =>
      rw [pairsAt, hstorers] at hplace
      exact hknown filepath id ⟨.storer c, hplace⟩
  | symbols =>
      rw [pairsAt, hsymbols] at hplace
      exact hknown filepath id ⟨.symbols, hplace⟩

theorem State.knows_setStorer [DecidableEq C] {s s' : State P C} {c : C}
    {stmts : List Stmt} {filepath : String} {id : Int}
    (h : s'.Knows filepath id)
    (hstorers : s'.storers = Function.update s.storers c stmts)
    (hstmts : ∀ pair ∈ stmts.flatMap Stmt.pairs, s.Knows pair.1 pair.2)
    (hqueue : ∀ batch ∈ s'.queue, batch ∈ s.queue)
    (hsymbols : ∀ pair ∈ s'.tables.symbols, s.Knows pair.1 pair.2)
    (hparsers : s'.parsers = s.parsers) (hgiven : s'.given = s.given)
    (hreturned : s'.returned = s.returned) : s.Knows filepath id := by
  obtain ⟨place, hplace⟩ := h
  cases place with
  | storer c' =>
      simp only [pairsAt, hstorers, Function.update_apply] at hplace
      split at hplace
      · exact hstmts _ hplace
      · exact ⟨.storer c', hplace⟩
  | queue =>
      obtain ⟨batch, hbatch, hpair⟩ := List.mem_flatMap.mp hplace
      exact ⟨.queue, List.mem_flatMap.mpr ⟨batch, hqueue batch hbatch, hpair⟩⟩
  | symbols => exact hsymbols _ hplace
  | parser p =>
      rw [pairsAt, hparsers] at hplace
      exact ⟨.parser p, hplace⟩
  | given =>
      rw [pairsAt, hgiven] at hplace
      exact ⟨.given, hplace⟩
  | returned =>
      rw [pairsAt, hreturned] at hplace
      exact ⟨.returned, hplace⟩

theorem Batch.Cut.pairs {limit : Nat} {batch : Batch} (h : batch.Cut limit)
    {pair : String × Int} (hpair : pair ∈ batch.pairs) :
    pair ∈ batch.unit.pairs := by
  obtain ⟨stmt, hstmt, hpair⟩ := List.mem_flatMap.mp hpair
  simp only [Batch.stmts, List.mem_append, List.mem_map,
    List.mem_singleton] at hstmt
  rcases hstmt with (⟨group, hgroup, rfl⟩ | ⟨group, hgroup, rfl⟩) | rfl
  · obtain ⟨d, hd, rfl⟩ := List.mem_map.mp hpair
    have hmem := List.mem_flatten_of_mem hgroup hd
    rw [h.2.1.flatten, List.mem_filter] at hmem
    apply List.mem_cons_of_mem
    rw [mem_nonneg]
    constructor
    · exact List.mem_append_left _
        (List.mem_append_right _ (List.mem_map_of_mem hmem.1))
    · have hkept := hmem.2
      simp only [FuncDef.skipped, Bool.not_or, Bool.and_eq_true,
        Bool.not_eq_true', decide_eq_false_iff_not] at hkept
      exact Int.not_lt.mp hkept.2
  · obtain ⟨d, hd, rfl⟩ := List.mem_map.mp hpair
    have hmem := List.mem_flatten_of_mem hgroup hd
    rw [h.2.2.flatten, List.mem_filter] at hmem
    apply List.mem_cons_of_mem
    rw [mem_nonneg]
    constructor
    · exact List.mem_append_right _ (List.mem_map_of_mem hmem.1)
    · have hkept := hmem.2
      simp only [FuncCall.skipped, Bool.not_or, Bool.and_eq_true,
        Bool.not_eq_true', decide_eq_false_iff_not] at hkept
      exact Int.not_lt.mp hkept.2
  · rw [Stmt.pairs, List.mem_singleton] at hpair
    exact hpair ▸ List.mem_cons_self

/-! ## No id for two paths -/

def State.Owned (project : Project) (s : State P C) : Prop :=
  Allocated (s.Claims project) s.nextFilepathId

theorem State.Owned.start {project : Project} {start : Start}
    (hkey : (start.filepaths.map fun row => row.filepathId).Nodup)
    (habove : ∀ row ∈ start.filepaths, row.filepathId < start.nextFilepathId) :
    (State.start start : State P C).Owned project := by
  have hclaims : ∀ text id,
      (State.start start : State P C).Claims project text id →
        ∃ row ∈ start.filepaths, row.filepath = text ∧ row.filepathId = id := by
    rintro text id (⟨filepath, ⟨place, hplace⟩, -⟩ | hrow)
    · cases place <;> simp [pairsAt, State.start, Parser.new, Parser.pairs,
        Phase.pairs, nonneg, Tables.symbols] at hplace
    · exact hrow
  constructor
  · intro text text' id hclaim hclaim'
    obtain ⟨row, hrow, rfl, hid⟩ := hclaims text id hclaim
    obtain ⟨row', hrow', rfl, hid'⟩ := hclaims text' id hclaim'
    rw [List.inj_on_of_nodup_map hkey hrow hrow' (hid.trans hid'.symm)]
  · intro text id hclaim
    obtain ⟨row, hrow, -, rfl⟩ := hclaims text id hclaim
    exact habove row hrow

structure State.Restartable (s : State P C) : Prop where
  filepaths : ∀ row ∈ s.tables.filepaths, row.filepathId < s.preparedId
  symbols : ∀ pair ∈ s.tables.symbols, pair.2 < s.preparedId

theorem State.Owned.startRun {project : Project} {s : State P C}
    (h : s.Owned project) (flags : Flags) (hrestart : s.Restartable) :
    (s.startRun flags).Owned project := by
  have hclaims : ∀ text id, (s.startRun flags).Claims project text id →
      (∃ filepath, (filepath, id) ∈ s.tables.symbols ∧
        project.stored filepath = text) ∨
      ∃ row ∈ s.tables.filepaths, row.filepath = text ∧
        row.filepathId = id := by
    rintro text id (⟨filepath, ⟨place, hplace⟩, hpath⟩ | hrow)
    · cases place with
      | symbols => exact .inl ⟨filepath, hplace, hpath⟩
      | _ => simp [pairsAt, State.startRun, Parser.new, Parser.pairs,
          Phase.pairs, nonneg] at hplace
    · exact .inr hrow
  apply Allocated.restart h
  · intro text id hclaim
    rcases hclaims text id hclaim with ⟨filepath, hpair, hpath⟩ | hrow
    · exact .inl ⟨filepath, ⟨.symbols, hpair⟩, hpath⟩
    · exact .inr hrow
  · intro text id hclaim
    rcases hclaims text id hclaim with ⟨filepath, hpair, -⟩ | ⟨row, hrow, -, rfl⟩
    · exact hrestart.symbols _ hpair
    · exact hrestart.filepaths row hrow

section Step

variable {project : Project} {column : String → String} {s s' : State P C}
  {action : Action P C}

/-- What a step may know of an id: it has been claimed for the path before, or
is drawn for it now. -/
def State.Learns (project : Project) (s : State P C) (action : Action P C)
    (filepath : String) (id : Int) : Prop :=
  s.Claims project (project.stored filepath) id ∨
    s.drawnFor project action = some filepath ∧ id = s.nextFilepathId

theorem State.knows_getStmts [DecidableEq C] {c : C} {batch : Batch}
    {rest : List Batch} {filepath : String} {id : Int}
    (head : s.queue = batch :: rest)
    (h : ({ s with
      queue := rest
      storers := Function.update s.storers c batch.stmts } : State P C).Knows
        filepath id) : s.Knows filepath id := by
  refine knows_setStorer h rfl ?_ ?_ (fun pair hpair => ⟨.symbols, hpair⟩) rfl
    rfl rfl
  · intro pair hpair
    refine ⟨.queue, List.mem_flatMap.mpr ⟨batch, ?_, hpair⟩⟩
    rw [head]
    exact List.mem_cons_self
  · rw [head]
    exact fun _ => List.mem_cons_of_mem batch

theorem State.knows_dml [DecidableEq C] {c : C} {reply : Reply} {stmt : Stmt}
    {rest : List Stmt} {filepath : String} {id : Int}
    (was : s.storers c = stmt :: rest)
    (h : ({ s with
      tables := s.tables.dml project column s.flags.retryCount reply stmt
      storers := Function.update s.storers c
        (if (MySQL.dml s.flags.retryCount reply).ret ≠ 0 then []
          else rest) } : State P C).Knows filepath id) :
    s.Knows filepath id := by
  have hsent : ∀ pair ∈ stmt.pairs ++ rest.flatMap Stmt.pairs,
      s.Knows pair.1 pair.2 := by
    intro pair hpair
    refine ⟨.storer c, ?_⟩
    rw [pairsAt, was, List.flatMap_cons]
    exact hpair
  refine knows_setStorer h rfl ?_ (fun _ hold => hold) ?_ rfl rfl rfl
  · intro pair hpair
    split at hpair
    · contradiction
    · exact hsent _ (List.mem_append_right _ hpair)
  · intro pair hpair
    rcases Tables.symbols_dml hpair with hold | hnew
    · exact ⟨.symbols, hold⟩
    · exact hsent _ (List.mem_append_left _ hnew)

theorem State.learns_startRun {flags : Flags} {filepath : String} {id : Int}
    (h : (s.startRun flags).Knows filepath id) :
    s.Learns project action filepath id := by
  obtain ⟨place, hplace⟩ := h
  cases place with
  | symbols => exact .inl (State.Knows.claims ⟨.symbols, hplace⟩)
  | _ => simp [pairsAt, startRun, Parser.new, Parser.pairs, Phase.pairs,
      nonneg] at hplace

variable [DecidableEq P]

theorem State.learns_setPhase {p : P} {phase : Phase} {filepath : String}
    {id : Int} (h : s'.Knows filepath id)
    (hparsers : s'.parsers =
      Function.update s.parsers p { s.parsers p with phase := phase })
    (hphase : ∀ pair ∈ phase.pairs, s.Learns project action pair.1 pair.2)
    (hgiven : s'.given = s.given) (hreturned : s'.returned = s.returned)
    (hqueue : s'.queue = s.queue) (hstorers : s'.storers = s.storers)
    (hsymbols : s'.tables.symbols = s.tables.symbols) :
    s.Learns project action filepath id := by
  refine knows_setParser h (fun _ _ hknows => .inl hknows.claims) hparsers ?_
    ?_ ?_ ?_ hstorers hsymbols
  · exact fun pair hpair => (mem_pairs_setPhase hpair).imp_right (hphase pair)
  · exact fun pair hpair => .inl (hgiven ▸ hpair)
  · exact fun call hcall => .inl (hreturned ▸ hcall)
  · exact fun batch hbatch => .inl (hqueue ▸ hbatch)

theorem State.learns_finish {p : P} {found filepath : String}
    {before : List FilepathRow} {fnId id : Int} (h : s'.Knows filepath id)
    (hfound : 0 ≤ fnId → (found, fnId) ∈ (s.parsers p).pairs)
    (hparsers : s'.parsers = (s.finish p found before fnId).parsers)
    (hreturned : s'.returned = (s.finish p found before fnId).returned)
    (hgiven : s'.given = s.given) (hqueue : s'.queue = s.queue)
    (hstorers : s'.storers = s.storers)
    (hsymbols : s'.tables.symbols = s.tables.symbols) :
    s.Learns project action filepath id := by
  refine knows_setParser h (fun _ _ hknows => .inl hknows.claims) hparsers ?_
    ?_ ?_ ?_ hstorers hsymbols
  · intro pair hpair
    rcases mem_pairs_finish hpair with hold | ⟨rfl, hid⟩
    · exact .inl hold
    · exact .inl (hfound hid)
  · exact fun pair hpair => .inl (hgiven ▸ hpair)
  · intro call hcall
    rw [hreturned] at hcall
    rcases List.mem_cons.mp hcall with rfl | hold
    · have hknows : 0 ≤ fnId → s.Knows found fnId :=
        fun hid => ⟨.parser p, hfound hid⟩
      exact .inr fun hid => .inl (hknows hid).claims
    · exact .inl hold
  · exact fun batch hbatch => .inl (hqueue ▸ hbatch)

theorem State.learns_draw {p : P} {parser : Parser} {drawn filepath : String}
    {id : Int} (h : ((s.draw drawn).setParser p parser).Knows filepath id)
    (hdrawn : s.drawnFor project action = some drawn)
    (hpairs : ∀ pair ∈ parser.pairs,
      pair ∈ (s.parsers p).pairs ∨ pair = (drawn, s.nextFilepathId)) :
    s.Learns project action filepath id := by
  have hnew : s.Learns project action drawn s.nextFilepathId :=
    .inr ⟨hdrawn, rfl⟩
  refine knows_setParser h (fun _ _ hknows => .inl hknows.claims) rfl ?_ ?_
    (fun _ => .inl) (fun _ => .inl) rfl rfl
  · intro pair hpair
    rcases hpairs pair hpair with hold | rfl
    · exact .inl hold
    · exact .inr hnew
  · intro pair hpair
    rcases List.mem_cons.mp hpair with rfl | hold
    · exact .inr hnew
    · exact .inl hold

theorem State.learns_parse {p : P} {move : ParseAction} {unit : CurrentUnit}
    {parser : Parser} {returned : List Return} {filepath : String} {id : Int}
    (was : (s.parsers p).unit = some unit)
    (moves : (s.parsers p).step project s.tables.filepaths unit move =
      some (parser, returned))
    (h : ({ s.setParser p parser with
      returned := returned ++ s.returned } : State P C).Knows filepath id) :
    s.Learns project action filepath id := by
  obtain ⟨hpairs, hcalls⟩ := Parser.pairs_step was moves
  refine knows_setParser h (fun _ _ hknows => .inl hknows.claims) rfl ?_
    (fun _ => .inl) ?_ (fun _ => .inl) rfl rfl
  · exact fun pair hpair => .inl (hpairs pair hpair)
  · intro call hcall
    rcases List.mem_append.mp hcall with hnew | hold
    · exact .inr fun hid =>
        .inl (State.Knows.claims ⟨.parser p, hcalls call hnew hid⟩)
    · exact .inl hold

theorem State.learns_queryFound {p : P} {found filepath : String}
    {before : List FilepathRow} {row id : Int} (hrange : 0 ≤ row ∧ row < 2 ^ 31)
    (stored : row ∈ filepathIds s.tables.filepaths (project.stored found))
    (h : (s.setPhase p (.unlocking found before (getInt (some row)))).Knows
      filepath id) : s.Learns project action filepath id := by
  refine learns_setPhase h rfl ?_ rfl rfl rfl rfl rfl
  intro pair hpair
  rw [Phase.pairs, mem_nonneg, List.mem_singleton] at hpair
  rw [hpair.1, getInt_of_inRange hrange]
  obtain ⟨row, hrow, rfl⟩ := List.mem_map.mp stored
  rw [List.mem_filter, decide_eq_true_eq] at hrow
  exact .inl (.inr ⟨row, hrow.1, hrow.2, rfl⟩)

theorem State.learns_replace {p : P} {mtime : Int} {reply : Reply}
    {found filepath : String} {before : List FilepathRow} {fnId id : Int}
    (was : (s.parsers p).phase = .replacing found before fnId)
    (h : ({ s.setPhase p (.unlocking found before
        (if (MySQL.dml s.flags.retryCount reply).ret ≠ 0 then -1 else fnId)) with
      tables := s.tables.dml project column s.flags.retryCount reply
        (.replaceFilepath fnId found mtime) } : State P C).Knows filepath id) :
    s.Learns project action filepath id := by
  refine knows_setParser h (fun _ _ hknows => .inl hknows.claims) rfl ?_
    (fun _ => .inl) (fun _ => .inl) (fun _ => .inl) rfl ?_
  · intro pair hpair
    rcases mem_pairs_setPhase hpair with hold | hnew
    · exact .inl hold
    · rw [Phase.pairs, mem_nonneg, List.mem_singleton] at hnew
      obtain ⟨rfl, hid⟩ := hnew
      left
      split at hid
      · exact absurd hid (by simp)
      · rename_i hret
        rw [if_neg hret]
        simp [Parser.pairs, was, Phase.pairs]
  · rcases Tables.dml_cases project column s.flags.retryCount reply s.tables
      (.replaceFilepath fnId found mtime) with ⟨-, heq⟩ | ⟨-, heq⟩
    · exact (congrArg Tables.symbols heq).trans rfl
    · exact congrArg Tables.symbols heq

theorem State.learns_sendIndexedResult {p : P} {batch : Batch}
    {cache : List (String × Int)} {limit : Nat} {filepath : String} {id : Int}
    (was : s.parsers p = ⟨some batch.unit, .idle, cache⟩)
    (cut : batch.Cut limit)
    (h : ({ s.setParser p ⟨none, .idle, cache⟩ with
      queue := s.queue ++ [batch]
      indexed := batch.unit.filepath :: s.indexed } : State P C).Knows filepath
        id) : s.Learns project action filepath id := by
  refine knows_setParser h (fun _ _ hknows => .inl hknows.claims) rfl ?_
    (fun _ => .inl) (fun _ => .inl) ?_ rfl rfl
  · intro pair hpair
    rw [was]
    exact .inl (List.mem_append_right _ hpair)
  · intro old hold
    rcases List.mem_append.mp hold with hqueued | hnew
    · exact .inl hqueued
    · right
      intro pair hpair
      rw [List.mem_singleton.mp hnew] at hpair
      exact .inl (State.Knows.claims
        ⟨.parser p, pairs_of_unit (by rw [was]) (cut.pairs hpair)⟩)

variable [DecidableEq C]

theorem State.learns_of_effect (hrange : InRange action)
    (heffect : s.Effect project column action s') {filepath : String}
    {id : Int} (h : s'.Knows filepath id) :
    s.Learns project action filepath id := by
  cases heffect with
  | startRun flags => exact learns_startRun h
  | beginUnit p command time idle =>
      refine learns_draw h rfl fun pair hpair => ?_
      refine (mem_pairs_setUnit hpair).imp_right fun hnew => ?_
      simpa [CurrentUnit.pairs, nonneg] using hnew
  | parse p action unit parser returned was moves =>
      exact learns_parse was moves h
  | lockGranted p reply filepath was free =>
      exact learns_setPhase h rfl (by simp [Phase.pairs]) rfl rfl rfl rfl rfl
  | lockFailed p reply filepath was =>
      exact learns_finish h (by simp) rfl rfl rfl rfl rfl rfl
  | lockLost p reply filepath was lost =>
      exact learns_setPhase h rfl (by simp [Phase.pairs]) rfl rfl rfl rfl rfl
  | queryFound p ids filepath before id was stored found =>
      exact learns_queryFound (hrange id stored.1) stored.2 h
  | queryMissed p ids filepath before was answer missed =>
      exact learns_setPhase h rfl (by simp [Phase.pairs]) rfl rfl rfl rfl rfl
  | getNextFilepathId p filepath before was =>
      have hdrawn : s.drawnFor project (.getNextFilepathId p) =
          some filepath := by
        simp [drawnFor, was]
      refine learns_draw h hdrawn fun pair hpair => ?_
      exact (mem_pairs_setPhase hpair).imp_right List.mem_singleton.mp
  | replace p mtime reply filepath before fnId was free =>
      exact learns_replace was h
  | unlock p reply filepath before fnId was =>
      have hfound : 0 ≤ fnId → (filepath, fnId) ∈ (s.parsers p).pairs := by
        intro hid
        simp [Parser.pairs, was, Phase.pairs, hid]
      exact learns_finish h hfound rfl rfl rfl rfl rfl rfl
  | sendIndexedResult p batch cache was cut =>
      exact learns_sendIndexedResult was cut h
  | cleanUp p cache was =>
      refine knows_setParser h (fun _ _ hknows => .inl hknows.claims) rfl ?_
        (fun _ => .inl) (fun _ => .inl) (fun _ => .inl) rfl rfl
      simp [Parser.new, Parser.pairs, Phase.pairs, nonneg]
  | getStmts c batch rest was head => exact .inl (knows_getStmts head h).claims
  | dml c reply stmt rest was unblocked => exact .inl (knows_dml was h).claims

theorem State.rows_of_effect (heffect : s.Effect project column action s')
    {row : FilepathRow} (h : row ∈ s'.tables.filepaths) :
    row ∈ s.tables.filepaths ∨ ∃ filepath,
      s.Knows filepath row.filepathId ∧
        row.filepath = project.stored filepath := by
  cases heffect with
  | replace p mtime reply filepath before fnId was free =>
      rcases Tables.filepaths_dml h with hold | ⟨_, hpair, hpath⟩
      · exact .inl hold
      · rw [Stmt.pairs, List.mem_singleton, Prod.mk.injEq] at hpair
        obtain ⟨rfl, hid⟩ := hpair
        refine .inr ⟨_, ⟨.parser p, ?_⟩, hpath⟩
        simp [pairsAt, Parser.pairs, was, Phase.pairs, hid]
  | dml c reply stmt rest was unblocked =>
      rcases Tables.filepaths_dml h with hold | ⟨filepath, hpair, hpath⟩
      · exact .inl hold
      · refine .inr ⟨filepath, ⟨.storer c, ?_⟩, hpath⟩
        rw [pairsAt, was, List.flatMap_cons]
        exact List.mem_append_left _ hpair
  | _ => exact .inl h

theorem State.claims_of_effect (hrange : InRange action)
    (heffect : s.Effect project column action s') {text : String} {id : Int}
    (h : s'.Claims project text id) :
    s.Claims project text id ∨ ∃ filepath,
      s.drawnFor project action = some filepath ∧
        text = project.stored filepath ∧ id = s.nextFilepathId := by
  rcases h with ⟨filepath, hknows, rfl⟩ | ⟨row, hrow, rfl, rfl⟩
  · rcases learns_of_effect hrange heffect hknows with hold | ⟨hdrawn, hid⟩
    · exact .inl hold
    · exact .inr ⟨filepath, hdrawn, rfl, hid⟩
  · rcases rows_of_effect heffect hrow with hold | ⟨filepath, hknows, hpath⟩
    · exact .inl (.inr ⟨row, hold, rfl, rfl⟩)
    · exact .inl (.inl ⟨filepath, hknows, hpath.symm⟩)

theorem State.Owned.step (h : s.Owned project) (hrange : InRange action)
    (hrestart : action.restarts = true → s.Restartable)
    (hstep : s.step project column action = some s') : s'.Owned project := by
  have heffect := effect_of_step hstep
  have hclaims := fun text id (hclaim : s'.Claims project text id) =>
    claims_of_effect hrange heffect hclaim
  cases hdrawn : s.drawnFor project action with
  | some filepath =>
      have hnext : s'.nextFilepathId = s.nextFilepathId + 1 := by
        cases heffect with
        | beginUnit => rfl
        | getNextFilepathId => rfl
        | _ => contradiction
      rw [Owned, hnext]
      apply Allocated.draw h (project.stored filepath)
      intro text id hclaim
      rcases hclaims text id hclaim with hold | ⟨filepath', hdrawn', htext, hid⟩
      · exact .inl hold
      · rw [hdrawn, Option.some.injEq] at hdrawn'
        exact .inr ⟨hdrawn' ▸ htext, hid⟩
  | none =>
      have hold : ∀ text id, s'.Claims project text id →
          s.Claims project text id := by
        intro text id hclaim
        rcases hclaims text id hclaim with hold | ⟨filepath, hdrawn', -⟩
        · exact hold
        · rw [hdrawn] at hdrawn'
          contradiction
      cases heffect with
      | startRun flags => exact h.startRun flags (hrestart rfl)
      | beginUnit => contradiction
      | getNextFilepathId p filepath before was =>
          simp [drawnFor, was] at hdrawn
      | _ => exact Allocated.mono h hold

end Step

end Pview.FileIds
