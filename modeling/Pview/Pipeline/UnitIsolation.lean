import Pview.Pipeline.System

/-!
# One unit after the other

A parse task keeps the symbols of the current translation unit in members that
all of its units share, and clears them in the destructors of two nested
guards.  Below are `index_translation_unit` with all of its exits and the
callbacks of clang, which are called only between `BeginSourceFile` and the end
of the guarded parse.
-/

namespace Pview.Indexer

/-- The members of `ParseTask` that a translation unit changes. -/
structure UnitTask extends ParseTask where
  classDefs : List DeclInfo
  currentTranslationUnitIdx : Nat

/-- What a callback learns of a location, with the id drawn for its symbol.
`fileId` is what `query_or_assign_file_id` answers for the file. -/
structure Occurrence where
  newId : Nat
  file : String
  line : Nat
  fileId : Int
  deriving DecidableEq, Repr

/-- The callbacks.  A `might_throw` that is not computed is uninitialised and
may be anything. -/
inductive Event where
  | handleFunc (isDecl isDef : Bool) (usr qualified : String)
      (funcMightThrow : Bool) (caller : Option (String × Bool))
      (occurrence : Occurrence)
  | macroExpands (isBuiltin : Bool) (name : String) (funcMightThrow : Bool)
      (occurrence : Occurrence)
  | macroDefined (isBuiltin : Bool) (name : String) (funcMightThrow : Bool)
      (occurrence : Occurrence)
  /-- `add_class_def`, whose caller is disabled. -/
  | addClassDef (info : DeclInfo)
  deriving DecidableEq, Repr

namespace UnitTask

def new : UnitTask where
  funcDefs := []
  funcCalls := []
  currentTime := 0
  currentFilepath := ""
  currentFilepathId := -1
  classDefs := []
  currentTranslationUnitIdx := 0

def clearCurrentTranslationUnitResult (task : UnitTask) : UnitTask where
  toParseTask := task.toParseTask.clearCurrentTranslationUnitResult
  classDefs := []
  currentTranslationUnitIdx := task.currentTranslationUnitIdx

def addFuncDef (task : UnitTask) (d : FuncDef) : UnitTask :=
  { task with funcDefs := task.funcDefs ++ [d] }

def addFuncCall (task : UnitTask) (d : FuncCall) : UnitTask :=
  { task with funcCalls := task.funcCalls ++ [d] }

def addClassDef (task : UnitTask) (info : DeclInfo) : UnitTask :=
  { task with classDefs := task.classDefs ++ [info] }

def genSourceLocation (projectRoot : String) (task : UnitTask)
    (occurrence : Occurrence) : Location where
  fileId :=
    let (filepath, inProject) := sourceFile projectRoot occurrence.file
    if filepath = task.currentFilepath then task.currentFilepathId
    else if inProject then occurrence.fileId
    else kInvalidFileId
  line := occurrence.line

def genDeclInfo (projectRoot : String) (task : UnitTask)
    (usr qualified : String) (funcMightThrow : Bool)
    (occurrence : Occurrence) : DeclInfo where
  usr := usr
  qualified := qualified
  funcMightThrow := funcMightThrow
  sourceLocation := task.genSourceLocation projectRoot occurrence

def handle (projectRoot : String) (task : UnitTask) : Event → UnitTask
  | .handleFunc isDecl isDef usr qualified funcMightThrow caller occurrence =>
      let info := task.genDeclInfo projectRoot usr qualified funcMightThrow
        occurrence
      if isDef then
        task.addFuncDef ⟨occurrence.newId, info⟩
      else if isDecl then
        task
      else
        let (callerUsr, callerMightThrow) := caller.getD ("", false)
        task.addFuncCall ⟨occurrence.newId, info, callerUsr, callerMightThrow⟩
  | .macroExpands isBuiltin name funcMightThrow occurrence =>
      if isBuiltin then
        task
      else
        let usr := "@macro@" ++ name
        task.addFuncCall ⟨occurrence.newId,
          task.genDeclInfo projectRoot usr usr funcMightThrow occurrence, "",
          false⟩
  | .macroDefined isBuiltin name funcMightThrow occurrence =>
      if isBuiltin then
        task
      else
        let usr := "@macro@" ++ name
        task.addFuncDef ⟨occurrence.newId,
          task.genDeclInfo projectRoot usr usr funcMightThrow occurrence⟩
  | .addClassDef info => task.addClassDef info

structure Clean (task : UnitTask) : Prop where
  funcDefs : task.funcDefs = []
  funcCalls : task.funcCalls = []
  classDefs : task.classDefs = []

theorem clean_new : new.Clean := ⟨rfl, rfl, rfl⟩

theorem clean_clear (task : UnitTask) :
    task.clearCurrentTranslationUnitResult.Clean := ⟨rfl, rfl, rfl⟩

def current (task : UnitTask) : Int × String × Int :=
  (task.currentTime, task.currentFilepath, task.currentFilepathId)

theorem current_handle (projectRoot : String) (task : UnitTask)
    (event : Event) :
    (task.handle projectRoot event).current = task.current := by
  cases event with
  | handleFunc isDecl isDef => cases isDef <;> cases isDecl <;> rfl
  | macroExpands isBuiltin => cases isBuiltin <;> rfl
  | macroDefined isBuiltin => cases isBuiltin <;> rfl
  | addClassDef info => rfl

theorem current_foldl_handle (projectRoot : String) (task : UnitTask)
    (events : List Event) :
    (events.foldl (handle projectRoot) task).current = task.current := by
  induction events generalizing task with
  | nil => rfl
  | cons event events ih =>
      calc (events.foldl (handle projectRoot)
            (task.handle projectRoot event)).current
        _ = (task.handle projectRoot event).current := ih _
        _ = task.current := current_handle projectRoot task event

end UnitTask

end Pview.Indexer

namespace Pview.Pipeline

open Pview.Foundation
open Pview.Indexer
open Pview.MySQL
open Pview.Reindex (checkNeedReindex)

/-! ## One unit -/

/-- How the guarded parse ends; diagnostics are counted throughout. -/
inductive ParseOutcome where
  | crash
  | failed
  | done (numErrors : Nat)
  deriving DecidableEq, Repr

structure Turn (project : Project) where
  idx : Fin project.commands.length
  /-- The filepaths table when its time is looked up. -/
  rows : List FilepathRow
  check : Check
  filepathId : Int
  time : Int
  built : Bool
  events : List Event
  outcome : ParseOutcome

/-- What one call of `index_translation_unit` did: the batches it passed to
`add_stmts` and its result, true on error. -/
structure Visit where
  before : UnitTask
  enqueued : List (List String)
  failed : Bool
  after : UnitTask

variable {project : Project}

namespace Turn

def command (turn : Turn project) : CompileCommand :=
  project.commands.get turn.idx

theorem listed (turn : Turn project) : turn.command ∈ project.commands :=
  List.get_mem project.commands turn.idx

def needReindex (turn : Turn project) : Bool :=
  checkNeedReindex turn.check.fileExists turn.check.curFileMtime
    (getFileLastMtime turn.check.answered turn.rows
      (project.storedPath turn.command)) turn.check.analysis

def enter (turn : Turn project) (task : UnitTask) : UnitTask :=
  { task with
    currentTime := turn.time
    currentFilepath := project.filepath turn.command
    currentFilepathId := turn.filepathId
    currentTranslationUnitIdx := turn.idx }

end Turn

def leave (before task : UnitTask) (failed : Bool)
    (enqueued : List (List String)) : Visit where
  before := before
  enqueued := enqueued
  failed := failed
  after := task.clearCurrentTranslationUnitResult

section Flags

variable (names : TableNames) (batchSize : Int) (debugSingleFile : String)

def indexTranslationUnit (fuel : Nat) (before : UnitTask)
    (turn : Turn project) : Option Visit :=
  if debugSingleFile ≠ "" ∧ turn.command.filename ≠ debugSingleFile then
    some (leave before before false [])
  else if !turn.needReindex then
    some (leave before before false [])
  else
    let task := turn.enter before
    if !turn.built then
      some (leave before task true [])
    else
      let task := turn.events.foldl (UnitTask.handle project.root) task
      match turn.outcome with
      | .crash => some (leave before task true [])
      | .failed => some (leave before task true [])
      | .done numErrors =>
          if 0 < numErrors then
            some (leave before task true [])
          else
            -- the guard of send_indexed_result clears the symbols as well
            (task.sendIndexedResult names batchSize fuel).map
              fun (stmts, sent) => leave before
                { task with toParseTask := sent, classDefs := [] } false
                [stmts]

/-- The loop of `do_parse` over the commands that the shared counter gives to
this task. -/
def indexTranslationUnits (fuel : Nat) :
    UnitTask → List (Turn project) → Option (List Visit)
  | _, [] => some []
  | task, turn :: turns =>
      (indexTranslationUnit names batchSize debugSingleFile fuel task turn).bind
        fun visit =>
          (indexTranslationUnits fuel visit.after turns).map (visit :: ·)

/-! ## Isolation -/

def Turn.Succeeds (turn : Turn project) : Prop :=
  ¬(debugSingleFile ≠ "" ∧ turn.command.filename ≠ debugSingleFile) ∧
    turn.needReindex = true ∧ turn.built = true ∧ turn.outcome = .done 0

def Turn.unit (turn : Turn project) : TranslationUnit project where
  command := turn.command
  task := (turn.events.foldl (UnitTask.handle project.root)
    (turn.enter .new)).toParseTask
  listed := turn.listed
  path := congrArg (fun current => current.2.1)
    (UnitTask.current_foldl_handle project.root (turn.enter .new) turn.events)

theorem Turn.unit_current (turn : Turn project) :
    turn.unit.task.currentTime = turn.time ∧
      turn.unit.task.currentFilepathId = turn.filepathId := by
  have hcurrent := UnitTask.current_foldl_handle project.root (turn.enter .new)
    turn.events
  simp only [UnitTask.current, Prod.mk.injEq] at hcurrent
  exact ⟨hcurrent.1, hcurrent.2.2⟩

/-- Nothing is there before and after a visit, and what is sent is the batch
of the unit itself. -/
structure Isolated (turn : Turn project) (visit : Visit) : Prop where
  before : visit.before.Clean
  after : visit.after.Clean
  sent : turn.Succeeds debugSingleFile →
    ∃ batch : Batch project, batch.unit = turn.unit ∧
      batch.unit.task.currentTime = turn.time ∧
      batch.unit.task.currentFilepathId = turn.filepathId ∧
      batch.Cut (batchLimit batchSize) ∧
      visit.enqueued = [batch.stmts.map (Statement.text names)]
  silent : ¬turn.Succeeds debugSingleFile → visit.enqueued = []

end Flags

variable {names : TableNames} {batchSize : Int} {debugSingleFile : String}

theorem Turn.enter_of_clean (turn : Turn project) {task : UnitTask}
    (h : task.Clean) : turn.enter task = turn.enter .new := by
  unfold Turn.enter
  rw [h.funcDefs, h.funcCalls, h.classDefs]
  rfl

theorem isolated_leave {turn : Turn project} {before task : UnitTask}
    {failed : Bool} (hbefore : before.Clean)
    (hfails : ¬turn.Succeeds debugSingleFile) :
    Isolated names batchSize debugSingleFile turn
      (leave before task failed []) where
  before := hbefore
  after := task.clean_clear
  sent h := absurd h hfails
  silent _ := rfl

theorem indexTranslationUnit_isolated {fuel : Nat} {before : UnitTask}
    {turn : Turn project} {visit : Visit} (hbefore : before.Clean)
    (h : indexTranslationUnit names batchSize debugSingleFile fuel before
      turn = some visit) :
    Isolated names batchSize debugSingleFile turn visit := by
  unfold indexTranslationUnit at h
  rw [turn.enter_of_clean hbefore] at h
  split at h
  · rename_i hskipped
    cases h
    exact isolated_leave hbefore fun hsucceeds => hsucceeds.1 hskipped
  rename_i hwanted
  split at h
  · rename_i hcurrent
    cases h
    apply isolated_leave hbefore
    intro hsucceeds
    rw [hsucceeds.2.1] at hcurrent
    contradiction
  rename_i hneeded
  split at h
  · rename_i hnone
    cases h
    apply isolated_leave hbefore
    intro hsucceeds
    rw [hsucceeds.2.2.1] at hnone
    contradiction
  rename_i hbuilt
  simp only at h
  split at h
  · rename_i hcrash
    cases h
    apply isolated_leave hbefore
    intro hsucceeds
    rw [hsucceeds.2.2.2] at hcrash
    contradiction
  · rename_i hfailed
    cases h
    apply isolated_leave hbefore
    intro hsucceeds
    rw [hsucceeds.2.2.2] at hfailed
    contradiction
  · rename_i numErrors hdone
    split at h
    · rename_i herrors
      cases h
      apply isolated_leave hbefore
      intro hsucceeds
      rw [hsucceeds.2.2.2, ParseOutcome.done.injEq] at hdone
      omega
    · rename_i herrors
      obtain ⟨⟨stmts, sent⟩, hsent, hvisit⟩ := Option.map_eq_some_iff.mp h
      have hlimit := ParseTask.limit_of_sendIndexedResult hsent
      obtain ⟨-, defGroups, callGroups, hdefs, hcalls, hstmts⟩ :=
        ParseTask.sendIndexedResult_eq_some hsent
      cases hvisit
      constructor
      · exact hbefore
      · exact UnitTask.clean_clear _
      · intro _
        refine ⟨⟨turn.unit, defGroups, callGroups⟩, rfl, turn.unit_current.1,
          turn.unit_current.2, ⟨hlimit, hdefs, hcalls⟩, ?_⟩
        rw [hstmts]
        rfl
      · intro hfails
        rw [Bool.not_eq_true, Bool.not_eq_false'] at hneeded hbuilt
        exact absurd ⟨hwanted, hneeded, hbuilt, hdone.trans (by
          rw [Nat.eq_zero_of_not_pos herrors])⟩ hfails

theorem indexTranslationUnit_converges (names : TableNames)
    (debugSingleFile : String) (hlimit : batchLimit batchSize ≠ 0)
    (before : UnitTask) (turn : Turn project) :
    ∃ visit, Converges (fun fuel => indexTranslationUnit names batchSize
      debugSingleFile fuel before turn) visit := by
  unfold indexTranslationUnit
  split
  · exact ⟨_, .of_const fun _ => rfl⟩
  split
  · exact ⟨_, .of_const fun _ => rfl⟩
  split
  · exact ⟨_, .of_const fun _ => rfl⟩
  simp only
  split
  · exact ⟨_, .of_const fun _ => rfl⟩
  · exact ⟨_, .of_const fun _ => rfl⟩
  · split
    · exact ⟨_, .of_const fun _ => rfl⟩
    · obtain ⟨_, _, hdefs, hcalls⟩ := ParseTask.exists_cuts (.inl hlimit)
      have hsent := ParseTask.sendIndexedResult_of_cut names (.inl hlimit)
        hdefs hcalls
      exact ⟨_, hsent.map _⟩

/-! ## Any number of units -/

theorem indexTranslationUnits_isolated {fuel : Nat} {task : UnitTask}
    {turns : List (Turn project)} {visits : List Visit} (hclean : task.Clean)
    (h : indexTranslationUnits names batchSize debugSingleFile fuel task
      turns = some visits) :
    List.Forall₂ (Isolated names batchSize debugSingleFile) turns visits := by
  induction turns generalizing task visits with
  | nil =>
      cases h
      exact .nil
  | cons turn turns ih =>
      obtain ⟨visit, hvisit, hrest⟩ := Option.bind_eq_some_iff.mp h
      obtain ⟨others, hothers, rfl⟩ := Option.map_eq_some_iff.mp hrest
      have hisolated := indexTranslationUnit_isolated hclean hvisit
      exact .cons hisolated (ih hisolated.after hothers)

theorem indexTranslationUnits_converges (names : TableNames)
    (debugSingleFile : String) (hlimit : batchLimit batchSize ≠ 0)
    (task : UnitTask) (turns : List (Turn project)) :
    ∃ visits, Converges (fun fuel => indexTranslationUnits names batchSize
      debugSingleFile fuel task turns) visits := by
  induction turns generalizing task with
  | nil => exact ⟨[], .of_const fun _ => rfl⟩
  | cons turn turns ih =>
      obtain ⟨visit, hvisit⟩ := indexTranslationUnit_converges names
        debugSingleFile hlimit task turn
      obtain ⟨rest, hrest⟩ := ih visit.after
      exact ⟨visit :: rest, hvisit.bind (hrest.map (visit :: ·))⟩

/--
Whatever becomes of the units before, a unit starts without symbols, and what
it sends is its own batch or nothing.  A visit returns unless a batch size of
zero meets a symbol.
-/
theorem translationUnits_isolated (names : TableNames) (batchSize : Int)
    (debugSingleFile : String) (turns : List (Turn project)) :
    (∀ fuel visits, indexTranslationUnits names batchSize debugSingleFile fuel
        .new turns = some visits →
      List.Forall₂ (Isolated names batchSize debugSingleFile) turns visits) ∧
    (batchLimit batchSize ≠ 0 → ∃ visits, Converges (fun fuel =>
      indexTranslationUnits names batchSize debugSingleFile fuel .new turns)
      visits) :=
  ⟨fun _ _ h => indexTranslationUnits_isolated UnitTask.clean_new h,
    fun hlimit => indexTranslationUnits_converges names debugSingleFile hlimit
      .new turns⟩

def crashingProject : Project :=
  ⟨"/p/", [⟨"/p", "/p/a.cc", ["c++", "a.cc"]⟩,
    ⟨"/p", "/p/b.cc", ["c++", "b.cc"]⟩], id⟩

def crashingNames : TableNames := ⟨"f_1", "d_1", "c_1"⟩

def crashingTurn (idx : Fin 2) : Turn crashingProject where
  idx := idx
  rows := []
  check := ⟨true, true, 50, .noInstance⟩
  filepathId := idx + 1
  time := 100
  built := true
  events := [.handleFunc false true "c:@F@f" "f" false none
    ⟨idx + 1, crashingProject.commands[idx].filename, 8, 7⟩]
  outcome := if idx = 0 then .crash else .done 0

theorem translationUnits_isolated_crash :
    ∃ visits, (indexTranslationUnits crashingNames 64 "" 3 .new
        [crashingTurn 0, crashingTurn 1]) = some visits ∧
      visits.map (fun visit => visit.enqueued) =
        [[], [[(Statement.insertFuncDefs 100
            [⟨2, ⟨"c:@F@f", "f", false, ⟨2, 8⟩⟩⟩]).text crashingNames,
          (Statement.replaceFilepath 2 "b.cc" 100).text crashingNames]]] ∧
      List.Forall₂ (Isolated crashingNames 64 "")
        [crashingTurn 0, crashingTurn 1] visits := by
  have hrun : (indexTranslationUnits crashingNames 64 "" 3 .new
      [crashingTurn 0, crashingTurn 1]).map
        (fun visits => visits.map fun visit => visit.enqueued) =
      some [[], [[(Statement.insertFuncDefs 100
            [⟨2, ⟨"c:@F@f", "f", false, ⟨2, 8⟩⟩⟩]).text crashingNames,
        (Statement.replaceFilepath 2 "b.cc" 100).text crashingNames]]] := by
    decide +kernel
  obtain ⟨visits, hvisits, henqueued⟩ := Option.map_eq_some_iff.mp hrun
  exact ⟨visits, hvisits, henqueued,
    (translationUnits_isolated _ _ _ _).1 3 visits hvisits⟩

end Pview.Pipeline
