import Pview.Pipeline.UnitIsolation

/-!
# Callers of recorded calls

The two callbacks know different things about a call.  `handle_func` is given
the declaration context of an occurrence and looks for a function there;
`MacroExpands` is given no context, and the calls it records have no caller.
The generator of the insert statement skips every call without a caller.

An event below carries the declaration contexts that it lies in, innermost
first, whether the callback is given them or not.
-/

namespace Pview.Indexer

inductive DeclKind where
  | function
  | cxxMethod
  | cxxConstructor
  | cxxDestructor
  | cxxConversion
  | anonymousNamespace
  | other
  deriving DecidableEq, Repr

structure DeclContext where
  kind : DeclKind
  usr : String
  funcMightThrow : Bool
  deriving DecidableEq, Repr

def isDeclNormalFunction (d : DeclContext) : Bool :=
  d.kind = .function

def isDeclCxxMethod (d : DeclContext) : Bool :=
  d.kind = .cxxMethod || d.kind = .cxxConstructor ||
    d.kind = .cxxDestructor || d.kind = .cxxConversion

def isFunction (d : DeclContext) : Bool :=
  isDeclCxxMethod d || isDeclNormalFunction d

/-- The caller that `handle_func` finds for a call in these contexts. -/
def callerInfo : List DeclContext → Option (String × Bool)
  | [] => none
  | lexDc :: outer =>
      if lexDc.kind = .anonymousNamespace then callerInfo outer
      else if isFunction lexDc then some (lexDc.usr, lexDc.funcMightThrow)
      else none

/-- The callbacks for symbols, with the contexts of what they report. -/
inductive IndexEvent where
  | handleFunc (isDecl isDef : Bool) (usr qualified : String)
      (funcMightThrow : Bool) (contexts : List DeclContext)
      (occurrence : Occurrence)
  | macroExpands (isBuiltin : Bool) (name : String) (funcMightThrow : Bool)
      (contexts : List DeclContext) (occurrence : Occurrence)
  | macroDefined (isBuiltin : Bool) (name : String) (funcMightThrow : Bool)
      (occurrence : Occurrence)
  deriving DecidableEq, Repr

namespace IndexEvent

def toEvent : IndexEvent → Event
  | handleFunc isDecl isDef usr qualified funcMightThrow contexts occurrence =>
      .handleFunc isDecl isDef usr qualified funcMightThrow
        (callerInfo contexts) occurrence
  | macroExpands isBuiltin name funcMightThrow _ occurrence =>
      .macroExpands isBuiltin name funcMightThrow occurrence
  | macroDefined isBuiltin name funcMightThrow occurrence =>
      .macroDefined isBuiltin name funcMightThrow occurrence

def call : IndexEvent → Option Occurrence
  | handleFunc false false _ _ _ _ occurrence
  | macroExpands _ _ _ _ occurrence => some occurrence
  | _ => none

/-- The id drawn for a call, which builtin macros do not get. -/
def callId : IndexEvent → Option Nat
  | handleFunc false false _ _ _ _ occurrence
  | macroExpands false _ _ _ occurrence => some occurrence.newId
  | _ => none

def enclosing : IndexEvent → Option String
  | handleFunc _ _ _ _ _ contexts _ | macroExpands _ _ _ contexts _ =>
      (contexts.find? isFunction).map DeclContext.usr
  | macroDefined _ _ _ _ => none

/-- Reported by `handle_func`, and with a function as the context that is not
an anonymous namespace. -/
def hasCaller : IndexEvent → Bool
  | handleFunc _ _ _ _ _ contexts _ => (callerInfo contexts).isSome
  | _ => false

end IndexEvent

def UnitTask.callOf (projectRoot : String) (task : UnitTask) :
    IndexEvent → Option FuncCall
  | .handleFunc false false usr qualified funcMightThrow contexts occurrence =>
      let (callerUsr, callerMightThrow) :=
        (callerInfo contexts).getD ("", false)
      some ⟨occurrence.newId, task.genDeclInfo projectRoot usr qualified
        funcMightThrow occurrence, callerUsr, callerMightThrow⟩
  | .macroExpands false name funcMightThrow _ occurrence =>
      let usr := "@macro@" ++ name
      some ⟨occurrence.newId, task.genDeclInfo projectRoot usr usr
        funcMightThrow occurrence, "", false⟩
  | _ => none

/-! ## The calls of a unit -/

theorem callerInfo_eq_find? {contexts : List DeclContext}
    {caller : String × Bool} (h : callerInfo contexts = some caller) :
    (contexts.find? isFunction).map DeclContext.usr = some caller.1 := by
  induction contexts with
  | nil => contradiction
  | cons d contexts ih =>
      rw [callerInfo] at h
      split at h
      · rename_i hnamespace
        have hnot : ¬isFunction d := by
          simp [isFunction, isDeclCxxMethod, isDeclNormalFunction, hnamespace]
        rw [List.find?_cons_of_neg hnot]
        exact ih h
      · simp only [Option.ite_none_right_eq_some, Option.some.injEq] at h
        rw [List.find?_cons_of_pos h.1, ← h.2]
        rfl

namespace UnitTask

variable (projectRoot : String)

theorem genSourceLocation_of_current {task task' : UnitTask}
    (h : task'.current = task.current) (occurrence : Occurrence) :
    task'.genSourceLocation projectRoot occurrence =
      task.genSourceLocation projectRoot occurrence := by
  simp only [current, Prod.mk.injEq] at h
  simp only [genSourceLocation, h.2.1, h.2.2]

theorem callOf_of_current {task task' : UnitTask}
    (h : task'.current = task.current) (event : IndexEvent) :
    task'.callOf projectRoot event = task.callOf projectRoot event := by
  unfold callOf genDeclInfo
  simp only [genSourceLocation_of_current projectRoot h]

theorem funcCalls_handle (task : UnitTask) (event : IndexEvent) :
    (task.handle projectRoot event.toEvent).funcCalls =
      task.funcCalls ++ (task.callOf projectRoot event).toList := by
  cases event with
  | handleFunc isDecl isDef =>
      cases isDecl <;> cases isDef <;>
        simp [IndexEvent.toEvent, handle, callOf, addFuncDef, addFuncCall]
  | macroExpands isBuiltin =>
      cases isBuiltin <;>
        simp [IndexEvent.toEvent, handle, callOf, addFuncCall]
  | macroDefined isBuiltin =>
      cases isBuiltin <;>
        simp [IndexEvent.toEvent, handle, callOf, addFuncDef]

theorem funcCalls_foldl_handle (task : UnitTask) (events : List IndexEvent) :
    ((events.map IndexEvent.toEvent).foldl (handle projectRoot)
        task).funcCalls =
      task.funcCalls ++ events.filterMap (task.callOf projectRoot) := by
  induction events generalizing task with
  | nil => simp
  | cons event events ih =>
      have hcurrent := current_handle projectRoot task event.toEvent
      have hcalls : events.filterMap ((task.handle projectRoot
          event.toEvent).callOf projectRoot) =
          events.filterMap (task.callOf projectRoot) :=
        List.filterMap_congr fun event _ =>
          callOf_of_current projectRoot hcurrent event
      rw [List.map_cons, List.foldl_cons, ih, funcCalls_handle, hcalls]
      cases hcall : task.callOf projectRoot event <;>
        simp [hcall]

theorem id_callOf (task : UnitTask) (event : IndexEvent) :
    (task.callOf projectRoot event).map FuncCall.id = event.callId := by
  cases event with
  | handleFunc isDecl isDef => cases isDecl <;> cases isDef <;> rfl
  | macroExpands isBuiltin => cases isBuiltin <;> rfl
  | macroDefined => rfl

theorem callOf_skipped_iff {task : UnitTask} {event : IndexEvent}
    {occurrence : Occurrence} {call : FuncCall} {caller : String}
    (hoccurrence : event.call = some occurrence)
    (hcall : task.callOf projectRoot event = some call)
    (henclosing : event.enclosing = some caller) (hcaller : caller ≠ "") :
    call.skipped = false ∧ call.callerUsr = caller ↔
      event.hasCaller = true ∧
        0 ≤ (task.genSourceLocation projectRoot occurrence).fileId := by
  cases event with
  | handleFunc isDecl isDef usr qualified might contexts occurrence' =>
      cases isDecl <;> cases isDef <;> try contradiction
      cases hoccurrence
      simp only [callOf, Option.some.injEq] at hcall
      cases hinfo : callerInfo contexts with
      | none =>
          simp only [hinfo] at hcall
          simp [← hcall, FuncCall.skipped, IndexEvent.hasCaller, hinfo]
      | some info =>
          have hsame : info.1 = caller := by
            have hfind := callerInfo_eq_find? hinfo
            exact Option.some.inj (hfind.symm.trans henclosing)
          simp only [hinfo] at hcall
          simp [← hcall, FuncCall.skipped, IndexEvent.hasCaller, hinfo, hsame,
            hcaller, genDeclInfo]
  | macroExpands isBuiltin name might contexts occurrence' =>
      cases isBuiltin <;> try contradiction
      simp only [callOf, Option.some.injEq] at hcall
      simp [← hcall, FuncCall.skipped, IndexEvent.hasCaller]
  | macroDefined => contradiction

theorem exists_callOf (task : UnitTask) {event : IndexEvent}
    {occurrence : Occurrence} (hoccurrence : event.call = some occurrence)
    (hcaller : event.hasCaller = true) :
    ∃ call, task.callOf projectRoot event = some call := by
  cases event with
  | handleFunc isDecl isDef =>
      cases isDecl <;> cases isDef <;> try contradiction
      exact ⟨_, rfl⟩
  | macroExpands | macroDefined => contradiction

end UnitTask

end Pview.Indexer

namespace Pview.Pipeline

open Pview.Indexer

variable {project : Project}

/-- The visit of a unit together with the events that led to its callbacks. -/
structure ReportedUnit (project : Project) where
  turn : Turn project
  events : List IndexEvent
  reported : turn.events = events.map IndexEvent.toEvent

/-- The ids are drawn from a counter. -/
structure IndexedUnit (project : Project) extends ReportedUnit project where
  callIds : (events.filterMap IndexEvent.callId).Nodup

def funcCallRows : Statement → List FuncCall
  | .insertFuncCalls _ rows => rows
  | _ => []

/-- Exactly one row is written for the event, with this caller. -/
def Recorded (rows : List FuncCall) (event : IndexEvent) (caller : String) :
    Prop :=
  ∃ row, rows.filter (fun row => event.callId = some row.id) = [row] ∧
    row.callerUsr = caller

def HasFileId (turn : Turn project) (occurrence : Occurrence) : Prop :=
  0 ≤ ((turn.enter .new).genSourceLocation project.root occurrence).fileId

theorem funcCallRows_stmts {batch : Batch project} {limit : Nat}
    (hcut : batch.Cut limit) :
    batch.stmts.flatMap funcCallRows =
      batch.unit.task.funcCalls.filter fun d => !d.skipped := by
  rw [← hcut.2.2.flatten, batch.stmts_eq, List.flatMap_append, Batch.symbols,
    List.flatMap_append, Batch.marker]
  simp [List.flatMap_map, funcCallRows, List.flatMap_id']

theorem filter_eq_singleton {β γ : Type*} [DecidableEq γ] {f : β → γ}
    {l : List β} (h : (l.map f).Nodup) {x : β} (hx : x ∈ l) :
    l.filter (fun y => f x = f y) = [x] := by
  induction l with
  | nil => contradiction
  | cons y l ih =>
      obtain ⟨hfresh, hl⟩ := List.nodup_cons.mp h
      rcases List.mem_cons.mp hx with rfl | hx
      · have hrest : l.filter (fun y => f x = f y) = [] := by
          rw [List.filter_eq_nil_iff]
          intro y hy
          have hne : f y ≠ f x := fun heq =>
            hfresh (heq ▸ List.mem_map_of_mem hy)
          simpa using hne.symm
        rw [List.filter_cons_of_pos (by simp), hrest]
      · have hne : f x ≠ f y := fun heq =>
          hfresh (heq ▸ List.mem_map_of_mem hx)
        rw [List.filter_cons_of_neg (by simpa using hne), ih hl hx]

theorem funcCalls_unit (unit : ReportedUnit project) :
    unit.turn.unit.task.funcCalls = unit.events.filterMap
      ((unit.turn.enter .new).callOf project.root) := by
  have hcalls := UnitTask.funcCalls_foldl_handle project.root
    (unit.turn.enter .new) unit.events
  rwa [← unit.reported] at hcalls

theorem recorded_iff (unit : IndexedUnit project) {event : IndexEvent}
    (hevent : event ∈ unit.events) (caller : String) :
    Recorded (unit.turn.unit.task.funcCalls.filter fun d => !d.skipped)
        event caller ↔
      ∃ call, (unit.turn.enter .new).callOf project.root event = some call ∧
        call.skipped = false ∧ call.callerUsr = caller := by
  have hid := UnitTask.id_callOf project.root (unit.turn.enter .new)
  rw [funcCalls_unit, Recorded]
  cases hcall : (unit.turn.enter .new).callOf project.root event with
  | none =>
      have hnone : event.callId = none := by rw [← hid, hcall]; rfl
      simp [hnone]
  | some call =>
      have hsome : event.callId = some call.id := by rw [← hid, hcall]; rfl
      have hids : ((unit.events.filterMap
          ((unit.turn.enter .new).callOf project.root)).map
            FuncCall.id).Nodup := by
        rw [List.map_filterMap]
        simpa only [hid] using unit.callIds
      have hrows := filter_eq_singleton hids
        (List.mem_filterMap.mpr ⟨event, hevent, hcall⟩)
      simp only [hsome, Option.some.injEq, exists_eq_left']
      rw [List.filter_comm, hrows]
      cases hskipped : call.skipped with
      | true => simp [hskipped]
      | false => simp [hskipped]

structure SentBatch (names : TableNames) (batchSize : Int)
    (unit : IndexedUnit project) (visit : Visit) (batch : Batch project) :
    Prop where
  unit : batch.unit = unit.turn.unit
  cut : batch.Cut (batchLimit batchSize)
  enqueued : visit.enqueued = [batch.stmts.map (Statement.text names)]

theorem exists_sentBatch {names : TableNames} {batchSize : Int}
    {debugSingleFile : String} {fuel : Nat} {before : UnitTask}
    {visit : Visit} {unit : IndexedUnit project} (hbefore : before.Clean)
    (hsucceeds : unit.turn.Succeeds debugSingleFile)
    (hvisit : indexTranslationUnit names batchSize debugSingleFile fuel before
      unit.turn = some visit) :
    ∃ batch, SentBatch names batchSize unit visit batch := by
  obtain ⟨batch, hunit, -, -, hcut, henqueued⟩ :=
    (indexTranslationUnit_isolated hbefore hvisit).sent hsucceeds
  exact ⟨batch, hunit, hcut, henqueued⟩

theorem SentBatch.recorded_iff {names : TableNames} {batchSize : Int}
    {unit : IndexedUnit project} {visit : Visit} {batch : Batch project}
    (h : SentBatch names batchSize unit visit batch) {event : IndexEvent}
    {occurrence : Occurrence} {caller : String} (hevent : event ∈ unit.events)
    (hoccurrence : event.call = some occurrence)
    (henclosing : event.enclosing = some caller) (hcaller : caller ≠ "") :
    Recorded (batch.stmts.flatMap funcCallRows) event caller ↔
      event.hasCaller = true ∧ HasFileId unit.turn occurrence := by
  rw [funcCallRows_stmts h.cut, h.unit, Pipeline.recorded_iff unit hevent]
  constructor
  · rintro ⟨call, hcall, hwritten⟩
    exact (UnitTask.callOf_skipped_iff project.root hoccurrence hcall
      henclosing hcaller).mp hwritten
  · rintro ⟨hhasCaller, hid⟩
    obtain ⟨call, hcall⟩ := UnitTask.exists_callOf project.root
      (unit.turn.enter .new) hoccurrence hhasCaller
    exact ⟨call, hcall, (UnitTask.callOf_skipped_iff project.root hoccurrence
      hcall henclosing hcaller).mpr ⟨hhasCaller, hid⟩⟩

/-- A call in the body of a function is written with that function as its
caller, unless it expands a macro, its innermost context is not the function
itself, or its file has no id. -/
theorem calls_recorded_iff (names : TableNames) (batchSize : Int)
    (debugSingleFile : String) {fuel : Nat} {before : UnitTask}
    {visit : Visit} (unit : IndexedUnit project) (hbefore : before.Clean)
    (hsucceeds : unit.turn.Succeeds debugSingleFile)
    (hvisit : indexTranslationUnit names batchSize debugSingleFile fuel before
      unit.turn = some visit) :
    ∃ batch, SentBatch names batchSize unit visit batch ∧
      ∀ event ∈ unit.events, ∀ occurrence caller,
        event.call = some occurrence → event.enclosing = some caller →
        caller ≠ "" →
        (Recorded (batch.stmts.flatMap funcCallRows) event caller ↔
          event.hasCaller = true ∧ HasFileId unit.turn occurrence) := by
  obtain ⟨batch, hbatch⟩ := exists_sentBatch hbefore hsucceeds hvisit
  exact ⟨batch, hbatch, fun _ hevent _ _ hoccurrence henclosing hcaller =>
    hbatch.recorded_iff hevent hoccurrence henclosing hcaller⟩

/-- `main` calls `f`, and then expands `LOG`. -/
def loggingEvents : List IndexEvent :=
  [.handleFunc false false "c:@F@f" "f" false
      [⟨.function, "c:@F@main", false⟩] ⟨1, "/p/a.cc", 8, 1⟩,
    .macroExpands false "LOG" false [⟨.function, "c:@F@main", false⟩]
      ⟨2, "/p/a.cc", 9, 1⟩]

private theorem loggingEvents_callIds :
    (loggingEvents.filterMap IndexEvent.callId).Nodup := by decide

private def loggingTurn : Turn crashingProject :=
  { crashingTurn (Fin.last 1) with
    events := loggingEvents.map IndexEvent.toEvent }

private theorem loggingTurn_events :
    loggingTurn.events = loggingEvents.map IndexEvent.toEvent := rfl

def loggingUnit : IndexedUnit crashingProject where
  turn := loggingTurn
  events := loggingEvents
  reported := loggingTurn_events
  callIds := loggingEvents_callIds

private theorem loggingUnit_visited :
    loggingUnit.turn.Succeeds "" ∧ ∃ visit, indexTranslationUnit crashingNames
      64 "" 4 .new loggingUnit.turn = some visit := by
  have hrun : (indexTranslationUnit crashingNames 64 "" 4 .new
      loggingUnit.turn).isSome = true := by
    decide +kernel
  exact ⟨⟨by decide, by decide, rfl, rfl⟩, Option.isSome_iff_exists.mp hrun⟩

theorem calls_recorded_iff_logging : ∃ visit batch,
    SentBatch crashingNames 64 loggingUnit visit batch ∧
      ∀ event ∈ loggingEvents, ∀ occurrence caller,
        event.call = some occurrence → event.enclosing = some caller →
        caller ≠ "" →
        (Recorded (batch.stmts.flatMap funcCallRows) event caller ↔
          event.hasCaller = true ∧ HasFileId loggingUnit.turn occurrence) := by
  obtain ⟨hsucceeds, visit, hvisit⟩ := loggingUnit_visited
  obtain ⟨batch, hbatch⟩ := calls_recorded_iff crashingNames 64 "" loggingUnit
    UnitTask.clean_new hsucceeds hvisit
  exact ⟨visit, batch, hbatch⟩

/-- The expansion of `LOG` leaves no row. -/
theorem macro_call_not_recorded :
    ¬∀ (unit : IndexedUnit crashingProject) (visit : Visit)
      (batch : Batch crashingProject), unit.turn.Succeeds "" →
      indexTranslationUnit crashingNames 64 "" 4 .new unit.turn = some visit →
      SentBatch crashingNames 64 unit visit batch →
      ∀ event ∈ unit.events, ∀ occurrence caller,
        event.call = some occurrence → event.enclosing = some caller →
        caller ≠ "" → HasFileId unit.turn occurrence →
        Recorded (batch.stmts.flatMap funcCallRows) event caller := by
  intro hall
  obtain ⟨hsucceeds, visit, hvisit⟩ := loggingUnit_visited
  obtain ⟨batch, hbatch⟩ :=
    exists_sentBatch UnitTask.clean_new hsucceeds hvisit
  have hmem : loggingEvents[1] ∈ loggingUnit.events := by decide
  have hid : HasFileId loggingUnit.turn ⟨2, "/p/a.cc", 9, 1⟩ := by
    unfold HasFileId
    decide
  have hrecorded := hall loggingUnit visit batch hsucceeds hvisit hbatch _
    hmem ⟨2, "/p/a.cc", 9, 1⟩ "c:@F@main" rfl rfl (by decide) hid
  have hcaller := ((hbatch.recorded_iff hmem rfl rfl (by decide)).mp
    hrecorded).1
  exact absurd hcaller (by decide)

end Pview.Pipeline
