import Pview.Pipeline.CallEvents
import Pview.Pipeline.Confluence

/-!
# What a unit defines and calls

The definitions and the calls that a successful indexing writes, in terms of
what clang reported: a definition needs a name and a file with an id, a call a
caller that `handle_func` finds.
-/

namespace Pview.Indexer

namespace IndexEvent

def definition : IndexEvent → Option (String × String × Occurrence)
  | handleFunc _ true usr qualified _ _ occurrence =>
      some (usr, qualified, occurrence)
  | macroDefined false name _ occurrence =>
      some ("@macro@" ++ name, "@macro@" ++ name, occurrence)
  | _ => none

def calling : IndexEvent → Option (String × String × String × Occurrence)
  | handleFunc false false usr qualified _ contexts occurrence =>
      (callerInfo contexts).map fun caller =>
        (caller.1, usr, qualified, occurrence)
  | _ => none

end IndexEvent

theorem FuncDef.not_skipped_iff {d : FuncDef} :
    d.skipped = false ↔ d.info.usr ≠ "" ∧ d.info.qualified ≠ "" ∧
      0 ≤ d.info.sourceLocation.fileId := by
  simp [FuncDef.skipped, and_assoc]

theorem FuncCall.not_skipped_iff {d : FuncCall} :
    d.skipped = false ↔
      d.callerUsr ≠ "" ∧ 0 ≤ d.info.sourceLocation.fileId := by
  simp [FuncCall.skipped]

def UnitTask.defOf (projectRoot : String) (task : UnitTask) :
    IndexEvent → Option FuncDef
  | .handleFunc _ true usr qualified funcMightThrow _ occurrence =>
      some ⟨occurrence.newId, task.genDeclInfo projectRoot usr qualified
        funcMightThrow occurrence⟩
  | .macroDefined false name funcMightThrow occurrence =>
      let usr := "@macro@" ++ name
      some ⟨occurrence.newId, task.genDeclInfo projectRoot usr usr
        funcMightThrow occurrence⟩
  | _ => none

namespace UnitTask

variable (projectRoot : String)

theorem defOf_of_current {task task' : UnitTask}
    (h : task'.current = task.current) (event : IndexEvent) :
    task'.defOf projectRoot event = task.defOf projectRoot event := by
  unfold defOf genDeclInfo
  simp only [genSourceLocation_of_current projectRoot h]

theorem funcDefs_handle (task : UnitTask) (event : IndexEvent) :
    (task.handle projectRoot event.toEvent).funcDefs =
      task.funcDefs ++ (task.defOf projectRoot event).toList := by
  cases event with
  | handleFunc isDecl isDef =>
      cases isDecl <;> cases isDef <;>
        simp [IndexEvent.toEvent, handle, defOf, addFuncDef, addFuncCall]
  | macroExpands isBuiltin =>
      cases isBuiltin <;>
        simp [IndexEvent.toEvent, handle, defOf, addFuncCall]
  | macroDefined isBuiltin =>
      cases isBuiltin <;>
        simp [IndexEvent.toEvent, handle, defOf, addFuncDef]

theorem funcDefs_foldl_handle (task : UnitTask) (events : List IndexEvent) :
    ((events.map IndexEvent.toEvent).foldl (handle projectRoot)
        task).funcDefs =
      task.funcDefs ++ events.filterMap (task.defOf projectRoot) := by
  induction events generalizing task with
  | nil => simp
  | cons event events ih =>
      have hcurrent := current_handle projectRoot task event.toEvent
      have hdefs : events.filterMap ((task.handle projectRoot
          event.toEvent).defOf projectRoot) =
          events.filterMap (task.defOf projectRoot) :=
        List.filterMap_congr fun event _ =>
          defOf_of_current projectRoot hcurrent event
      rw [List.map_cons, List.foldl_cons, ih, funcDefs_handle, hdefs]
      cases hdef : task.defOf projectRoot event <;>
        simp [hdef]

theorem exists_defOf_iff (task : UnitTask) (event : IndexEvent)
    (usr qualified : String) :
    (∃ d, task.defOf projectRoot event = some d ∧ d.skipped = false ∧
      d.info.usr = usr ∧ d.info.qualified = qualified) ↔
      usr ≠ "" ∧ qualified ≠ "" ∧ ∃ occurrence,
        event.definition = some (usr, qualified, occurrence) ∧
          0 ≤ (task.genSourceLocation projectRoot occurrence).fileId := by
  have hwritten : ∀ (id : Nat) (usr' qualified' : String) (might : Bool)
      (occurrence' : Occurrence),
      (∃ d, some (⟨id, task.genDeclInfo projectRoot usr' qualified' might
          occurrence'⟩ : FuncDef) = some d ∧ d.skipped = false ∧
        d.info.usr = usr ∧ d.info.qualified = qualified) ↔
      usr ≠ "" ∧ qualified ≠ "" ∧ ∃ occurrence,
        some (usr', qualified', occurrence') =
          some (usr, qualified, occurrence) ∧
          0 ≤ (task.genSourceLocation projectRoot occurrence).fileId := by
    intro id usr' qualified' might occurrence'
    constructor
    · rintro ⟨d, hd, hskipped, rfl, rfl⟩
      cases hd
      rw [FuncDef.not_skipped_iff] at hskipped
      exact ⟨hskipped.1, hskipped.2.1, occurrence', rfl, hskipped.2.2⟩
    · rintro ⟨husr, hqualified, occurrence, hsame, hid⟩
      cases hsame
      exact ⟨_, rfl, FuncDef.not_skipped_iff.mpr ⟨husr, hqualified, hid⟩, rfl,
        rfl⟩
  cases event with
  | handleFunc isDecl isDef usr' qualified' might contexts occurrence' =>
      cases isDef with
      | true => exact hwritten _ usr' qualified' might occurrence'
      | false => cases isDecl <;> simp [defOf, IndexEvent.definition]
  | macroDefined isBuiltin name might occurrence' =>
      cases isBuiltin with
      | true => simp [defOf, IndexEvent.definition]
      | false => exact hwritten _ _ _ might occurrence'
  | macroExpands => simp [defOf, IndexEvent.definition]

theorem exists_callOf_iff (task : UnitTask) (event : IndexEvent)
    (callerUsr usr qualified : String) :
    (∃ d, task.callOf projectRoot event = some d ∧ d.skipped = false ∧
      d.callerUsr = callerUsr ∧ d.info.usr = usr ∧
        d.info.qualified = qualified) ↔
      callerUsr ≠ "" ∧ ∃ occurrence,
        event.calling = some (callerUsr, usr, qualified, occurrence) ∧
          0 ≤ (task.genSourceLocation projectRoot occurrence).fileId := by
  cases event with
  | handleFunc isDecl isDef usr' qualified' might contexts occurrence' =>
      cases isDecl <;> cases isDef <;>
        simp only [callOf, IndexEvent.calling, reduceCtorEq, false_and,
          and_false, exists_false, Option.some.injEq, exists_eq_left',
          FuncCall.not_skipped_iff]
      cases hinfo : callerInfo contexts with
      | none => simp
      | some caller =>
          simp only [Option.getD_some, Option.map_some, Option.some.injEq,
            Prod.mk.injEq, genDeclInfo]
          constructor
          · rintro ⟨⟨hcaller, hid⟩, rfl, rfl, rfl⟩
            exact ⟨hcaller, occurrence', ⟨rfl, rfl, rfl, rfl⟩, hid⟩
          · rintro ⟨hcaller, _, ⟨rfl, rfl, rfl, rfl⟩, hid⟩
            exact ⟨⟨hcaller, hid⟩, rfl, rfl, rfl⟩
  | macroDefined => simp [callOf, IndexEvent.calling]
  | macroExpands isBuiltin =>
      cases isBuiltin <;>
        simp [callOf, IndexEvent.calling, FuncCall.not_skipped_iff]

end UnitTask

end Pview.Indexer

namespace Pview.Pipeline

open Pview.Foundation
open Pview.Indexer
open Pview.MySQL
open Pview.Query

variable {project : Project}

namespace ReportedUnit

/-- The unit has a definition that is written: named, and in a file with an
id. -/
def Defines (unit : ReportedUnit project) (usr qualified : String) : Prop :=
  usr ≠ "" ∧ qualified ≠ "" ∧ ∃ event ∈ unit.events, ∃ occurrence,
    event.definition = some (usr, qualified, occurrence) ∧
      HasFileId unit.turn occurrence

def Calls (unit : ReportedUnit project) (callerUsr usr qualified : String) :
    Prop :=
  callerUsr ≠ "" ∧ ∃ event ∈ unit.events, ∃ occurrence,
    event.calling = some (callerUsr, usr, qualified, occurrence) ∧
      HasFileId unit.turn occurrence

theorem funcDefs_unit (unit : ReportedUnit project) :
    unit.turn.unit.task.funcDefs = unit.events.filterMap
      ((unit.turn.enter .new).defOf project.root) := by
  have hdefs := UnitTask.funcDefs_foldl_handle project.root
    (unit.turn.enter .new) unit.events
  rwa [← unit.reported] at hdefs

theorem exists_funcDef_iff (unit : ReportedUnit project)
    (usr qualified : String) :
    (∃ d ∈ unit.turn.unit.task.funcDefs, d.skipped = false ∧
      d.info.usr = usr ∧ d.info.qualified = qualified) ↔
      unit.Defines usr qualified := by
  rw [funcDefs_unit]
  constructor
  · rintro ⟨d, hd, hwritten⟩
    obtain ⟨event, hevent, hdef⟩ := List.mem_filterMap.mp hd
    obtain ⟨husr, hqualified, occurrence, hoccurs⟩ :=
      (UnitTask.exists_defOf_iff project.root _ event usr qualified).mp
        ⟨d, hdef, hwritten⟩
    exact ⟨husr, hqualified, event, hevent, occurrence, hoccurs⟩
  · rintro ⟨husr, hqualified, event, hevent, occurrence, hoccurs⟩
    obtain ⟨d, hdef, hwritten⟩ :=
      (UnitTask.exists_defOf_iff project.root _ event usr qualified).mpr
        ⟨husr, hqualified, occurrence, hoccurs⟩
    exact ⟨d, List.mem_filterMap.mpr ⟨event, hevent, hdef⟩, hwritten⟩

theorem exists_funcCall_iff (unit : ReportedUnit project)
    (callerUsr usr qualified : String) :
    (∃ d ∈ unit.turn.unit.task.funcCalls, d.skipped = false ∧
      d.callerUsr = callerUsr ∧ d.info.usr = usr ∧
        d.info.qualified = qualified) ↔
      unit.Calls callerUsr usr qualified := by
  rw [funcCalls_unit]
  constructor
  · rintro ⟨d, hd, hwritten⟩
    obtain ⟨event, hevent, hcall⟩ := List.mem_filterMap.mp hd
    obtain ⟨hcaller, occurrence, hoccurs⟩ :=
      (UnitTask.exists_callOf_iff project.root _ event callerUsr usr
        qualified).mp ⟨d, hcall, hwritten⟩
    exact ⟨hcaller, event, hevent, occurrence, hoccurs⟩
  · rintro ⟨hcaller, event, hevent, occurrence, hoccurs⟩
    obtain ⟨d, hcall, hwritten⟩ :=
      (UnitTask.exists_callOf_iff project.root _ event callerUsr usr
        qualified).mpr ⟨hcaller, occurrence, hoccurs⟩
    exact ⟨d, List.mem_filterMap.mpr ⟨event, hevent, hcall⟩, hwritten⟩

theorem content_defines_iff {batch : Batch project} {limit : Nat}
    (unit : ReportedUnit project) (hunit : batch.unit = unit.turn.unit)
    (hcut : batch.Cut limit) (usr qualified : String) :
    batch.content.Defines usr qualified ↔ unit.Defines usr qualified := by
  rw [← exists_funcDef_iff, ← hunit, Content.Defines, Batch.content,
    hcut.2.1.flatten]
  simp [FuncDef.content, and_assoc]

theorem content_calls_iff {batch : Batch project} {limit : Nat}
    (unit : ReportedUnit project) (hunit : batch.unit = unit.turn.unit)
    (hcut : batch.Cut limit) (callerUsr usr qualified : String) :
    batch.content.Calls callerUsr usr qualified ↔
      unit.Calls callerUsr usr qualified := by
  rw [← exists_funcCall_iff, ← hunit, Content.Calls, Batch.content,
    hcut.2.2.flatten]
  simp [FuncCall.content, and_assoc]

end ReportedUnit

end Pview.Pipeline
