import Pview.Pipeline.Answers
import Pview.Query.ThrowPath

/-!
# From events to throw paths

What `--throwpath` reports, in terms of the flags and calls that clang reported
in the units.  The server may answer its queries with the rows in any order, so
the tables that are searched are those of a history up to a permutation.
-/

namespace Pview.Indexer

def IndexEvent.callerThrows : IndexEvent → Option Bool
  | handleFunc _ _ _ _ _ contexts _ => (callerInfo contexts).map Prod.snd
  | _ => none

theorem UnitTask.exists_flaggedCallOf_iff (projectRoot : String)
    (task : UnitTask) (event : IndexEvent) (callerUsr : String)
    (mightThrow : Bool) (usr qualified : String) :
    (∃ d, task.callOf projectRoot event = some d ∧ d.skipped = false ∧
      d.callerUsr = callerUsr ∧ d.callerMightThrow = mightThrow ∧
        d.info.usr = usr ∧ d.info.qualified = qualified) ↔
      callerUsr ≠ "" ∧ event.callerThrows = some mightThrow ∧ ∃ occurrence,
        event.calling = some (callerUsr, usr, qualified, occurrence) ∧
          0 ≤ (task.genSourceLocation projectRoot occurrence).fileId := by
  have hflag : ∀ d, task.callOf projectRoot event = some d →
      d.skipped = false → event.callerThrows = some d.callerMightThrow := by
    intro d hd hskipped
    rw [FuncCall.not_skipped_iff] at hskipped
    cases event with
    | handleFunc isDecl isDef usr' qualified' might contexts occurrence' =>
        cases isDecl <;> cases isDef <;> try contradiction
        cases hinfo : callerInfo contexts <;>
          simp only [callOf, hinfo, Option.getD_none, Option.getD_some,
            Option.some.injEq] at hd
        · exact absurd (by rw [← hd]) hskipped.1
        · simp [IndexEvent.callerThrows, hinfo, ← hd]
    | macroExpands isBuiltin =>
        cases isBuiltin <;> try contradiction
        simp only [callOf, Option.some.injEq] at hd
        exact absurd (by rw [← hd]) hskipped.1
    | macroDefined => contradiction
  have hcall := exists_callOf_iff projectRoot task event callerUsr usr qualified
  constructor
  · rintro ⟨d, hd, hskipped, hcaller, rfl, husr, hqualified⟩
    obtain ⟨hne, hoccurs⟩ :=
      hcall.mp ⟨d, hd, hskipped, hcaller, husr, hqualified⟩
    exact ⟨hne, hflag d hd hskipped, hoccurs⟩
  · rintro ⟨hne, hthrows, hoccurs⟩
    obtain ⟨d, hd, hskipped, hcaller, husr, hqualified⟩ :=
      hcall.mpr ⟨hne, hoccurs⟩
    have hsame := (hflag d hd hskipped).symm.trans hthrows
    exact ⟨d, hd, hskipped, hcaller, Option.some.inj hsame, husr, hqualified⟩

end Pview.Indexer

namespace Pview.Pipeline

open Pview.Foundation
open Pview.Foundation.PrimaryKey
open Pview.Indexer
open Pview.MySQL
open Pview.Query

/-! ## Paths to facts -/

section Facts

variable (D : String → String → Prop) (K : String → String → String → Prop)
  (T : String → Prop)

/-- A function of this name leads to one that makes a call and might throw. -/
def LeadsToThrow (f : String) : Prop :=
  ∃ root, D root f ∧ ∃ u,
    Relation.ReflTransGen (fun u v => ∃ name, K u v name) root u ∧ T u

/-- These are the names along calls that lead from a function named `f` to one
that makes a call and might throw. -/
def ThrowsAlong (f : String) (names : List String) : Prop :=
  ∃ chain : List (String × String), names = chain.map Prod.snd ∧
    (∃ root, D root f ∧ chain.head? = some (root, f)) ∧
    (chain.IsChain fun caller callee => K caller.1 callee.1 callee.2) ∧
    ∃ last, chain.getLast? = some last ∧ T last.1

end Facts

def ThrowingCaller (index : Index) (callerUsr : String) : Prop :=
  ∃ row ∈ index.funcCalls, row.callerUsr = callerUsr ∧
    row.callerMightThrow ≠ 0

/-- The same rows, in the order in which the server answers. -/
structure Reordered (index index' : Index) : Prop where
  funcDefinitions : index'.funcDefinitions.Perm index.funcDefinitions
  funcCalls : index'.funcCalls.Perm index.funcCalls

def PrintsThrowpath (index : Index) (fromFunc : String) (names : List String) :
    Prop :=
  names ≠ [] ∧
    Converges (fun frames => doQueryThrowpath (some index) fromFunc frames)
      ⟨0, .info "---------- throwpath ---------" :: names.map .name ++
        [.info "---------- END ---------"]⟩

theorem reportsThrowpath_iff_leads {index : Index}
    (h : FlagsConsistent index.funcCalls) (f : String) :
    ReportsThrowpath index f ↔
      LeadsToThrow (Defines index) (Calls index) (ThrowingCaller index) f := by
  have hedges : (fun u v => ∃ row ∈ index.funcCalls, row.callerUsr = u ∧
      row.usr = v) = fun u v => ∃ name, Calls index u v name := by
    funext u v
    simp [Calls]
  simp only [reportsThrowpath_iff, throwsFirst_iff_of_consistent h, Reaches,
    CallReach, hedges, LeadsToThrow, Defines, ThrowingCaller]
  constructor
  · rintro ⟨u, ⟨d, hd, hname, hreach⟩, hthrows⟩
    exact ⟨d.usr, ⟨d, hd, rfl, hname⟩, u, hreach, hthrows⟩
  · rintro ⟨_, ⟨d, hd, rfl, hname⟩, u, hreach, hthrows⟩
    exact ⟨u, ⟨d, hd, hname, hreach⟩, hthrows⟩

theorem isThrowpath_of_prints {index : Index} {f : String}
    {names : List String} (h : PrintsThrowpath index f names) :
    IsThrowpath index.funcCalls (rootCallers (queryFuncDefUsrUsingQualified
      index.funcDefinitions f) f) names := by
  obtain ⟨-, hprinted⟩ := h
  by_cases hempty :
      (queryFuncDefUsrUsingQualified index.funcDefinitions f).isEmpty = true
  · have hrun : Converges (fun frames =>
        doQueryThrowpath (some index) f frames) ⟨1, [.warning
          ("Cannot find USR using qualified name: " ++ f)]⟩ :=
      ⟨0, fun frames _ => by simp [doQueryThrowpath, hempty]⟩
    simpa using congrArg Report.ret (hprinted.unique hrun)
  obtain ⟨out, hruns, hconverges⟩ := searchThrowpath_converges index.funcCalls
    (rootCallers (queryFuncDefUsrUsingQualified index.funcDefinitions f) f) []
  have hrun : Converges (fun frames =>
      doQueryThrowpath (some index) f frames)
      (if (throwReportOf [] out).2.result.isEmpty then
        ⟨1, [.warning ("Cannot find throwpath from " ++ f)]⟩
      else
        ⟨0, .info "---------- throwpath ---------" ::
          (throwReportOf [] out).2.result.reverse.map .name ++
          [.info "---------- END ---------"]⟩) := by
    simp only [doQueryThrowpath, hempty]
    exact hconverges.map _
  have hreport := hprinted.unique hrun
  cases hroute : out.route with
  | none => simp [throwReportOf, hroute] at hreport
  | some route =>
      have hne : route.map Prod.snd ≠ [] := by
        simpa using hruns.route_ne_nil hroute
      simp only [throwReportOf, hroute, List.nil_append, List.reverse_reverse,
        List.isEmpty_reverse, List.isEmpty_eq_false_iff.2 hne] at hreport
      have hlines : names.map LogLine.name =
          (route.map Prod.snd).map LogLine.name := by
        simpa using congrArg Report.lines hreport
      have hnames : names = route.map Prod.snd :=
        List.map_injective_iff.mpr (fun _ _ => LogLine.name.inj) hlines
      rw [hnames]
      exact isThrowpath_of_leftmost ((hruns.route_iff route).1 hroute)

theorem throwsAlong_of_prints {index : Index} {f : String}
    {names : List String} (h : PrintsThrowpath index f names) :
    ThrowsAlong (Defines index) (Calls index) (ThrowingCaller index) f
      names := by
  obtain ⟨chain, hnames, -, ⟨root, hroot, hhead⟩, hchain, hlast⟩ :=
    isThrowpath_of_prints h
  refine ⟨chain, hnames, ?_, hchain, hlast⟩
  obtain ⟨usr, husr, rfl⟩ := List.mem_map.mp hroot
  refine ⟨usr, ?_, hhead⟩
  simpa [queryFuncDefUsrUsingQualified, Defines, and_comm, and_assoc] using husr

section Facts

variable {D D' : String → String → Prop}
  {K K' : String → String → String → Prop} {T T' : String → Prop}

theorem ThrowsAlong.mono (hD : ∀ usr name, D usr name → D' usr name)
    (hK : ∀ callerUsr usr name, K callerUsr usr name → K' callerUsr usr name)
    (hT : ∀ callerUsr, T callerUsr → T' callerUsr) {f : String}
    {names : List String} (h : ThrowsAlong D K T f names) :
    ThrowsAlong D' K' T' f names := by
  obtain ⟨chain, hnames, ⟨root, hroot, hhead⟩, hchain, last, hlast, hthrows⟩ :=
    h
  exact ⟨chain, hnames, ⟨root, hD _ _ hroot, hhead⟩,
    hchain.imp fun caller callee hcall => hK _ _ _ hcall, last, hlast,
    hT _ hthrows⟩

end Facts

namespace Reordered

variable {index index' : Index}

theorem defines_iff (h : Reordered index index') (usr name : String) :
    Defines index' usr name ↔ Defines index usr name := by
  simp only [Defines, h.funcDefinitions.mem_iff]

theorem calls_iff (h : Reordered index index') (callerUsr usr name : String) :
    Calls index' callerUsr usr name ↔ Calls index callerUsr usr name := by
  simp only [Calls, h.funcCalls.mem_iff]

theorem throwingCaller_iff (h : Reordered index index') (callerUsr : String) :
    ThrowingCaller index' callerUsr ↔ ThrowingCaller index callerUsr := by
  simp only [ThrowingCaller, h.funcCalls.mem_iff]

theorem flagsConsistent_iff (h : Reordered index index') :
    FlagsConsistent index'.funcCalls ↔ FlagsConsistent index.funcCalls := by
  simp only [FlagsConsistent, h.funcCalls.mem_iff]

end Reordered

/-! ## Where the paths come from -/

section Units

variable {project : Project}

def ReportedUnit.CallsFlagged (unit : ReportedUnit project) (callerUsr : String)
    (mightThrow : Bool) (usr qualified : String) : Prop :=
  callerUsr ≠ "" ∧ ∃ event ∈ unit.events, ∃ occurrence,
    event.calling = some (callerUsr, usr, qualified, occurrence) ∧
      event.callerThrows = some mightThrow ∧ HasFileId unit.turn occurrence

theorem ReportedUnit.exists_flaggedCall_iff (unit : ReportedUnit project)
    (callerUsr : String) (mightThrow : Bool) (usr qualified : String) :
    (∃ d ∈ unit.turn.unit.task.funcCalls, d.skipped = false ∧
      d.callerUsr = callerUsr ∧ d.callerMightThrow = mightThrow ∧
        d.info.usr = usr ∧ d.info.qualified = qualified) ↔
      unit.CallsFlagged callerUsr mightThrow usr qualified := by
  have hevent := fun event => UnitTask.exists_flaggedCallOf_iff project.root
    (unit.turn.enter .new) event callerUsr mightThrow usr qualified
  rw [funcCalls_unit]
  constructor
  · rintro ⟨d, hd, hwritten⟩
    obtain ⟨event, hmem, hcall⟩ := List.mem_filterMap.mp hd
    obtain ⟨hne, hthrows, occurrence, hcalling, hid⟩ :=
      (hevent event).mp ⟨d, hcall, hwritten⟩
    exact ⟨hne, event, hmem, occurrence, hcalling, hthrows, hid⟩
  · rintro ⟨hne, event, hmem, occurrence, hcalling, hthrows, hid⟩
    obtain ⟨d, hcall, hwritten⟩ :=
      (hevent event).mpr ⟨hne, hthrows, occurrence, hcalling, hid⟩
    exact ⟨d, List.mem_filterMap.mpr ⟨event, hmem, hcall⟩, hwritten⟩

variable (units : List (ReportedUnit project))

def SomeThrows (callerUsr : String) : Prop :=
  ∃ unit ∈ units, ∃ usr qualified,
    unit.CallsFlagged callerUsr true usr qualified

def FlagsFit (mightThrowOf : String → Bool) : Prop :=
  ∀ unit ∈ units, ∀ callerUsr mightThrow usr qualified,
    unit.CallsFlagged callerUsr mightThrow usr qualified →
      mightThrow = mightThrowOf callerUsr

end Units

variable {project : Project} {P C : Type*} {units : List (ReportedUnit project)}
  {column : String → String}

theorem Batch.mem_callGroups_iff {batch : Batch project} {limit : Nat}
    {unit : ReportedUnit project} (hunit : batch.unit = unit.turn.unit)
    (hcut : batch.Cut limit) (d : FuncCall) :
    d ∈ batch.callGroups.flatten ↔
      d ∈ unit.turn.unit.task.funcCalls ∧ d.skipped = false := by
  rw [hcut.2.2.flatten, hunit]
  simp

variable [DecidableEq P] [DecidableEq C]

theorem exists_unit_of_callRow {rows : List FilepathRow}
    {s : State project P C}
    (hreach : (indexingFrom project P C rows).Reachable s)
    (hsent : s.SentFor units) {row : FuncCallRow}
    (h : row ∈ (s.tables column .empty).funcCalls) :
    ∃ unit ∈ units, ∃ callerUsr mightThrow usr qualified,
      unit.CallsFlagged callerUsr mightThrow usr qualified ∧
        column callerUsr = row.callerUsr ∧
        row.callerMightThrow = if mightThrow then 1 else 0 := by
  obtain ⟨batch, hbatch, d, hd, rfl⟩ := exists_batch_of_callRow hreach h
  obtain ⟨limit, hcut⟩ := cut_of_reachable hreach batch hbatch
  obtain ⟨unit, hunit, heq⟩ := hsent.exists_unit hbatch
  obtain ⟨hmem, hskipped⟩ := (Batch.mem_callGroups_iff heq hcut d).mp hd
  refine ⟨unit, hunit, d.callerUsr, d.callerMightThrow, d.info.usr,
    d.info.qualified, ?_, rfl, rfl⟩
  rw [← ReportedUnit.exists_flaggedCall_iff]
  exact ⟨d, hmem, hskipped, rfl, rfl, rfl, rfl⟩

theorem someThrows_of_throwingCaller {rows : List FilepathRow}
    {s : State project P C}
    (hreach : (indexingFrom project P C rows).Reachable s)
    (hsent : s.SentFor units) {callerUsr : String}
    (h : ThrowingCaller (s.tables column .empty) callerUsr) :
    ∃ callerUsr', SomeThrows units callerUsr' ∧
      column callerUsr' = callerUsr := by
  obtain ⟨row, hrow, rfl, hthrow⟩ := h
  obtain ⟨unit, hunit, callerUsr, mightThrow, usr, qualified, hcalls, hcaller,
    hflag⟩ := exists_unit_of_callRow hreach hsent hrow
  cases mightThrow with
  | false => exact absurd hflag hthrow
  | true => exact ⟨callerUsr, ⟨unit, hunit, usr, qualified, hcalls⟩, hcaller⟩

/--
A path that is printed goes along calls that clang has reported, and a flag for
its last function; whatever failed, whenever a run was cut off and in whatever
order the server answers.
-/
theorem throwpath_sound {rows : List FilepathRow} {s : State project P C}
    {index : Index} (hreach : (indexingFrom project P C rows).Reachable s)
    (hsent : s.SentFor units)
    (horder : Reordered (s.tables column .empty) index) {f : String}
    {names : List String} (hprints : PrintsThrowpath index f names) :
    ThrowsAlong
      (fun usr name => ∃ usr' name', SomeDefines units usr' name' ∧
        column usr' = usr ∧ column name' = name)
      (fun callerUsr usr name => ∃ callerUsr' usr' name',
        SomeCalls units callerUsr' usr' name' ∧ column callerUsr' = callerUsr ∧
          column usr' = usr ∧ column name' = name)
      (fun callerUsr => ∃ callerUsr', SomeThrows units callerUsr' ∧
        column callerUsr' = callerUsr) f names := by
  apply (throwsAlong_of_prints hprints).mono
  · intro usr name hdefines
    rw [horder.defines_iff] at hdefines
    exact exists_unit_of_defines hreach hsent hdefines
  · intro callerUsr usr name hcalls
    rw [horder.calls_iff] at hcalls
    exact exists_unit_of_calls hreach hsent hcalls
  · intro callerUsr hthrows
    rw [horder.throwingCaller_iff] at hthrows
    exact someThrows_of_throwingCaller hreach hsent hthrows

/-! ## Complete throw paths -/

omit [DecidableEq P] [DecidableEq C] in
theorem State.Stores.callRow_mem {qualifiedOf : String → String}
    {s : State project P C} (hsent : s.Sent)
    (h : s.Stores column qualifiedOf .empty) {batch : Batch project}
    (hbatch : batch ∈ s.indexed) {d : FuncCall}
    (hd : d ∈ batch.callGroups.flatten) :
    d.row column batch.unit.task.currentTime ∈
      (s.tables column .empty).funcCalls := by
  rw [State.tables, funcCalls_executeLog, insertAllIgnore_of_nodup h.callIds]
  apply List.mem_append_right
  rw [funcCallRowsOf, mem_rows_iff (fun _ _ _ => rfl) hsent h.stored]
  refine ⟨batch, hbatch, ?_⟩
  rw [← funcCallRowsOf, Batch.funcCallRowsOf_symbols]
  exact List.mem_map_of_mem hd

theorem ReportedUnit.CallsFlagged.calls {unit : ReportedUnit project}
    {callerUsr usr qualified : String} {mightThrow : Bool}
    (h : unit.CallsFlagged callerUsr mightThrow usr qualified) :
    unit.Calls callerUsr usr qualified := by
  obtain ⟨hne, event, hevent, occurrence, hcalling, -, hid⟩ := h
  exact ⟨hne, event, hevent, occurrence, hcalling, hid⟩

section Complete

variable {qualifiedOf : String → String} {mightThrowOf : String → Bool}
  {rows : List FilepathRow} {s : State project P C}

theorem flagsConsistent_of_fit
    (hreach : (indexingFrom project P C rows).Reachable s)
    (hsent : s.SentFor units) (hfit : NamesFit column qualifiedOf units)
    (hflags : FlagsFit units mightThrowOf) :
    FlagsConsistent (s.tables column .empty).funcCalls := by
  have hflag : ∀ row ∈ (s.tables column .empty).funcCalls,
      row.callerMightThrow = if mightThrowOf row.callerUsr then 1 else 0 := by
    intro row hrow
    obtain ⟨unit, hunit, callerUsr, mightThrow, usr, qualified, hcalls, hcaller,
      hflag⟩ := exists_unit_of_callRow hreach hsent hrow
    have hname : column callerUsr = callerUsr :=
      (hfit.calls _ _ _ ⟨unit, hunit, hcalls.calls⟩).1
    rw [hflag, ← hcaller, hname, hflags unit hunit _ _ _ _ hcalls]
  intro row hrow row' hrow' hsame
  rw [hflag row hrow, hflag row' hrow', hsame]

theorem throwingCaller_iff_someThrows
    (hreach : (indexingFrom project P C rows).Reachable s)
    (hsent : s.SentFor units) (hfit : NamesFit column qualifiedOf units)
    (hstores : s.Stores column qualifiedOf .empty) (callerUsr : String) :
    ThrowingCaller (s.tables column .empty) callerUsr ↔
      SomeThrows units callerUsr := by
  have hname : ∀ callerUsr, SomeThrows units callerUsr →
      column callerUsr = callerUsr := by
    rintro callerUsr ⟨unit, hunit, usr, qualified, hcalls⟩
    exact (hfit.calls _ _ _ ⟨unit, hunit, hcalls.calls⟩).1
  constructor
  · intro hthrows
    obtain ⟨callerUsr', hsome, hcaller⟩ :=
      someThrows_of_throwingCaller hreach hsent hthrows
    rw [hname callerUsr' hsome] at hcaller
    exact hcaller ▸ hsome
  · intro hsome
    have hcolumn := hname callerUsr hsome
    obtain ⟨unit, hunit, usr, qualified, hcalls⟩ := hsome
    obtain ⟨d, hmem, hskipped, rfl, hflag, -, -⟩ :=
      (unit.exists_flaggedCall_iff _ _ _ _).mpr hcalls
    obtain ⟨batch, hbatch, heq⟩ := hsent.exists_batch hunit
    obtain ⟨limit, hcut⟩ := cut_of_reachable hreach batch hbatch
    have hd := (Batch.mem_callGroups_iff heq hcut d).mpr ⟨hmem, hskipped⟩
    refine ⟨_, hstores.callRow_mem (State.Sent.of_reachable hreach) hbatch hd,
      hcolumn, ?_⟩
    simp [FuncCall.row, hflag]

end Complete

/--
Once everything sent has been stored, `--throwpath` reports a path exactly if
the calls that clang has reported in all runs together lead to a function with
a call and a flag, in whatever order the server answers.
-/
theorem throwpath_complete {qualifiedOf : String → String}
    {mightThrowOf : String → Bool} {rows : List FilepathRow}
    {s : Numbered project P C} {index : Index}
    (hreach : (numbering column .empty project P C rows).ReachWhere
      (InRange column .empty) s)
    (hsent : s.state.SentFor units)
    (hstored : ∀ batch ∈ s.state.indexed, batch.symbols ⊆ s.state.db.log)
    (hfit : NamesFit column qualifiedOf units)
    (hflags : FlagsFit units mightThrowOf)
    (horder : Reordered (s.state.tables column .empty) index) (f : String) :
    ReportsThrowpath index f ↔
      LeadsToThrow (SomeDefines units) (SomeCalls units) (SomeThrows units)
        f := by
  have hstate := Numbered.state_reachable hreach
  have hstores := stores_of_reachWhere hreach hsent hstored hfit
  have hconsistent := flagsConsistent_of_fit hstate hsent hfit hflags
  rw [reportsThrowpath_iff_leads (horder.flagsConsistent_iff.mpr hconsistent)]
  simp only [LeadsToThrow, horder.defines_iff, horder.calls_iff,
    horder.throwingCaller_iff, tables_define_iff hstate hsent hstores,
    tables_call_iff hstate hsent hstores,
    throwingCaller_iff_someThrows hstate hsent hfit hstores]

/-! ## A run -/

def throwingEvents : List IndexEvent :=
  [.handleFunc false true "c:@F@main" "main" true [] ⟨1, "/p/b.cc", 8, 1⟩,
    .handleFunc false false "c:@F@f" "f" false
      [⟨.function, "c:@F@main", true⟩] ⟨1, "/p/b.cc", 9, 1⟩]

private def throwingTurn : Turn crashingProject :=
  { crashingTurn (Fin.last 1) with
    filepathId := 1
    events := throwingEvents.map IndexEvent.toEvent }

private theorem throwingTurn_events :
    throwingTurn.events = throwingEvents.map IndexEvent.toEvent := rfl

def throwingUnit : ReportedUnit crashingProject where
  turn := throwingTurn
  events := throwingEvents
  reported := throwingTurn_events

def throwingDef : FuncDef := ⟨1, ⟨"c:@F@main", "main", true, ⟨1, 8⟩⟩⟩

def throwingCall : FuncCall :=
  ⟨1, ⟨"c:@F@f", "f", false, ⟨1, 9⟩⟩, "c:@F@main", true⟩

def throwingRun : List (Action Unit Unit) :=
  [.startRun {},
    .parse ()
      (.begin throwingUnit.turn.command ⟨true, true, 50, .noInstance⟩ 100),
    .parse () (.addFuncDef throwingDef), .parse () (.addFuncCall throwingCall),
    .sendIndexedResult () [[throwingDef]] [[throwingCall]], .getStmts (),
    .dml () ⟨true, fun _ => .success⟩, .dml () ⟨true, fun _ => .success⟩,
    .dml () ⟨true, fun _ => .success⟩]

private theorem exists_throwingRun :
    ∃ s : Numbered crashingProject Unit Unit,
      (numbering id .empty crashingProject Unit Unit []).ReachWhere
        (InRange id .empty) s ∧ s.state.SentFor [throwingUnit] ∧
      (∀ batch ∈ s.state.indexed, batch.symbols ⊆ s.state.db.log) ∧
      (s.state.tables id .empty).funcDefinitions = [throwingDef.row id 100] ∧
      (s.state.tables id .empty).funcCalls = [throwingCall.row id 100] := by
  have hrun : ((numbering id .empty crashingProject Unit Unit []).runWhere
      (InRange id .empty) (numbering id .empty crashingProject Unit Unit []).init
      throwingRun).map (fun s => (s.state.indexed.map Batch.unit,
        decide (∀ batch ∈ s.state.indexed, batch.symbols ⊆ s.state.db.log),
        (s.state.tables id .empty).funcDefinitions,
        (s.state.tables id .empty).funcCalls)) =
      some ([throwingUnit.turn.unit], true, [throwingDef.row id 100],
        [throwingCall.row id 100]) :=
    rfl
  obtain ⟨s, hrun, hs⟩ := Option.map_eq_some_iff.mp hrun
  simp only [Prod.mk.injEq, decide_eq_true_eq] at hs
  exact ⟨s, .runWhere .init hrun, hs⟩

/-- The calls of `main` are asked first, and the first one has the flag. -/
private theorem reportsThrowpath_throwing {index : Index}
    (hdefs : index.funcDefinitions = [throwingDef.row id 100])
    (hcalls : index.funcCalls = [throwingCall.row id 100]) :
    ReportsThrowpath index "main" := by
  rw [reportsThrowpath_iff]
  refine ⟨"c:@F@main", ⟨throwingDef.row id 100, by simp [hdefs], rfl, .refl⟩,
    ?_⟩
  rw [hcalls]
  rfl

theorem throwpath_sound_main : ∃ names, names ≠ [] ∧
    ThrowsAlong
      (fun usr name => ∃ usr' name', SomeDefines [throwingUnit] usr' name' ∧
        id usr' = usr ∧ id name' = name)
      (fun callerUsr usr name => ∃ callerUsr' usr' name',
        SomeCalls [throwingUnit] callerUsr' usr' name' ∧
          id callerUsr' = callerUsr ∧ id usr' = usr ∧ id name' = name)
      (fun callerUsr => ∃ callerUsr', SomeThrows [throwingUnit] callerUsr' ∧
        id callerUsr' = callerUsr) "main" names := by
  obtain ⟨s, hreach, hsent, -, hdefs, hcalls⟩ := exists_throwingRun
  obtain ⟨names, hne, hprints⟩ := reportsThrowpath_throwing hdefs hcalls
  exact ⟨names, hne, throwpath_sound (Numbered.state_reachable hreach) hsent
    ⟨.refl _, .refl _⟩ ⟨hne, hprints⟩⟩

private theorem throwingNames_fit : NamesFit id
    (fun usr => if usr = "c:@F@main" then "main" else "f") [throwingUnit] where
  defines := by
    rintro usr name ⟨unit, hunit, -, -, event, hevent, occurrence, hdef, -⟩
    obtain rfl := List.mem_singleton.mp hunit
    rcases List.mem_pair.mp hevent with rfl | rfl
    · simp only [IndexEvent.definition, Option.some.injEq, Prod.mk.injEq]
        at hdef
      obtain ⟨rfl, rfl, -⟩ := hdef
      exact ⟨rfl, rfl, rfl⟩
    · contradiction
  calls _ _ _ _ := ⟨rfl, rfl, rfl⟩

private theorem throwingFlags_fit : FlagsFit [throwingUnit] fun _ => true := by
  rintro unit hunit callerUsr mightThrow usr qualified
    ⟨-, event, hevent, occurrence, hcalling, hthrows, -⟩
  obtain rfl := List.mem_singleton.mp hunit
  rcases List.mem_pair.mp hevent with rfl | rfl
  · contradiction
  · exact (Option.some.inj hthrows).symm

theorem throwpath_complete_main :
    LeadsToThrow (SomeDefines [throwingUnit]) (SomeCalls [throwingUnit])
      (SomeThrows [throwingUnit]) "main" := by
  obtain ⟨s, hreach, hsent, hstored, hdefs, hcalls⟩ := exists_throwingRun
  have hreports := reportsThrowpath_throwing hdefs hcalls
  exact (throwpath_complete hreach hsent hstored throwingNames_fit
    throwingFlags_fit ⟨.refl _, .refl _⟩ "main").mp hreports

end Pview.Pipeline
