import Pview.Pipeline.SymbolIds
import Pview.Pipeline.UnitFacts

/-!
# From events to answers

The queries read tables that have been filled by whole histories of runs.  Here
their answers are put in terms of what the units define and call, over every
interleaving and whatever was lost on the way.
-/

namespace Pview.Pipeline

open Pview.Foundation
open Pview.Foundation.PrimaryKey
open Pview.Indexer
open Pview.MySQL
open Pview.Query

variable {project : Project}

/-! ## Answers to facts -/

section Facts

variable (D : String → String → Prop) (K : String → String → String → Prop)

/-- With `D usr name` for the definitions and `K callerUsr usr name` for the
calls: a function of the first name calls one of the second. -/
def CallsByName (f g : String) : Prop :=
  ∃ callerUsr, D callerUsr f ∧ ∃ usr, K callerUsr usr g

def LeadsByName (f g : String) : Prop :=
  ∃ root, D root f ∧ ∃ callerUsr,
    Relation.ReflTransGen (fun u v => ∃ name, K u v name) root callerUsr ∧
      ∃ usr, K callerUsr usr g

structure AnswersWithin (index : Index) : Prop where
  calleeOf : ∀ f g, (doQueryCalleeOf (some index) f).Prints g →
    CallsByName D K f g
  callerOf : ∀ f g, (doQueryCallerOf (some index) f).Prints g →
    CallsByName D K g f
  callpath : ∀ f g, FindsCallpath index f g → LeadsByName D K f g

structure AnswersExactly (index : Index) : Prop where
  calleeOf : ∀ f g, (doQueryCalleeOf (some index) f).Prints g ↔
    CallsByName D K f g
  callerOf : ∀ f g, (doQueryCallerOf (some index) f).Prints g ↔
    CallsByName D K g f
  callpath : ∀ f g, FindsCallpath index f g ↔ LeadsByName D K f g

end Facts

variable {D D' : String → String → Prop}
  {K K' : String → String → String → Prop}

theorem CallsByName.mono (hD : ∀ usr name, D usr name → D' usr name)
    (hK : ∀ callerUsr usr name, K callerUsr usr name → K' callerUsr usr name)
    {f g : String} (h : CallsByName D K f g) : CallsByName D' K' f g := by
  obtain ⟨callerUsr, hdefined, usr, hcall⟩ := h
  exact ⟨callerUsr, hD _ _ hdefined, usr, hK _ _ _ hcall⟩

theorem LeadsByName.mono (hD : ∀ usr name, D usr name → D' usr name)
    (hK : ∀ callerUsr usr name, K callerUsr usr name → K' callerUsr usr name)
    {f g : String} (h : LeadsByName D K f g) : LeadsByName D' K' f g := by
  obtain ⟨root, hdefined, callerUsr, hpath, usr, hcall⟩ := h
  have hedge : ∀ u v, (∃ name, K u v name) → ∃ name, K' u v name := by
    rintro u v ⟨name, hedge⟩
    exact ⟨name, hK u v name hedge⟩
  exact ⟨root, hD _ _ hdefined, callerUsr,
    Relation.ReflTransGen.mono hedge _ _ hpath, usr, hK _ _ _ hcall⟩

theorem findsCallpath_iff_leads (index : Index) (f g : String) :
    FindsCallpath index f g ↔
      LeadsByName (Defines index) (Calls index) f g := by
  have hedges : (fun u v => ∃ row ∈ index.funcCalls, row.callerUsr = u ∧
      row.usr = v) = fun u v => ∃ name, Calls index u v name := by
    funext u v
    simp [Calls]
  have hroots : ∀ usr,
      usr ∈ queryFuncDefUsrUsingQualified index.funcDefinitions f ↔
        Defines index usr f := by
    intro usr
    simp [queryFuncDefUsrUsingQualified, Defines, and_comm, and_assoc]
  have hlast : ∀ u, (∃ row ∈ index.funcCalls, row.callerUsr = u ∧
      row.qualified = g) ↔ ∃ usr, Calls index u usr g := by
    intro u
    simp [Calls]
  simp only [findsCallpath_iff, Connected, CallReach, hedges, hroots, hlast,
    LeadsByName]

theorem answersWithin_of_facts {index : Index}
    (hD : ∀ usr name, Defines index usr name → D usr name)
    (hK : ∀ callerUsr usr name, Calls index callerUsr usr name →
      K callerUsr usr name) : AnswersWithin D K index where
  calleeOf f g h :=
    CallsByName.mono hD hK ((prints_calleeOf_iff index f g).mp h)
  callerOf f g h := by
    obtain ⟨-, callerUsr, -, hdefines, hcalls⟩ :=
      (prints_callerOf_iff index f g).mp h
    exact CallsByName.mono hD hK ⟨callerUsr, hdefines, hcalls⟩
  callpath f g h :=
    LeadsByName.mono hD hK ((findsCallpath_iff_leads index f g).mp h)

theorem answersExactly_of_facts {index : Index}
    (hD : ∀ usr name, Defines index usr name ↔ D usr name)
    (hK : ∀ callerUsr usr name, Calls index callerUsr usr name ↔
      K callerUsr usr name)
    (hnamed : ∀ usr name, D usr name → usr ≠ "" ∧ name ≠ "") :
    AnswersExactly D K index where
  calleeOf f g := by simp only [prints_calleeOf_iff, CallsByName, hD, hK]
  callerOf f g := by
    simp only [prints_callerOf_iff, CallsByName, hD, hK]
    constructor
    · rintro ⟨-, callerUsr, -, hdefined, hcall⟩
      exact ⟨callerUsr, hdefined, hcall⟩
    · rintro ⟨callerUsr, hdefined, hcall⟩
      have hne := hnamed callerUsr g hdefined
      exact ⟨hne.2, callerUsr, hne.1, hdefined, hcall⟩
  callpath f g := by
    simp only [findsCallpath_iff_leads, LeadsByName, hD, hK]

/-! ## Answers over a history -/

section Kept

variable {P C : Type*} {column : String → String} {index : Index}

theorem Defines.executeOnIndex {usr name : String} (h : Defines index usr name)
    (stmt : Statement) :
    Defines (executeOnIndex column index stmt) usr name := by
  obtain ⟨d, hd, hnames⟩ := h
  obtain ⟨added, -, heq⟩ := exists_insertAllIgnore_eq FuncDefRow.usr
    index.funcDefinitions (stmt.funcDefRows column)
  refine ⟨d, ?_, hnames⟩
  show d ∈ insertAllIgnore FuncDefRow.usr index.funcDefinitions _
  rw [heq]
  exact List.mem_append_left added hd

theorem Calls.executeOnIndex {callerUsr usr name : String}
    (h : Calls index callerUsr usr name) (stmt : Statement) :
    Calls (executeOnIndex column index stmt) callerUsr usr name := by
  obtain ⟨d, hd, hnames⟩ := h
  obtain ⟨added, -, heq⟩ := exists_insertAllIgnore_eq FuncCallRow.funcCallId
    index.funcCalls (stmt.funcCallRows column)
  refine ⟨d, ?_, hnames⟩
  show d ∈ insertAllIgnore FuncCallRow.funcCallId index.funcCalls _
  rw [heq]
  exact List.mem_append_left added hd

theorem State.tables_step [DecidableEq P] [DecidableEq C]
    {s s' : State project P C} {action : Action P C}
    (hstep : s.step action = some s') :
    s'.tables column index = s.tables column index ∨ ∃ stmt,
      s'.tables column index =
        executeOnIndex column (s.tables column index) stmt := by
  cases State.effect_of_step hstep with
  | startRun | parse | sendIndexedResult | getStmts => exact .inl rfl
  | assignFileId | dml =>
      exact (State.tables_dml rfl).imp And.left fun h => ⟨_, h.1⟩

structure AnswersKept (index index' : Index) : Prop where
  calleeOf : ∀ f g, (doQueryCalleeOf (some index) f).Prints g →
    (doQueryCalleeOf (some index') f).Prints g
  callerOf : ∀ f g, (doQueryCallerOf (some index) f).Prints g →
    (doQueryCallerOf (some index') f).Prints g
  callpath : ∀ f g, FindsCallpath index f g → FindsCallpath index' f g

theorem answersKept_of_facts {index index' : Index}
    (hD : ∀ usr name, Defines index usr name → Defines index' usr name)
    (hK : ∀ callerUsr usr name, Calls index callerUsr usr name →
      Calls index' callerUsr usr name) : AnswersKept index index' where
  calleeOf f g h := by
    rw [prints_calleeOf_iff] at h ⊢
    exact CallsByName.mono hD hK h
  callerOf f g h := by
    rw [prints_callerOf_iff] at h ⊢
    obtain ⟨hg, callerUsr, hne, hdefined, usr, hcall⟩ := h
    exact ⟨hg, callerUsr, hne, hD _ _ hdefined, usr, hK _ _ _ hcall⟩
  callpath f g h := by
    rw [findsCallpath_iff_leads] at h ⊢
    exact LeadsByName.mono hD hK h

/-- No step of a run ever takes an answer back. -/
theorem answers_kept [DecidableEq P] [DecidableEq C] {rows : List FilepathRow}
    {s s' : State project P C} {schedule : List (Action P C)}
    (hrun : (indexingFrom project P C rows).run s schedule = some s') :
    AnswersKept (s.tables column index) (s'.tables column index) := by
  apply answersKept_of_facts
  · intro usr name hdefines
    refine System.run_invariant
      (I := fun s => Defines (s.tables column index) usr name) ?_ hdefines hrun
    intro s s' action hdefined hstep
    rcases State.tables_step hstep with hsame | ⟨stmt, hstmt⟩
    · rwa [hsame]
    · rw [hstmt]
      exact hdefined.executeOnIndex stmt
  · intro callerUsr usr name hcalls
    refine System.run_invariant
      (I := fun s => Calls (s.tables column index) callerUsr usr name) ?_ hcalls
      hrun
    intro s s' action hcall hstep
    rcases State.tables_step hstep with hsame | ⟨stmt, hstmt⟩
    · rwa [hsame]
    · rw [hstmt]
      exact hcall.executeOnIndex stmt

end Kept

/-! ## Where the answers come from -/

section Units

variable (units : List (ReportedUnit project))

def SomeDefines (usr qualified : String) : Prop :=
  ∃ unit ∈ units, unit.Defines usr qualified

def SomeCalls (callerUsr usr qualified : String) : Prop :=
  ∃ unit ∈ units, unit.Calls callerUsr usr qualified

def State.SentFor {P C : Type*} (s : State project P C) : Prop :=
  s.indexed.map Batch.unit = units.map fun unit => unit.turn.unit

end Units

variable {P C : Type*} {units : List (ReportedUnit project)}
  {column : String → String}

theorem State.SentFor.exists_unit {s : State project P C}
    (h : s.SentFor units) {batch : Batch project} (hbatch : batch ∈ s.indexed) :
    ∃ unit ∈ units, batch.unit = unit.turn.unit := by
  have hmem : batch.unit ∈ units.map fun unit => unit.turn.unit :=
    h ▸ List.mem_map_of_mem hbatch
  obtain ⟨unit, hunit, heq⟩ := List.mem_map.mp hmem
  exact ⟨unit, hunit, heq.symm⟩

theorem State.SentFor.exists_batch {s : State project P C}
    (h : s.SentFor units) {unit : ReportedUnit project} (hunit : unit ∈ units) :
    ∃ batch ∈ s.indexed, batch.unit = unit.turn.unit := by
  have hmem : unit.turn.unit ∈ s.indexed.map Batch.unit :=
    h.symm ▸ List.mem_map_of_mem hunit
  exact List.mem_map.mp hmem

variable [DecidableEq P] [DecidableEq C]

theorem cut_of_reachable {rows : List FilepathRow} {s : State project P C}
    (h : (indexingFrom project P C rows).Reachable s) :
    ∀ batch ∈ s.indexed, ∃ limit, batch.Cut limit := by
  apply System.ReachWhere.invariant (I := fun s : State project P C =>
    ∀ batch ∈ s.indexed, ∃ limit, batch.Cut limit) _ _ h
  · simp [indexingFrom, State.empty]
  · intro s s' action hs _ hstep batch hbatch
    cases State.effect_of_step hstep with
    | startRun | parse | assignFileId | getStmts | dml => exact hs batch hbatch
    | sendIndexedResult p sent was cut =>
        rcases List.mem_append.mp hbatch with hold | hnew
        · exact hs batch hold
        · rw [List.mem_singleton.mp hnew]
          exact ⟨_, cut⟩

theorem exists_unit_of_defines {rows : List FilepathRow}
    {s : State project P C}
    (hreach : (indexingFrom project P C rows).Reachable s)
    (hsent : s.SentFor units) {usr name : String}
    (h : Defines (s.tables column .empty) usr name) :
    ∃ usr' name', SomeDefines units usr' name' ∧ column usr' = usr ∧
      column name' = name := by
  obtain ⟨row, hrow, rfl, rfl⟩ := h
  rw [State.tables, funcDefinitions_executeLog] at hrow
  obtain ⟨stmt, hstmt, hrow⟩ : ∃ stmt ∈ s.db.log,
      row ∈ stmt.funcDefRows column := by
    rcases mem_insertAllIgnore hrow with hold | hnew
    · contradiction
    · exact List.mem_flatMap.mp hnew
  rcases (State.Sent.of_reachable hreach).logged stmt hstmt with
    ⟨batch, hbatch, hsymbol⟩ | ⟨_, _, _, rfl⟩
  · have hrows : row ∈ funcDefRowsOf column batch.symbols :=
      List.mem_flatMap.mpr ⟨stmt, hsymbol, hrow⟩
    rw [Batch.funcDefRowsOf_symbols] at hrows
    obtain ⟨d, hd, rfl⟩ := List.mem_map.mp hrows
    obtain ⟨limit, hcut⟩ := cut_of_reachable hreach batch hbatch
    obtain ⟨unit, hunit, heq⟩ := hsent.exists_unit hbatch
    refine ⟨d.info.usr, d.info.qualified, ⟨unit, hunit, ?_⟩, rfl, rfl⟩
    rw [← ReportedUnit.content_defines_iff unit heq hcut]
    exact ⟨d.content, List.mem_map_of_mem hd, rfl, rfl⟩
  · contradiction

theorem exists_batch_of_callRow {rows : List FilepathRow}
    {s : State project P C}
    (hreach : (indexingFrom project P C rows).Reachable s)
    {row : FuncCallRow} (h : row ∈ (s.tables column .empty).funcCalls) :
    ∃ batch ∈ s.indexed, ∃ d ∈ batch.callGroups.flatten,
      d.row column batch.unit.task.currentTime = row := by
  rw [State.tables, funcCalls_executeLog] at h
  obtain ⟨stmt, hstmt, hrow⟩ : ∃ stmt ∈ s.db.log,
      row ∈ stmt.funcCallRows column := by
    rcases mem_insertAllIgnore h with hold | hnew
    · contradiction
    · exact List.mem_flatMap.mp hnew
  rcases (State.Sent.of_reachable hreach).logged stmt hstmt with
    ⟨batch, hbatch, hsymbol⟩ | ⟨_, _, _, rfl⟩
  · have hrows : row ∈ funcCallRowsOf column batch.symbols :=
      List.mem_flatMap.mpr ⟨stmt, hsymbol, hrow⟩
    rw [Batch.funcCallRowsOf_symbols] at hrows
    exact ⟨batch, hbatch, List.mem_map.mp hrows⟩
  · contradiction

theorem exists_unit_of_calls {rows : List FilepathRow}
    {s : State project P C}
    (hreach : (indexingFrom project P C rows).Reachable s)
    (hsent : s.SentFor units) {callerUsr usr name : String}
    (h : Calls (s.tables column .empty) callerUsr usr name) :
    ∃ callerUsr' usr' name', SomeCalls units callerUsr' usr' name' ∧
      column callerUsr' = callerUsr ∧ column usr' = usr ∧
        column name' = name := by
  obtain ⟨row, hrow, rfl, rfl, rfl⟩ := h
  obtain ⟨batch, hbatch, d, hd, rfl⟩ := exists_batch_of_callRow hreach hrow
  obtain ⟨limit, hcut⟩ := cut_of_reachable hreach batch hbatch
  obtain ⟨unit, hunit, heq⟩ := hsent.exists_unit hbatch
  refine ⟨d.callerUsr, d.info.usr, d.info.qualified, ⟨unit, hunit, ?_⟩, rfl,
    rfl, rfl⟩
  rw [← ReportedUnit.content_calls_iff unit heq hcut]
  exact ⟨d.content, List.mem_map_of_mem hd, rfl, rfl, rfl⟩

/--
Nothing is answered that clang has not reported, whatever failed and whenever a
run was cut off: names are compared as the columns keep them.
-/
theorem answers_sound {rows : List FilepathRow} {s : State project P C}
    (hreach : (indexingFrom project P C rows).Reachable s)
    (hsent : s.SentFor units) :
    AnswersWithin
      (fun usr name => ∃ usr' name', SomeDefines units usr' name' ∧
        column usr' = usr ∧ column name' = name)
      (fun callerUsr usr name => ∃ callerUsr' usr' name',
        SomeCalls units callerUsr' usr' name' ∧ column callerUsr' = callerUsr ∧
          column usr' = usr ∧ column name' = name)
      (s.tables column .empty) :=
  answersWithin_of_facts (fun _ _ => exists_unit_of_defines hreach hsent)
    fun _ _ _ => exists_unit_of_calls hreach hsent

/-! ## Complete answers -/

theorem Numbered.state_reachable {index : Index} {rows : List FilepathRow}
    {ok : Numbered project P C → Action P C → Prop} {s : Numbered project P C}
    (h : (numbering column index project P C rows).ReachWhere ok s) :
    (indexingFrom project P C rows).Reachable s.state := by
  induction h with
  | init => exact .init
  | @step s s' action _ _ taken ih =>
      cases hdraws : action.draws with
      | none =>
          simp only [numbering, Numbered.step, hdraws,
            Option.map_eq_some_iff] at taken
          obtain ⟨state, hstate, rfl⟩ := taken
          exact .step ih trivial hstate
      | some drawn =>
          simp only [numbering, Numbered.step, hdraws,
            Option.ite_none_right_eq_some, Option.map_eq_some_iff] at taken
          obtain ⟨-, state, hstate, rfl⟩ := taken
          exact .step ih trivial hstate

section Contents

variable {rows : List FilepathRow} {s : State project P C}

theorem contents_define_iff
    (hreach : (indexingFrom project P C rows).Reachable s)
    (hsent : s.SentFor units) (usr name : String) :
    (∃ content ∈ s.contents, content.Defines usr name) ↔
      SomeDefines units usr name := by
  constructor
  · rintro ⟨_, hcontent, hdefines⟩
    obtain ⟨batch, hbatch, rfl⟩ := List.mem_map.mp hcontent
    obtain ⟨limit, hcut⟩ := cut_of_reachable hreach batch hbatch
    obtain ⟨unit, hunit, heq⟩ := hsent.exists_unit hbatch
    exact ⟨unit, hunit,
      (ReportedUnit.content_defines_iff unit heq hcut _ _).mp hdefines⟩
  · rintro ⟨unit, hunit, hdefines⟩
    obtain ⟨batch, hbatch, heq⟩ := hsent.exists_batch hunit
    obtain ⟨limit, hcut⟩ := cut_of_reachable hreach batch hbatch
    exact ⟨batch.content, List.mem_map_of_mem hbatch,
      (ReportedUnit.content_defines_iff unit heq hcut _ _).mpr hdefines⟩

theorem contents_call_iff
    (hreach : (indexingFrom project P C rows).Reachable s)
    (hsent : s.SentFor units) (callerUsr usr name : String) :
    (∃ content ∈ s.contents, content.Calls callerUsr usr name) ↔
      SomeCalls units callerUsr usr name := by
  constructor
  · rintro ⟨_, hcontent, hcalls⟩
    obtain ⟨batch, hbatch, rfl⟩ := List.mem_map.mp hcontent
    obtain ⟨limit, hcut⟩ := cut_of_reachable hreach batch hbatch
    obtain ⟨unit, hunit, heq⟩ := hsent.exists_unit hbatch
    exact ⟨unit, hunit,
      (ReportedUnit.content_calls_iff unit heq hcut _ _ _).mp hcalls⟩
  · rintro ⟨unit, hunit, hcalls⟩
    obtain ⟨batch, hbatch, heq⟩ := hsent.exists_batch hunit
    obtain ⟨limit, hcut⟩ := cut_of_reachable hreach batch hbatch
    exact ⟨batch.content, List.mem_map_of_mem hbatch,
      (ReportedUnit.content_calls_iff unit heq hcut _ _ _).mpr hcalls⟩

end Contents

/-- Equal USRs have equal names, and all names fit their columns. -/
structure NamesFit (column qualifiedOf : String → String)
    (units : List (ReportedUnit project)) : Prop where
  defines : ∀ usr name, SomeDefines units usr name →
    name = qualifiedOf usr ∧ column usr = usr ∧ column name = name
  calls : ∀ callerUsr usr name, SomeCalls units callerUsr usr name →
    column callerUsr = callerUsr ∧ column usr = usr ∧ column name = name

section Complete

variable {qualifiedOf : String → String} {rows : List FilepathRow}
  {s : Numbered project P C}

theorem stores_of_reachWhere
    (hreach : (numbering column .empty project P C rows).ReachWhere
      (InRange column .empty) s)
    (hsent : s.state.SentFor units)
    (hstored : ∀ batch ∈ s.state.indexed, batch.symbols ⊆ s.state.db.log)
    (hfit : NamesFit column qualifiedOf units) :
    s.state.Stores column qualifiedOf .empty := by
  have hstate := Numbered.state_reachable hreach
  have hinv := Numbered.Inv.of_reachWhere
    (by intro kind; cases kind <;> exact .nil)
    (by intro kind; cases kind <;> simp [storedIds, Index.empty]) hreach
  refine { stored := hstored, callIds := ?_, oldNames := by simp [Index.empty],
           defNames := ?_, callNames := ?_ }
  · rw [← hinv.kept]
    exact (hinv.inventory .funcCall).nodup .table
  · intro batch hbatch d hd
    exact hfit.defines d.info.usr d.info.qualified
      ((contents_define_iff hstate hsent _ _).mp ⟨batch.content,
        List.mem_map_of_mem hbatch, d.content, List.mem_map_of_mem hd, rfl,
        rfl⟩)
  · intro batch hbatch d hd
    exact hfit.calls d.callerUsr d.info.usr d.info.qualified
      ((contents_call_iff hstate hsent _ _ _).mp ⟨batch.content,
        List.mem_map_of_mem hbatch, d.content, List.mem_map_of_mem hd, rfl,
        rfl, rfl⟩)

theorem tables_define_iff
    (hreach : (indexingFrom project P C rows).Reachable s.state)
    (hsent : s.state.SentFor units)
    (hstores : s.state.Stores column qualifiedOf .empty) (usr name : String) :
    Defines (s.state.tables column .empty) usr name ↔
      SomeDefines units usr name := by
  rw [State.tables, defines_iff (State.Sent.of_reachable hreach) hstores,
    contents_define_iff hreach hsent]
  simp [Defines, Index.empty]

theorem tables_call_iff
    (hreach : (indexingFrom project P C rows).Reachable s.state)
    (hsent : s.state.SentFor units)
    (hstores : s.state.Stores column qualifiedOf .empty)
    (callerUsr usr name : String) :
    Calls (s.state.tables column .empty) callerUsr usr name ↔
      SomeCalls units callerUsr usr name := by
  rw [State.tables, calls_iff (State.Sent.of_reachable hreach) hstores,
    contents_call_iff hreach hsent]
  simp [Calls, Index.empty]

/--
Once everything sent has been stored, the answers are exactly what clang has
reported in all runs together: the ids keep all calls apart.
-/
theorem answers_complete {qualifiedOf : String → String}
    {rows : List FilepathRow} {s : Numbered project P C}
    (hreach : (numbering column .empty project P C rows).ReachWhere
      (InRange column .empty) s)
    (hsent : s.state.SentFor units)
    (hstored : ∀ batch ∈ s.state.indexed, batch.symbols ⊆ s.state.db.log)
    (hfit : NamesFit column qualifiedOf units) :
    AnswersExactly (SomeDefines units) (SomeCalls units)
      (s.state.tables column .empty) := by
  have hstate := Numbered.state_reachable hreach
  have hstores := stores_of_reachWhere hreach hsent hstored hfit
  apply answersExactly_of_facts
  · exact tables_define_iff hstate hsent hstores
  · exact tables_call_iff hstate hsent hstores
  · rintro usr name ⟨unit, -, husr, hname, -⟩
    exact ⟨husr, hname⟩

end Complete

/-! ## A run -/

def mainEvents : List IndexEvent :=
  [.handleFunc false true "c:@F@main" "main" false [] ⟨1, "/p/b.cc", 8, 1⟩,
    .handleFunc false false "c:@F@f" "f" false
      [⟨.function, "c:@F@main", false⟩] ⟨1, "/p/b.cc", 9, 1⟩]

private def mainTurn : Turn crashingProject :=
  { crashingTurn (Fin.last 1) with
    filepathId := 1
    events := mainEvents.map IndexEvent.toEvent }

private theorem mainTurn_events :
    mainTurn.events = mainEvents.map IndexEvent.toEvent := rfl

def mainUnit : ReportedUnit crashingProject where
  turn := mainTurn
  events := mainEvents
  reported := mainTurn_events

def mainRun : List (Action Unit Unit) :=
  [.startRun {},
    .parse () (.begin mainUnit.turn.command ⟨true, true, 50, .noInstance⟩ 100),
    .parse () (.addFuncDef ⟨1, ⟨"c:@F@main", "main", false, ⟨1, 8⟩⟩⟩),
    .parse () (.addFuncCall
      ⟨1, ⟨"c:@F@f", "f", false, ⟨1, 9⟩⟩, "c:@F@main", false⟩),
    .sendIndexedResult () [[⟨1, ⟨"c:@F@main", "main", false, ⟨1, 8⟩⟩⟩]]
      [[⟨1, ⟨"c:@F@f", "f", false, ⟨1, 9⟩⟩, "c:@F@main", false⟩]],
    .getStmts (), .dml () ⟨true, fun _ => .success⟩,
    .dml () ⟨true, fun _ => .success⟩, .dml () ⟨true, fun _ => .success⟩]

private theorem exists_mainRun : ∃ s : Numbered crashingProject Unit Unit,
    (numbering id .empty crashingProject Unit Unit []).ReachWhere
      (InRange id .empty) s ∧ s.state.SentFor [mainUnit] ∧
      ∀ batch ∈ s.state.indexed, batch.symbols ⊆ s.state.db.log := by
  have hrun : ((numbering id .empty crashingProject Unit Unit []).runWhere
      (InRange id .empty) (numbering id .empty crashingProject Unit Unit []).init
      mainRun).map (fun s => (s.state.indexed.map Batch.unit,
        decide (∀ batch ∈ s.state.indexed, batch.symbols ⊆ s.state.db.log))) =
      some ([mainUnit.turn.unit], true) :=
    rfl
  obtain ⟨s, hrun, hs⟩ := Option.map_eq_some_iff.mp hrun
  simp only [Prod.mk.injEq, decide_eq_true_eq] at hs
  exact ⟨s, .runWhere .init hrun, hs.1, hs.2⟩

private theorem mainNames_fit : NamesFit id
    (fun usr => if usr = "c:@F@main" then "main" else "f") [mainUnit] where
  defines := by
    rintro usr name ⟨unit, hunit, -, -, event, hevent, occurrence, hdef, -⟩
    obtain rfl := List.mem_singleton.mp hunit
    rcases List.mem_pair.mp hevent with rfl | rfl
    · simp only [IndexEvent.definition, Option.some.injEq, Prod.mk.injEq] at hdef
      obtain ⟨rfl, rfl, -⟩ := hdef
      exact ⟨rfl, rfl, rfl⟩
    · contradiction
  calls _ _ _ _ := ⟨rfl, rfl, rfl⟩

theorem answers_complete_main : ∃ s : Numbered crashingProject Unit Unit,
    AnswersExactly (SomeDefines [mainUnit]) (SomeCalls [mainUnit])
      (s.state.tables id .empty) := by
  obtain ⟨s, hreach, hsent, hstored⟩ := exists_mainRun
  exact ⟨s, answers_complete hreach hsent hstored mainNames_fit⟩

theorem answers_sound_main : ∃ s : State crashingProject Unit Unit,
    AnswersWithin
      (fun usr name => ∃ usr' name', SomeDefines [mainUnit] usr' name' ∧
        id usr' = usr ∧ id name' = name)
      (fun callerUsr usr name => ∃ callerUsr' usr' name',
        SomeCalls [mainUnit] callerUsr' usr' name' ∧ id callerUsr' = callerUsr ∧
          id usr' = usr ∧ id name' = name)
      (s.tables id .empty) := by
  obtain ⟨s, hreach, hsent, -⟩ := exists_mainRun
  exact ⟨s.state, answers_sound (Numbered.state_reachable hreach) hsent⟩

theorem answers_kept_main : ∃ s s' : State crashingProject Unit Unit,
    s.db.log.length = 2 ∧ s'.db.log.length = 3 ∧
      AnswersKept (s.tables id .empty) (s'.tables id .empty) := by
  have hrun : (((indexingFrom crashingProject Unit Unit []).run
      (indexingFrom crashingProject Unit Unit []).init (mainRun.take 8)).bind
        fun s => ((indexingFrom crashingProject Unit Unit []).run s
          (mainRun.drop 8)).map fun s' => (s.db.log.length, s'.db.log.length)) =
      some (2, 3) :=
    rfl
  obtain ⟨s, -, hrest⟩ := Option.bind_eq_some_iff.mp hrun
  obtain ⟨s', hrun', hlengths⟩ := Option.map_eq_some_iff.mp hrest
  simp only [Prod.mk.injEq] at hlengths
  exact ⟨s, s', hlengths.1, hlengths.2, answers_kept hrun'⟩

end Pview.Pipeline
