import Pview.Indexer.SymbolTables
import Pview.Pipeline.System
import Pview.Query.CalleeCaller

/-!
# Confluence of storing

Two histories of runs on one database that store the same batches, whatever
their order, their interleaving and their repetitions, leave tables from which
the queries read the same names.  A repeated indexing has new ids and times,
so batches are compared by their contents.
-/

namespace Pview.Indexer

/-- A definition without what every indexing of it chooses anew. -/
def FuncDef.content (d : FuncDef) : FuncDef where
  id := 0
  info := { d.info with sourceLocation := ⟨0, d.info.sourceLocation.line⟩ }

def FuncCall.content (d : FuncCall) : FuncCall where
  id := 0
  info := { d.info with sourceLocation := ⟨0, d.info.sourceLocation.line⟩ }
  callerUsr := d.callerUsr
  callerMightThrow := d.callerMightThrow

end Pview.Indexer

namespace Pview.Pipeline

open Pview.Foundation
open Pview.Foundation.PrimaryKey
open Pview.Indexer
open Pview.MySQL
open Pview.Query

/-! ## What the queries read -/

def Defines (index : Index) (usr qualified : String) : Prop :=
  ∃ d ∈ index.funcDefinitions, d.usr = usr ∧ d.qualified = qualified

def Calls (index : Index) (callerUsr usr qualified : String) : Prop :=
  ∃ d ∈ index.funcCalls, d.callerUsr = callerUsr ∧ d.usr = usr ∧
    d.qualified = qualified

/-- `search_callpath`, started as in `do_query_callpath`, finds a path. -/
def FindsCallpath (index : Index) (fromFunc toFunc : String) : Prop :=
  ∃ state, Converges (fun frames =>
    searchCallpath index.funcCalls toFunc frames ⟨[], ∅⟩
      (rootCallers
        (queryFuncDefUsrUsingQualified index.funcDefinitions fromFunc)
        fromFunc)) (true, state)

structure SameAnswers (index index' : Index) : Prop where
  calleeOf : ∀ f g, (doQueryCalleeOf (some index) f).Prints g ↔
    (doQueryCalleeOf (some index') f).Prints g
  callerOf : ∀ f g, (doQueryCallerOf (some index) f).Prints g ↔
    (doQueryCallerOf (some index') f).Prints g
  callpath : ∀ f g, FindsCallpath index f g ↔ FindsCallpath index' f g

theorem prints_calleeOf_iff (index : Index) (f g : String) :
    (doQueryCalleeOf (some index) f).Prints g ↔
      ∃ callerUsr, Defines index callerUsr f ∧
        ∃ usr, Calls index callerUsr usr g := by
  rw [doQueryCalleeOf_prints_iff]
  constructor
  · rintro ⟨d, hd, hqualified, c, hc, hcaller, hcallee⟩
    exact ⟨d.usr, ⟨d, hd, rfl, hqualified⟩, c.usr, c, hc, hcaller, rfl, hcallee⟩
  · rintro ⟨_, ⟨d, hd, rfl, hqualified⟩, _, c, hc, hcaller, -, hcallee⟩
    exact ⟨d, hd, hqualified, c, hc, hcaller, hcallee⟩

theorem prints_callerOf_iff (index : Index) (f g : String) :
    (doQueryCallerOf (some index) f).Prints g ↔
      g ≠ "" ∧ ∃ callerUsr, callerUsr ≠ "" ∧ Defines index callerUsr g ∧
        ∃ usr, Calls index callerUsr usr f := by
  rw [doQueryCallerOf_prints_iff]
  constructor
  · rintro ⟨c, hc, hcallee, hcaller, hg, hlatest⟩
    rw [queryFuncDefQualified_eq_iff index hg] at hlatest
    exact ⟨hg, c.callerUsr, hcaller, hlatest, c.usr, c, hc, rfl, rfl, hcallee⟩
  · rintro ⟨hg, _, hcaller, hdefines, _, c, hc, rfl, -, hcallee⟩
    have hlatest := (queryFuncDefQualified_eq_iff index hg).mpr hdefines
    exact ⟨c, hc, hcallee, hcaller, hg, hlatest⟩

theorem findsCallpath_iff (index : Index) (f g : String) :
    FindsCallpath index f g ↔
      Connected index.funcCalls
        (queryFuncDefUsrUsingQualified index.funcDefinitions f) g := by
  obtain ⟨out, hruns, hconverges⟩ := searchCallpath_converges index.funcCalls g
    (queryFuncDefUsrUsingQualified index.funcDefinitions f) f []
  have hfound : (reportOf g [] out).1 = true ↔ _ := searchCallpath_found hruns
  rw [← hfound]
  constructor
  · rintro ⟨state, hstate⟩
    rw [hconverges.unique hstate]
  · intro htrue
    refine ⟨(reportOf g [] out).2, ?_⟩
    rw [← htrue]
    exact hconverges

/-- The names in the rows are all that the three queries look at. -/
theorem sameAnswers_of_names {index index' : Index}
    (hdefines : ∀ usr qualified,
      Defines index usr qualified ↔ Defines index' usr qualified)
    (hcalls : ∀ callerUsr usr qualified, Calls index callerUsr usr qualified ↔
      Calls index' callerUsr usr qualified) : SameAnswers index index' where
  calleeOf f g := by simp only [prints_calleeOf_iff, hdefines, hcalls]
  callerOf f g := by simp only [prints_callerOf_iff, hdefines, hcalls]
  callpath f g := by
    have hroots : ∀ usr,
        usr ∈ queryFuncDefUsrUsingQualified index.funcDefinitions f ↔
          usr ∈ queryFuncDefUsrUsingQualified index'.funcDefinitions f := by
      intro usr
      simpa [queryFuncDefUsrUsingQualified, Defines, and_comm, and_assoc]
        using hdefines usr f
    have hedge : ∀ u v, (∃ row ∈ index.funcCalls, row.callerUsr = u ∧
        row.usr = v) ↔ ∃ row ∈ index'.funcCalls, row.callerUsr = u ∧
          row.usr = v := by
      intro u v
      simpa [Calls] using exists_congr (hcalls u v)
    have hlast : ∀ u, (∃ row ∈ index.funcCalls, row.callerUsr = u ∧
        row.qualified = g) ↔ ∃ row ∈ index'.funcCalls, row.callerUsr = u ∧
          row.qualified = g := by
      intro u
      simpa [Calls] using exists_congr fun v => hcalls u v g
    simp only [findsCallpath_iff, Connected, CallReach, hroots, hedge, hlast]

/-! ## Histories -/

variable {project : Project} {P C : Type*}

def indexingFrom (project : Project) (P C : Type*) [DecidableEq P]
    [DecidableEq C] (rows : List FilepathRow) :
    System (State project P C) (Action P C) where
  init := { State.empty project P C with db := ⟨rows, []⟩ }
  step := State.step

structure Content where
  filepath : String
  funcDefs : List FuncDef
  funcCalls : List FuncCall
  deriving DecidableEq

def Batch.content (batch : Batch project) : Content where
  filepath := batch.unit.task.currentFilepath
  funcDefs := batch.defGroups.flatten.map FuncDef.content
  funcCalls := batch.callGroups.flatten.map FuncCall.content

/-- The history has stored all of its batches: no call of them has the id of
another one, their names fit the columns, and `qualifiedOf` has the one
qualified name of each USR. -/
structure State.Stores (column qualifiedOf : String → String) (index : Index)
    (s : State project P C) : Prop where
  stored : ∀ batch ∈ s.indexed, batch.symbols ⊆ s.db.log
  callIds : ((index.funcCalls ++ funcCallRowsOf column s.db.log).map
    FuncCallRow.funcCallId).Nodup
  oldNames : ∀ d ∈ index.funcDefinitions, d.qualified = qualifiedOf d.usr
  defNames : ∀ batch ∈ s.indexed, ∀ d ∈ batch.defGroups.flatten,
    d.info.qualified = qualifiedOf d.info.usr ∧
      column d.info.usr = d.info.usr ∧
      column d.info.qualified = d.info.qualified
  callNames : ∀ batch ∈ s.indexed, ∀ d ∈ batch.callGroups.flatten,
    column d.callerUsr = d.callerUsr ∧ column d.info.usr = d.info.usr ∧
      column d.info.qualified = d.info.qualified

instance (column qualifiedOf : String → String) (index : Index)
    (s : State project P C) :
    Decidable (s.Stores column qualifiedOf index) :=
  decidable_of_iff ((∀ batch ∈ s.indexed, batch.symbols ⊆ s.db.log) ∧
      ((index.funcCalls ++ funcCallRowsOf column s.db.log).map
        FuncCallRow.funcCallId).Nodup ∧
      (∀ d ∈ index.funcDefinitions, d.qualified = qualifiedOf d.usr) ∧
      (∀ batch ∈ s.indexed, ∀ d ∈ batch.defGroups.flatten,
        d.info.qualified = qualifiedOf d.info.usr ∧
          column d.info.usr = d.info.usr ∧
          column d.info.qualified = d.info.qualified) ∧
      ∀ batch ∈ s.indexed, ∀ d ∈ batch.callGroups.flatten,
        column d.callerUsr = d.callerUsr ∧ column d.info.usr = d.info.usr ∧
          column d.info.qualified = d.info.qualified)
    ⟨fun h => ⟨h.1, h.2.1, h.2.2.1, h.2.2.2.1, h.2.2.2.2⟩,
      fun h => ⟨h.stored, h.callIds, h.oldNames, h.defNames, h.callNames⟩⟩

/-! ## Where the rows come from -/

structure State.Sent (s : State project P C) : Prop where
  queued : s.queue ⊆ s.indexed
  storing : ∀ c batch n, s.storers c = .storing batch n → batch ∈ s.indexed
  logged : ∀ stmt ∈ s.db.log, (∃ batch ∈ s.indexed, stmt ∈ batch.symbols) ∨
    ∃ filepathId filepath createTime,
      stmt = .replaceFilepath filepathId filepath createTime

namespace State

variable {s s' : State project P C}

theorem Sent.frame (h : s.Sent) (hdb : s'.db = s.db)
    (hindexed : s.indexed ⊆ s'.indexed) (hqueue : s'.queue ⊆ s'.indexed)
    (hstoring : ∀ c batch n, s'.storers c = .storing batch n →
      batch ∈ s'.indexed) : s'.Sent where
  queued := hqueue
  storing := hstoring
  logged := by
    rw [hdb]
    intro stmt hstmt
    refine (h.logged stmt hstmt).imp_left ?_
    rintro ⟨batch, hbatch, hsymbol⟩
    exact ⟨batch, hindexed hbatch, hsymbol⟩

theorem Sent.dml {retryCount : Int} {reply : Reply} {stmt : Statement}
    (h : s.Sent) (hdb : s'.db = s.db.dml project.stored retryCount reply stmt)
    (hindexed : s'.indexed = s.indexed) (hqueue : s'.queue = s.queue)
    (hstoring : ∀ c batch n, s'.storers c = .storing batch n →
      batch ∈ s.indexed)
    (hstmt : (∃ batch ∈ s.indexed, stmt ∈ batch.symbols) ∨
      ∃ filepathId filepath createTime,
        stmt = .replaceFilepath filepathId filepath createTime) :
    s'.Sent where
  queued := by
    rw [hqueue, hindexed]
    exact h.queued
  storing := by
    rw [hindexed]
    exact hstoring
  logged := by
    rw [hdb, hindexed, Database.log_dml]
    intro sent hsent
    rw [List.mem_append] at hsent
    rcases hsent with hold | hnew
    · exact h.logged sent hold
    · rw [eq_of_mem_executed hnew]
      exact hstmt

variable [DecidableEq P] [DecidableEq C]

theorem Sent.step {action : Action P C} (h : s.Sent)
    (hstep : s.step action = some s') : s'.Sent := by
  cases State.effect_of_step hstep with
  | startRun flags =>
      exact h.frame rfl (List.Subset.refl _) (List.nil_subset _)
        (by simp [State.startRun])
  | parse => exact h.frame rfl (List.Subset.refl _) h.queued h.storing
  | assignFileId p mtime reply unit filepath fnId was =>
      exact h.dml rfl rfl rfl h.storing (.inr ⟨fnId, filepath, mtime, rfl⟩)
  | sendIndexedResult p batch =>
      refine h.frame rfl (List.subset_append_left _ _) ?_ ?_
      · intro old hold
        rw [List.mem_append] at hold ⊢
        exact hold.imp_left fun hqueued => h.queued hqueued
      · intro c old n hstoring
        exact List.mem_append_left _ (h.storing c old n hstoring)
  | getStmts c batch rest was head =>
      have hbatches : batch :: rest ⊆ s.indexed := by
        rw [← head]
        exact h.queued
      refine h.frame rfl (List.Subset.refl _)
        (List.subset_of_cons_subset hbatches) ?_
      intro c' batch' n hstoring
      rcases update_eq_cases hstoring with ⟨-, hnew⟩ | hold
      · cases hnew
        exact hbatches List.mem_cons_self
      · exact h.storing c' batch' n hold
  | dml c reply batch n stmt was next =>
      have hbatch := h.storing c batch n was
      refine h.dml rfl rfl rfl ?_ ?_
      · intro c' batch' m hstoring
        rcases update_eq_cases hstoring with ⟨-, hnew⟩ | hold
        · rw [Storer.batch_of_next hnew]
          exact hbatch
        · exact h.storing c' batch' m hold
      · rcases Batch.stmts_getElem next with hsymbol | ⟨-, rfl⟩
        · exact .inl ⟨batch, hbatch, List.mem_of_getElem? hsymbol⟩
        · exact .inr ⟨_, _, _, rfl⟩

theorem Sent.of_reachable {rows : List FilepathRow}
    (h : (indexingFrom project P C rows).Reachable s) : s.Sent := by
  apply System.ReachWhere.invariant (I := State.Sent) _ _ h
  · constructor <;> simp [indexingFrom, empty]
  · intro s s' action hs _ hstep
    exact hs.step hstep

end State

theorem mem_rows_iff {ρ : Type*} {rowsOf : Statement → List ρ}
    (hmarker : ∀ filepathId filepath createTime,
      rowsOf (.replaceFilepath filepathId filepath createTime) = [])
    {s : State project P C} (hsent : s.Sent)
    (hstored : ∀ batch ∈ s.indexed, batch.symbols ⊆ s.db.log) {row : ρ} :
    row ∈ s.db.log.flatMap rowsOf ↔
      ∃ batch ∈ s.indexed, row ∈ batch.symbols.flatMap rowsOf := by
  constructor
  · intro hrow
    obtain ⟨stmt, hstmt, hrow⟩ := List.mem_flatMap.mp hrow
    rcases hsent.logged stmt hstmt with
      ⟨batch, hbatch, hsymbol⟩ | ⟨filepathId, filepath, createTime, rfl⟩
    · exact ⟨batch, hbatch, List.mem_flatMap.mpr ⟨stmt, hsymbol, hrow⟩⟩
    · rw [hmarker] at hrow
      contradiction
  · rintro ⟨batch, hbatch, hrow⟩
    obtain ⟨stmt, hsymbol, hrow⟩ := List.mem_flatMap.mp hrow
    exact List.mem_flatMap.mpr ⟨stmt, hstored batch hbatch hsymbol, hrow⟩

theorem Batch.funcDefRowsOf_symbols (column : String → String)
    (batch : Batch project) :
    funcDefRowsOf column batch.symbols =
      batch.defGroups.flatten.map
        (FuncDef.row column batch.unit.task.currentTime) := by
  simp [funcDefRowsOf, Batch.symbols, List.flatMap_def, Function.comp_def,
    Statement.funcDefRows, List.map_flatten]

theorem Batch.funcCallRowsOf_symbols (column : String → String)
    (batch : Batch project) :
    funcCallRowsOf column batch.symbols =
      batch.callGroups.flatten.map
        (FuncCall.row column batch.unit.task.currentTime) := by
  simp [funcCallRowsOf, Batch.symbols, List.flatMap_def, Function.comp_def,
    Statement.funcCallRows, List.map_flatten]

/-! ## The names that a history leaves -/

def State.contents (s : State project P C) : List Content :=
  s.indexed.map Batch.content

def Content.Defines (content : Content) (usr qualified : String) : Prop :=
  ∃ d ∈ content.funcDefs, d.info.usr = usr ∧ d.info.qualified = qualified

def Content.Calls (content : Content) (callerUsr usr qualified : String) :
    Prop :=
  ∃ d ∈ content.funcCalls, d.callerUsr = callerUsr ∧ d.info.usr = usr ∧
    d.info.qualified = qualified

section Names

variable {column qualifiedOf : String → String} {index : Index}
  {s : State project P C}

theorem defines_iff (hsent : s.Sent)
    (hstores : s.Stores column qualifiedOf index) (usr qualified : String) :
    Defines (executeLog column index s.db.log) usr qualified ↔
      Defines index usr qualified ∨
        ∃ content ∈ s.contents, content.Defines usr qualified := by
  have hrows : ∀ row, row ∈ funcDefRowsOf column s.db.log ↔
      ∃ batch ∈ s.indexed, ∃ d ∈ batch.defGroups.flatten,
        d.row column batch.unit.task.currentTime = row := by
    intro row
    simp only [← List.mem_map, ← Batch.funcDefRowsOf_symbols]
    exact mem_rows_iff (fun _ _ _ => rfl) hsent hstores.stored
  have hnames : ∀ row ∈ index.funcDefinitions ++ funcDefRowsOf column s.db.log,
      row.qualified = qualifiedOf row.usr := by
    intro row hrow
    rw [List.mem_append, hrows] at hrow
    rcases hrow with hold | ⟨batch, hbatch, d, hd, rfl⟩
    · exact hstores.oldNames row hold
    · have hd := hstores.defNames batch hbatch d hd
      calc column d.info.qualified
        _ = d.info.qualified := hd.2.2
        _ = qualifiedOf d.info.usr := hd.1
        _ = qualifiedOf (column d.info.usr) := by rw [hd.2.1]
  have hnew : (∃ row ∈ funcDefRowsOf column s.db.log,
      row.usr = usr ∧ row.qualified = qualified) ↔
        ∃ content ∈ s.contents, content.Defines usr qualified := by
    simp only [hrows, State.contents, List.mem_map, exists_exists_and_eq_and,
      Content.Defines, Batch.content]
    constructor
    · rintro ⟨_, ⟨batch, hbatch, d, hd, rfl⟩, husr, hqualified⟩
      have hfits := (hstores.defNames batch hbatch d hd).2
      exact ⟨batch, hbatch, d, hd, hfits.1 ▸ husr, hfits.2 ▸ hqualified⟩
    · rintro ⟨batch, hbatch, d, hd, husr, hqualified⟩
      have hfits := (hstores.defNames batch hbatch d hd).2
      exact ⟨_, ⟨batch, hbatch, d, hd, rfl⟩, hfits.1.trans husr,
        hfits.2.trans hqualified⟩
  calc Defines (executeLog column index s.db.log) usr qualified
    _ ↔ ∃ row ∈ index.funcDefinitions ++ funcDefRowsOf column s.db.log,
        row.usr = usr ∧ row.qualified = qualified := by
      rw [Defines, funcDefinitions_executeLog]
      apply exists_mem_insertAllIgnore_iff
      rintro row hrow row' hrow' hkey ⟨husr, hqualified⟩
      rw [hnames row hrow] at hqualified
      rw [hnames row' hrow', ← hkey]
      exact ⟨husr, hqualified⟩
    _ ↔ _ := by
      simp only [List.mem_append, or_and_right, exists_or, hnew, Defines]

theorem calls_iff (hsent : s.Sent)
    (hstores : s.Stores column qualifiedOf index)
    (callerUsr usr qualified : String) :
    Calls (executeLog column index s.db.log) callerUsr usr qualified ↔
      Calls index callerUsr usr qualified ∨
        ∃ content ∈ s.contents, content.Calls callerUsr usr qualified := by
  have hrows : ∀ row, row ∈ funcCallRowsOf column s.db.log ↔
      ∃ batch ∈ s.indexed, ∃ d ∈ batch.callGroups.flatten,
        d.row column batch.unit.task.currentTime = row := by
    intro row
    simp only [← List.mem_map, ← Batch.funcCallRowsOf_symbols]
    exact mem_rows_iff (fun _ _ _ => rfl) hsent hstores.stored
  have hnew : (∃ row ∈ funcCallRowsOf column s.db.log,
      row.callerUsr = callerUsr ∧ row.usr = usr ∧ row.qualified = qualified) ↔
        ∃ content ∈ s.contents, content.Calls callerUsr usr qualified := by
    simp only [hrows, State.contents, List.mem_map, exists_exists_and_eq_and,
      Content.Calls, Batch.content]
    constructor
    · rintro ⟨_, ⟨batch, hbatch, d, hd, rfl⟩, hcaller, husr, hqualified⟩
      have hfits := hstores.callNames batch hbatch d hd
      exact ⟨batch, hbatch, d, hd, hfits.1 ▸ hcaller, hfits.2.1 ▸ husr,
        hfits.2.2 ▸ hqualified⟩
    · rintro ⟨batch, hbatch, d, hd, hcaller, husr, hqualified⟩
      have hfits := hstores.callNames batch hbatch d hd
      exact ⟨_, ⟨batch, hbatch, d, hd, rfl⟩, hfits.1.trans hcaller,
        hfits.2.1.trans husr, hfits.2.2.trans hqualified⟩
  rw [Calls, funcCalls_executeLog, insertAllIgnore_of_nodup hstores.callIds]
  simp only [List.mem_append, or_and_right, exists_or, hnew, Calls]

end Names

/--
Histories that store the same batches answer alike: definitions are first
come, but a USR always comes with the same name, and no call is ignored.
-/
theorem storing_confluent {P₁ C₁ P₂ C₂ : Type*} [DecidableEq P₁]
    [DecidableEq C₁] [DecidableEq P₂] [DecidableEq C₂]
    {column qualifiedOf : String → String} {rows : List FilepathRow}
    {index : Index} {s₁ : State project P₁ C₁} {s₂ : State project P₂ C₂}
    (hreach₁ : (indexingFrom project P₁ C₁ rows).Reachable s₁)
    (hreach₂ : (indexingFrom project P₂ C₂ rows).Reachable s₂)
    (hstores₁ : s₁.Stores column qualifiedOf index)
    (hstores₂ : s₂.Stores column qualifiedOf index)
    (hsame : ∀ content, content ∈ s₁.contents ↔ content ∈ s₂.contents) :
    SameAnswers (executeLog column index s₁.db.log)
      (executeLog column index s₂.db.log) := by
  have hsent₁ := State.Sent.of_reachable hreach₁
  have hsent₂ := State.Sent.of_reachable hreach₂
  apply sameAnswers_of_names
  · intro usr qualified
    rw [defines_iff hsent₁ hstores₁, defines_iff hsent₂ hstores₂]
    simp only [hsame]
  · intro callerUsr usr qualified
    rw [calls_iff hsent₁ hstores₁, calls_iff hsent₂ hstores₂]
    simp only [hsame]

def callingCommand : CompileCommand := ⟨"/p", "/p/main.cc", ["c++", "main.cc"]⟩

def callingProject : Project := ⟨"/p/", [callingCommand], id⟩

def callingDef (n : Nat) : FuncDef :=
  ⟨2 * n + 1, ⟨"c:@F@main", "main", false, ⟨n, 8⟩⟩⟩

def callingCall (n : Nat) : FuncCall :=
  ⟨2 * n + 2, ⟨"c:@F@f", "f", false, ⟨n, 9⟩⟩, "c:@F@main", false⟩

def callingRun (n : Nat) (mtime time : Int) : List (Action Unit Unit) :=
  [.startRun {},
    .parse () (.begin callingCommand ⟨true, true, mtime, .noInstance⟩ time),
    .parse () (.addFuncDef (callingDef n)),
    .parse () (.addFuncCall (callingCall n)),
    .sendIndexedResult () [[callingDef n]] [[callingCall n]], .getStmts (),
    .dml () ⟨true, fun _ => .success⟩, .dml () ⟨true, fun _ => .success⟩,
    .dml () ⟨true, fun _ => .success⟩]

def callingContent : Content :=
  ⟨"main.cc", [(callingDef 0).content], [(callingCall 0).content]⟩

/-- The second history stores the unit twice. -/
theorem storing_confluent_repeated :
    ∃ s₁ s₂ : State callingProject Unit Unit,
      s₁.db.log.length = 3 ∧ s₂.db.log.length = 6 ∧
        SameAnswers (executeLog id .empty s₁.db.log)
          (executeLog id .empty s₂.db.log) := by
  have hrun₁ : ((indexingFrom callingProject Unit Unit []).run
      (indexingFrom callingProject Unit Unit []).init
      (callingRun 1 50 100)).map (fun s =>
        (decide (s.Stores id (fun _ => "main") .empty), s.contents,
          s.db.log.length)) =
      some (true, [callingContent], 3) := by
    decide +kernel
  have hrun₂ : ((indexingFrom callingProject Unit Unit []).run
      (indexingFrom callingProject Unit Unit []).init
      (callingRun 1 50 100 ++ callingRun 2 150 200)).map (fun s =>
        (decide (s.Stores id (fun _ => "main") .empty), s.contents,
          s.db.log.length)) =
      some (true, [callingContent, callingContent], 6) := by
    decide +kernel
  obtain ⟨s₁, hrun₁, hs₁⟩ := Option.map_eq_some_iff.mp hrun₁
  obtain ⟨s₂, hrun₂, hs₂⟩ := Option.map_eq_some_iff.mp hrun₂
  simp only [Prod.mk.injEq, decide_eq_true_eq] at hs₁ hs₂
  refine ⟨s₁, s₂, hs₁.2.2, hs₂.2.2, ?_⟩
  apply storing_confluent (.of_run hrun₁) (.of_run hrun₂) hs₁.1 hs₂.1
  rw [hs₁.2.1, hs₂.2.1]
  simp

end Pview.Pipeline
