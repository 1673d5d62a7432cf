import Pview.Foundation.Fuel
import Pview.Foundation.Groups
import Pview.Indexer.SQL

/-!
# The batch of a translation unit

`send_indexed_result` turns the accumulated definitions and calls into
multi-row inserts of bounded size and adds the row of the main file.  The two
generators differ in their list, the rows they skip and their templates, and
share the loop.  The `while` loops around them end only if every call of a
generator makes progress, hence the fuel.
-/

namespace Pview.Indexer

open Pview.Foundation
open Pview.MySQL

variable {α : Type*}

/-- `FLAGS_db_update_batch_size` as the comparison with a `size_t` reads it. -/
def batchLimit (flag : Int) : Nat :=
  (flag % 2 ^ 64).toNat

def batchLoop (limit : Nat) (skipped : α → Bool) (header : String)
    (appendValue : α → String) : List α → Nat → Nat → String → String × Nat
  | [], n, _, oss => (oss, n)
  | d :: rest, n, appended, oss =>
      if appended < limit then
        if skipped d then
          batchLoop limit skipped header appendValue rest (n + 1) appended oss
        else
          let separator := if appended = 0 then header else ", "
          batchLoop limit skipped header appendValue rest (n + 1)
            (appended + 1) (oss ++ separator ++ appendValue d)
      else
        (oss, n)

def genBatchUpdateStmt (limit : Nat) (skipped : α → Bool) (header : String)
    (appendValue : α → String) (symbols : List α) (start : Nat) :
    String × Nat :=
  batchLoop limit skipped header appendValue (symbols.drop start) start 0 ""

def stmtsLoop (gen : Nat → String × Nat) (size : Nat) :
    Nat → Nat → List String → Option (List String)
  | 0, _, _ => none
  | fuel + 1, start, stmts =>
      if start < size then
        let (stmt, next) := gen start
        stmtsLoop gen size fuel next
          (if stmt.isEmpty then stmts else stmts ++ [stmt])
      else
        some stmts

structure ParseTask where
  funcDefs : List FuncDef
  funcCalls : List FuncCall
  currentTime : Int
  currentFilepath : String
  currentFilepathId : Int

def FuncDef.skipped (d : FuncDef) : Bool :=
  d.info.usr.isEmpty || d.info.qualified.isEmpty ||
    decide (d.info.sourceLocation.fileId < 0)

def FuncCall.skipped (d : FuncCall) : Bool :=
  d.callerUsr.isEmpty || decide (d.info.sourceLocation.fileId < 0)

namespace ParseTask

variable (names : TableNames) (flag : Int) (task : ParseTask)

def appendIndexedFuncDefsValue (d : FuncDef) : String :=
  render (sqlFuncDefInsertParam task.currentTime d)

def genBatchUpdateFuncDefsStmt (start : Nat) : String × Nat :=
  genBatchUpdateStmt (batchLimit flag) FuncDef.skipped
    (render (sqlFuncDefInsertHeader names)) task.appendIndexedFuncDefsValue
    task.funcDefs start

def appendIndexedFuncCallsValue (d : FuncCall) : String :=
  render (sqlFuncCallInsertParam task.currentTime d)

def genBatchUpdateFuncCallsStmt (start : Nat) : String × Nat :=
  genBatchUpdateStmt (batchLimit flag) FuncCall.skipped
    (render (sqlFuncCallInsertHeader names)) task.appendIndexedFuncCallsValue
    task.funcCalls start

def replaceFilepathStmt : String :=
  render (sqlReplaceFilepath names task.currentFilepathId
    task.currentFilepath task.currentTime)

def clearCurrentTranslationUnitResult : ParseTask :=
  { task with funcDefs := [], funcCalls := [] }

/-- The statements handed to `add_stmts`, and the task afterwards. -/
def sendIndexedResult (fuel : Nat) : Option (List String × ParseTask) :=
  (stmtsLoop (task.genBatchUpdateFuncDefsStmt names flag)
      task.funcDefs.length fuel 0 []).bind fun stmts =>
    (stmtsLoop (task.genBatchUpdateFuncCallsStmt names flag)
        task.funcCalls.length fuel 0 stmts).map fun stmts =>
      (stmts ++ [task.replaceFilepathStmt names],
        task.clearCurrentTranslationUnitResult)

end ParseTask

/-! ## The text of a batched insert -/

def appendedText (header : String) : Nat → List String → String
  | _, [] => ""
  | appended, row :: rows =>
      (if appended = 0 then header else ", ") ++ row ++
        appendedText header (appended + 1) rows

private theorem render_joinRows (header : String) (row : List Piece)
    (rows : List (List Piece)) (appended : Nat) :
    render (joinRows (row :: rows)) =
      render row ++ appendedText header (appended + 1) (rows.map render) := by
  induction rows generalizing row appended with
  | nil => simp [joinRows, appendedText]
  | cons next rows ih =>
      rw [joinRows, render_append, render, ih next (appended + 1)]
      · simp [appendedText, Piece.render, String.append_assoc]
      · simp

theorem appendedText_eq_render (header : List Piece)
    {rows : List (List Piece)} (hrows : rows ≠ []) :
    appendedText (render header) 0 (rows.map render) =
      render (header ++ joinRows rows) := by
  cases rows with
  | nil => contradiction
  | cons row rows =>
      rw [render_append, render_joinRows (render header) row rows 0]
      simp [appendedText, String.append_assoc]

/-! ## One call of a generator -/

section Generator

variable {limit : Nat} (skipped : α → Bool) (header : String)
  (appendValue : α → String)

/-- The loop takes symbols as long as there is room for another row. -/
theorem batchLoop_eq (symbols : List α) (n appended : Nat) (oss : String)
    (hroom : appended ≤ limit) :
    ∃ taken left rows, symbols = taken ++ left ∧
      rows = taken.filter (fun d => !skipped d) ∧
      batchLoop limit skipped header appendValue symbols n appended oss =
        (oss ++ appendedText header appended (rows.map appendValue),
          n + taken.length) ∧
      appended + rows.length ≤ limit ∧
      (left ≠ [] → appended + rows.length = limit) := by
  induction symbols generalizing n appended oss with
  | nil => exact ⟨[], [], [], by simp [batchLoop, appendedText, hroom]⟩
  | cons d symbols ih =>
      by_cases hlt : appended < limit
      · cases hskip : skipped d with
        | true =>
            obtain ⟨taken, left, rows, hsymbols, hrows, hloop, hle, hleft⟩ :=
              ih (n + 1) appended oss hroom
            refine ⟨d :: taken, left, rows, by simp [hsymbols],
              by simp [hrows, hskip], ?_, hle, hleft⟩
            rw [batchLoop, if_pos hlt, if_pos hskip, hloop]
            simp
            omega
        | false =>
            obtain ⟨taken, left, rows, hsymbols, hrows, hloop, hle, hleft⟩ :=
              ih (n + 1) (appended + 1)
                (oss ++ (if appended = 0 then header else ", ") ++
                  appendValue d) hlt
            refine ⟨d :: taken, left, d :: rows, by simp [hsymbols],
              by simp [hrows, hskip], ?_, ?_, ?_⟩
            · simp only [batchLoop, if_pos hlt, hskip, Bool.false_eq_true,
                if_false]
              rw [hloop]
              simp only [List.map_cons, appendedText, String.append_assoc,
                List.length_cons, Prod.mk.injEq, true_and]
              omega
            · simp only [List.length_cons]
              omega
            · intro hne
              have hfull := hleft hne
              simp only [List.length_cons]
              omega
      · refine ⟨[], d :: symbols, [], rfl, rfl, ?_, by simp [hroom], ?_⟩
        · simp [batchLoop, hlt, appendedText]
        · intro _
          simp only [List.length_nil]
          omega

/-- A call takes at least one symbol, and its statement has `limit` rows unless
no row is left for a later one. -/
theorem genBatchUpdateStmt_eq (hlimit : 0 < limit) {symbols : List α}
    {start : Nat} (hstart : start < symbols.length) :
    ∃ rows next,
      genBatchUpdateStmt limit skipped header appendValue symbols start =
        (appendedText header 0 (rows.map appendValue), next) ∧
      start < next ∧ rows.length ≤ limit ∧
      (symbols.drop start).filter (fun d => !skipped d) =
        rows ++ (symbols.drop next).filter (fun d => !skipped d) ∧
      ((symbols.drop next).filter (fun d => !skipped d) ≠ [] →
        rows.length = limit) := by
  obtain ⟨taken, left, rows, hsymbols, hrows, hloop, hle, hleft⟩ :=
    batchLoop_eq skipped header appendValue (symbols.drop start) start 0 ""
      (Nat.zero_le limit)
  have hdrop : symbols.drop (start + taken.length) = left := by
    rw [← List.drop_drop, hsymbols, List.drop_left]
  have htaken : taken ≠ [] := by
    intro hnil
    have hne : left ≠ [] := by
      rw [hnil, List.nil_append] at hsymbols
      rw [← hsymbols, Ne, List.drop_eq_nil_iff]
      omega
    have hfull := hleft hne
    simp only [hrows, hnil, List.filter_nil, List.length_nil] at hfull
    omega
  refine ⟨rows, start + taken.length, ?_, ?_, by omega, ?_, ?_⟩
  · rw [genBatchUpdateStmt, hloop, String.empty_append]
  · have hpos := List.length_pos_iff.mpr htaken
    omega
  · rw [hdrop, hsymbols, List.filter_append, hrows]
  · intro hmore
    have hne : left ≠ [] := by
      rintro rfl
      simp [hdrop] at hmore
    have hfull := hleft hne
    omega

/-! ## The loop over the calls -/

private theorem appendedText_isEmpty {header : String} (hheader : header ≠ "")
    (rows : List String) :
    (appendedText header 0 rows).isEmpty = rows.isEmpty := by
  cases rows with
  | nil => rfl
  | cons row rows => simp [appendedText, hheader]

/-- With room for a row every call makes progress, and the groups of rows are
a cut of the symbols that are not skipped. -/
theorem stmtsLoop_converges (hlimit : 0 < limit) (hheader : header ≠ "")
    (symbols : List α) (start : Nat) (stmts : List String) :
    ∃ groups,
      CutInto limit ((symbols.drop start).filter fun d => !skipped d)
        groups ∧
      Converges (fun fuel => stmtsLoop
        (genBatchUpdateStmt limit skipped header appendValue symbols)
        symbols.length fuel start stmts)
        (stmts ++ groups.map fun rows =>
          appendedText header 0 (rows.map appendValue)) := by
  induction hremaining : symbols.length - start using Nat.strong_induction_on
    generalizing start stmts with
  | _ remaining ih =>
      by_cases hlt : start < symbols.length
      · obtain ⟨rows, next, hstmt, hnext, hle, hfilter, hfull⟩ :=
          genBatchUpdateStmt_eq skipped header appendValue hlimit hlt
        have ihnext := ih (symbols.length - next) (by omega) next
        rw [hfilter]
        cases rows with
        | nil =>
            obtain ⟨groups, hcut, hconverges⟩ := ihnext stmts rfl
            refine ⟨groups, hcut, hconverges.of_succ fun fuel => ?_⟩
            rw [stmtsLoop, if_pos hlt, hstmt]
            rfl
        | cons row rows =>
            obtain ⟨groups, hcut, hconverges⟩ := ihnext
              (stmts ++
                [appendedText header 0 ((row :: rows).map appendValue)]) rfl
            refine ⟨(row :: rows) :: groups, hcut.cons (by simp) hle hfull,
              ?_⟩
            rw [List.map_cons, List.append_cons]
            refine hconverges.of_succ fun fuel => ?_
            rw [stmtsLoop, if_pos hlt, hstmt]
            simp only [appendedText_isEmpty hheader]
            rfl
      · refine ⟨[], ?_, .of_const fun fuel => ?_⟩
        · rw [List.drop_of_length_le (by omega)]
          exact .nil limit
        · simp [stmtsLoop, hlt]

theorem stmtsLoop_of_cut {symbols : List α} {groups : List (List α)}
    {text : List α → String} (hlimit : limit ≠ 0 ∨ symbols = [])
    (hheader : header ≠ "")
    (htext : ∀ rows, rows ≠ [] →
      appendedText header 0 (rows.map appendValue) = text rows)
    (hcut : CutInto limit (symbols.filter fun d => !skipped d) groups)
    (stmts : List String) :
    Converges (fun fuel => stmtsLoop
      (genBatchUpdateStmt limit skipped header appendValue symbols)
      symbols.length fuel 0 stmts) (stmts ++ groups.map text) := by
  rcases hlimit with hlimit | rfl
  · obtain ⟨groups', hcut', hconverges⟩ := stmtsLoop_converges skipped header
      appendValue (Nat.pos_of_ne_zero hlimit) hheader symbols 0 stmts
    have hgroups : groups' = groups := hcut'.unique hcut
    have hsame : (groups.map fun rows =>
        appendedText header 0 (rows.map appendValue)) = groups.map text :=
      List.map_congr_left fun rows hrows =>
        htext rows (hcut.nonempty rows hrows)
    rwa [hgroups, hsame] at hconverges
  · have hgroups : groups = [] := hcut.unique (.nil limit)
    rw [hgroups, List.map_nil, List.append_nil]
    exact .of_const fun fuel => by simp [stmtsLoop]

theorem stmtsLoop_mono (gen : Nat → String × Nat) (size start : Nat)
    (stmts : List String) :
    FuelMono fun fuel => stmtsLoop gen size fuel start stmts := by
  intro fuel
  induction fuel generalizing start stmts with
  | zero =>
      intro out h
      contradiction
  | succ fuel ih =>
      intro out h
      simp only [stmtsLoop] at h ⊢
      split at h
      · rename_i hlt
        rw [if_pos hlt]
        exact ih _ _ out h
      · rename_i hge
        rw [if_neg hge]
        exact h

theorem stmtsLoop_hangs {symbols : List α} (hsymbols : symbols ≠ [])
    (fuel : Nat) (stmts : List String) :
    stmtsLoop (genBatchUpdateStmt 0 skipped header appendValue symbols)
      symbols.length fuel 0 stmts = none := by
  induction fuel with
  | zero => rfl
  | succ fuel ih =>
      have hgen : genBatchUpdateStmt 0 skipped header appendValue symbols 0 =
          ("", 0) := by
        cases symbols with
        | nil => contradiction
        | cons d symbols => simp [genBatchUpdateStmt, batchLoop]
      rw [stmtsLoop, if_pos (List.length_pos_iff.mpr hsymbols), hgen]
      exact ih

end Generator

/-! ## The whole batch -/

private theorem appendedText_func_defs (names : TableNames) (task : ParseTask)
    {rows : List FuncDef} (hrows : rows ≠ []) :
    appendedText (render (sqlFuncDefInsertHeader names)) 0
        (rows.map task.appendIndexedFuncDefsValue) =
      (Statement.insertFuncDefs task.currentTime rows).text names := by
  unfold Statement.text Statement.pieces
  rw [← appendedText_eq_render _ (by simpa using hrows), List.map_map]
  rfl

private theorem appendedText_func_calls (names : TableNames)
    (task : ParseTask) {rows : List FuncCall} (hrows : rows ≠ []) :
    appendedText (render (sqlFuncCallInsertHeader names)) 0
        (rows.map task.appendIndexedFuncCallsValue) =
      (Statement.insertFuncCalls task.currentTime rows).text names := by
  unfold Statement.text Statement.pieces
  rw [← appendedText_eq_render _ (by simpa using hrows), List.map_map]
  rfl

def ParseTask.batch (task : ParseTask) (defGroups : List (List FuncDef))
    (callGroups : List (List FuncCall)) : List Statement :=
  defGroups.map (.insertFuncDefs task.currentTime) ++
    callGroups.map (.insertFuncCalls task.currentTime) ++
    [.replaceFilepath task.currentFilepathId task.currentFilepath
      task.currentTime]

theorem ParseTask.text_batch (names : TableNames) (task : ParseTask)
    (defGroups : List (List FuncDef)) (callGroups : List (List FuncCall)) :
    (task.batch defGroups callGroups).map (Statement.text names) =
      (defGroups.map fun rows =>
        (Statement.insertFuncDefs task.currentTime rows).text names) ++
      (callGroups.map fun rows =>
        (Statement.insertFuncCalls task.currentTime rows).text names) ++
      [task.replaceFilepathStmt names] := by
  rw [ParseTask.batch, List.map_append, List.map_append, List.map_map,
    List.map_map]
  rfl

theorem ParseTask.sendIndexedResult_of_cut (names : TableNames) {flag : Int}
    {task : ParseTask} {defGroups : List (List FuncDef)}
    {callGroups : List (List FuncCall)}
    (hlimit : batchLimit flag ≠ 0 ∨
      task.funcDefs = [] ∧ task.funcCalls = [])
    (hdefs : CutInto (batchLimit flag)
      (task.funcDefs.filter fun d => !d.skipped) defGroups)
    (hcalls : CutInto (batchLimit flag)
      (task.funcCalls.filter fun d => !d.skipped) callGroups) :
    Converges (task.sendIndexedResult names flag)
      ((task.batch defGroups callGroups).map (Statement.text names),
        task.clearCurrentTranslationUnitResult) := by
  have hdefHeader : render (sqlFuncDefInsertHeader names) ≠ "" := by
    simp [render, sqlFuncDefInsertHeader, Piece.render]
  have hcallHeader : render (sqlFuncCallInsertHeader names) ≠ "" := by
    simp [render, sqlFuncCallInsertHeader, Piece.render]
  have hdefStmts := stmtsLoop_of_cut FuncDef.skipped _
    task.appendIndexedFuncDefsValue (hlimit.imp_right And.left) hdefHeader
    (fun _ => appendedText_func_defs names task) hdefs []
  have hcallStmts := stmtsLoop_of_cut FuncCall.skipped _
    task.appendIndexedFuncCallsValue (hlimit.imp_right And.right) hcallHeader
    (fun _ => appendedText_func_calls names task) hcalls
    (defGroups.map fun rows =>
      (Statement.insertFuncDefs task.currentTime rows).text names)
  rw [List.nil_append] at hdefStmts
  rw [ParseTask.text_batch]
  exact hdefStmts.bind (hcallStmts.map fun stmts =>
    (stmts ++ [task.replaceFilepathStmt names],
      task.clearCurrentTranslationUnitResult))

theorem ParseTask.sendIndexedResult_mono (names : TableNames) (flag : Int)
    (task : ParseTask) : FuelMono (task.sendIndexedResult names flag) :=
  (stmtsLoop_mono _ _ 0 []).bind fun stmts =>
    (stmtsLoop_mono _ _ 0 stmts).map _

theorem ParseTask.limit_of_sendIndexedResult {names : TableNames} {flag : Int}
    {task : ParseTask} {fuel : Nat} {out : List String × ParseTask}
    (h : task.sendIndexedResult names flag fuel = some out) :
    batchLimit flag ≠ 0 ∨ task.funcDefs = [] ∧ task.funcCalls = [] := by
  rw [or_iff_not_imp_left, not_not]
  intro hlimit
  unfold sendIndexedResult genBatchUpdateFuncDefsStmt
    genBatchUpdateFuncCallsStmt at h
  obtain ⟨stmts, hdefs, h⟩ := Option.bind_eq_some_iff.mp h
  obtain ⟨stmts', hcalls, -⟩ := Option.map_eq_some_iff.mp h
  rw [hlimit] at hdefs hcalls
  constructor
  · apply Classical.byContradiction
    intro hne
    rw [stmtsLoop_hangs _ _ _ hne] at hdefs
    contradiction
  · apply Classical.byContradiction
    intro hne
    rw [stmtsLoop_hangs _ _ _ hne] at hcalls
    contradiction

theorem ParseTask.exists_cuts {flag : Int} {task : ParseTask}
    (hlimit : batchLimit flag ≠ 0 ∨
      task.funcDefs = [] ∧ task.funcCalls = []) :
    ∃ defGroups callGroups,
      CutInto (batchLimit flag)
        (task.funcDefs.filter fun d => !d.skipped) defGroups ∧
      CutInto (batchLimit flag)
        (task.funcCalls.filter fun d => !d.skipped) callGroups := by
  rcases hlimit with hlimit | ⟨hdefs, hcalls⟩
  · obtain ⟨defGroups, hdefs⟩ := CutInto.exists (Nat.pos_of_ne_zero hlimit)
      (task.funcDefs.filter fun d => !d.skipped)
    obtain ⟨callGroups, hcalls⟩ := CutInto.exists
      (Nat.pos_of_ne_zero hlimit)
      (task.funcCalls.filter fun d => !d.skipped)
    exact ⟨defGroups, callGroups, hdefs, hcalls⟩
  · rw [hdefs, hcalls]
    exact ⟨[], [], .nil _, .nil _⟩

theorem ParseTask.sendIndexedResult_eq_some {names : TableNames} {flag : Int}
    {task after : ParseTask} {fuel : Nat} {stmts : List String}
    (h : task.sendIndexedResult names flag fuel = some (stmts, after)) :
    after = task.clearCurrentTranslationUnitResult ∧
      ∃ defGroups callGroups,
        CutInto (batchLimit flag)
          (task.funcDefs.filter fun d => !d.skipped) defGroups ∧
        CutInto (batchLimit flag)
          (task.funcCalls.filter fun d => !d.skipped) callGroups ∧
        stmts = (task.batch defGroups callGroups).map
          (Statement.text names) := by
  have hlimit := limit_of_sendIndexedResult h
  obtain ⟨defGroups, callGroups, hdefs, hcalls⟩ := exists_cuts hlimit
  have hsent := task.sendIndexedResult_of_cut names hlimit hdefs hcalls
  have heq := hsent.unique
    ((task.sendIndexedResult_mono names flag).converges h)
  rw [Prod.mk.injEq] at heq
  exact ⟨heq.2.symm, defGroups, callGroups, hdefs, hcalls, heq.1.symm⟩

theorem ParseTask.stmts_ne_nil {names : TableNames} {flag : Int}
    {task after : ParseTask} {fuel : Nat} {stmts : List String}
    (h : task.sendIndexedResult names flag fuel = some (stmts, after)) :
    stmts ≠ [] := by
  obtain ⟨-, defGroups, callGroups, -, -, rfl⟩ := sendIndexedResult_eq_some h
  simp [batch]

/-- The batch has the definitions and then the calls that are not skipped, in
their order and in groups of the batch size, and last the main file. -/
theorem sendIndexedResult_converges (names : TableNames) (flag : Int)
    (task : ParseTask) (hflag : batchLimit flag ≠ 0) :
    ∃ defGroups callGroups,
      CutInto (batchLimit flag)
        (task.funcDefs.filter fun d => !d.skipped) defGroups ∧
      CutInto (batchLimit flag)
        (task.funcCalls.filter fun d => !d.skipped) callGroups ∧
      Converges (task.sendIndexedResult names flag)
        ((task.batch defGroups callGroups).map (Statement.text names),
          task.clearCurrentTranslationUnitResult) := by
  obtain ⟨defGroups, callGroups, hdefs, hcalls⟩ :=
    task.exists_cuts (.inl hflag)
  exact ⟨defGroups, callGroups, hdefs, hcalls,
    task.sendIndexedResult_of_cut names (.inl hflag) hdefs hcalls⟩

def sampleTask : ParseTask where
  funcDefs := [⟨1, ⟨"u1", "f", false, ⟨3, 8⟩⟩⟩,
    ⟨2, ⟨"u2", "g", false, ⟨-1, 9⟩⟩⟩, ⟨3, ⟨"u3", "h", true, ⟨3, 10⟩⟩⟩]
  funcCalls := []
  currentTime := 1700000000
  currentFilepath := "main.cc"
  currentFilepathId := 3

theorem sendIndexedResult_converges_sample :
    ∃ defGroups callGroups,
      CutInto (batchLimit 1) (sampleTask.funcDefs.filter fun d => !d.skipped)
        defGroups ∧
      CutInto (batchLimit 1)
        (sampleTask.funcCalls.filter fun d => !d.skipped) callGroups ∧
      Converges (sampleTask.sendIndexedResult ⟨"f_1", "d_1", "c_1"⟩ 1)
        ((sampleTask.batch defGroups callGroups).map
            (Statement.text ⟨"f_1", "d_1", "c_1"⟩),
          sampleTask.clearCurrentTranslationUnitResult) :=
  sendIndexedResult_converges ⟨"f_1", "d_1", "c_1"⟩ 1 sampleTask (by decide)

/-! ## Termination -/

/-- The loops of `send_indexed_result` end, and every call of a generator
below the size of its list moves the start. -/
structure ParseTask.LoopsEnd (names : TableNames) (flag : Int)
    (task : ParseTask) : Prop where
  defsAdvance : ∀ start < task.funcDefs.length,
    start < (task.genBatchUpdateFuncDefsStmt names flag start).2
  callsAdvance : ∀ start < task.funcCalls.length,
    start < (task.genBatchUpdateFuncCallsStmt names flag start).2
  returns : ∃ out, Converges (task.sendIndexedResult names flag) out

theorem batchLimit_toInt_eq_zero (flag : Int64) :
    batchLimit flag.toInt = 0 ↔ flag = 0 := by
  have hlow := flag.le_toInt
  have hhigh := flag.toInt_lt
  rw [← Int64.toInt_inj, Int64.toInt_zero, batchLimit]
  omega

theorem genBatchUpdateStmt_advances {limit : Nat} {symbols : List α}
    (hlimit : limit ≠ 0 ∨ symbols = []) (skipped : α → Bool)
    (header : String) (appendValue : α → String) {start : Nat}
    (hstart : start < symbols.length) :
    start <
      (genBatchUpdateStmt limit skipped header appendValue symbols start).2 := by
  rcases hlimit with hlimit | rfl
  · obtain ⟨rows, next, hstmt, hnext, -⟩ := genBatchUpdateStmt_eq skipped
      header appendValue (Nat.pos_of_ne_zero hlimit) hstart
    rwa [hstmt]
  · contradiction

theorem loopsEnd_iff (names : TableNames) (flag : Int64) (task : ParseTask) :
    task.LoopsEnd names flag.toInt ↔
      flag ≠ 0 ∨ task.funcDefs = [] ∧ task.funcCalls = [] := by
  rw [Ne, ← batchLimit_toInt_eq_zero]
  constructor
  · intro hend
    obtain ⟨out, bound, hout⟩ := hend.returns
    exact ParseTask.limit_of_sendIndexedResult (hout bound le_rfl)
  · intro hlimit
    obtain ⟨defGroups, callGroups, hdefs, hcalls⟩ := task.exists_cuts hlimit
    exact
      { defsAdvance := fun start hstart => genBatchUpdateStmt_advances
          (hlimit.imp_right And.left) _ _ _ hstart
        callsAdvance := fun start hstart => genBatchUpdateStmt_advances
          (hlimit.imp_right And.right) _ _ _ hstart
        returns := ⟨_, task.sendIndexedResult_of_cut names hlimit hdefs
          hcalls⟩ }

/-- With the flag at zero the first call returns an empty statement and leaves
the start where it was. -/
theorem not_loopsEnd :
    ¬ ∀ (names : TableNames) (flag : Int64) (task : ParseTask),
      task.LoopsEnd names flag.toInt := by
  intro hend
  have hadvance := (hend ⟨"f_1", "d_1", "c_1"⟩ 0 sampleTask).defsAdvance 0
    (by decide)
  exact absurd hadvance (by decide)

end Pview.Indexer
