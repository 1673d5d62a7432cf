import Pview.Indexer.SQL

/-!
# Strings in generated statements

The placeholders between double quotes are filled in as they are.  A statement
carries its strings faithfully exactly when none of them needed escaping.
-/

namespace Pview.Indexer

open Pview.MySQL

private theorem separated_joinRows {rows : List (List Piece)}
    (h : ∀ row ∈ rows, separated row = true) :
    separated (joinRows rows) = true := by
  fun_induction joinRows rows with
  | case1 => rfl
  | case2 row => exact h row (by simp)
  | case3 row rows _ ih =>
      apply separated_append (h row (by simp))
      exact ih fun row' hrow' => h row' (by simp [hrow'])

private theorem separated_joinRows_map {R : Type*} {row : R → List Piece}
    (h : ∀ r, separated (row r) = true) (rows : List R) :
    separated (joinRows (rows.map row)) = true := by
  apply separated_joinRows
  intro pieces hpieces
  obtain ⟨r, -, rfl⟩ := List.mem_map.mp hpieces
  exact h r

theorem Statement.separated_pieces (names : TableNames)
    (statement : Statement) : separated (statement.pieces names) = true := by
  cases statement with
  | insertFuncDefs currentTime rows =>
      apply separated_append rfl
      exact separated_joinRows_map (fun _ => rfl) rows
  | insertFuncCalls currentTime rows =>
      apply separated_append rfl
      exact separated_joinRows_map (fun _ => rfl) rows
  | _ => rfl

private theorem str_mem_joinRows (s : String) (rows : List (List Piece)) :
    .str s ∈ joinRows rows ↔ ∃ row ∈ rows, .str s ∈ row := by
  fun_induction joinRows rows with
  | case1 => simp
  | case2 row => simp
  | case3 row rows _ ih => simp [ih]

theorem Statement.str_mem_pieces (names : TableNames) (statement : Statement)
    (s : String) :
    .str s ∈ statement.pieces names ↔ s ∈ statement.strings := by
  cases statement with
  | insertFuncDefs currentTime rows =>
      simp [pieces, strings, sqlFuncDefInsertHeader, str_mem_joinRows,
        sqlFuncDefInsertParam]
  | insertFuncCalls currentTime rows =>
      simp [pieces, strings, sqlFuncCallInsertHeader, str_mem_joinRows,
        sqlFuncCallInsertParam]
  | _ =>
      simp [pieces, strings, sqlGetProjectId, sqlInsertNewProject,
        sqlQueryFilepathId, sqlReplaceFilepath, sqlGetFileMtime,
        sqlQueryFuncDefUsr, sqlQueryFuncDefUsingQualified,
        sqlQueryFuncCallInfo, sqlQueryFuncCallInfoWithThrow,
        sqlQueryCallerUsrUsingQualified]

/-- A statement denotes its strings exactly when each of them has no quote,
and a backslash only before `%` or `_`. -/
theorem statement_readsBack_iff (names : TableNames) (statement : Statement) :
    ReadsBack (statement.pieces names) ↔
      ∀ s ∈ statement.strings, clean s.toList = true := by
  rw [readsBack_iff (statement.separated_pieces names)]
  simp only [Statement.str_mem_pieces]

/-- A literal operator that is defined in `Unit.h`, outside of all namespaces. -/
def operatorKB : FuncDef where
  id := 7
  info := {
    usr := "c:@F@operator\"\"_KB#k#"
    qualified := "operator\"\"_KB"
    funcMightThrow := false
    sourceLocation := ⟨3, 20⟩ }

theorem operatorKB_not_readsBack :
    ¬ReadsBack ((Statement.insertFuncDefs 1700000000 [operatorKB]).pieces
      ⟨"filepaths_1", "func_definitions_1", "func_calls_1"⟩) := by
  intro hreads
  have hmem : Piece.str operatorKB.info.qualified ∈
      (Statement.insertFuncDefs 1700000000 [operatorKB]).pieces
        ⟨"filepaths_1", "func_definitions_1", "func_calls_1"⟩ := by
    rw [Statement.str_mem_pieces]
    simp [Statement.strings]
  have hclean := (readsBack_iff (Statement.separated_pieces _ _)).1 hreads
    _ hmem
  revert hclean
  decide +kernel

/-- The stored name has only one of its quotes. -/
example : readLiteral (operatorKB.info.qualified.toList ++ [quote, ',']) =
    some ("operator\"_KB".toList, [',']) := by decide +kernel

end Pview.Indexer
