import Pview.Indexer.Symbols
import Pview.MySQL.Literal

/-!
# Statement templates

The templates of `SQL.cc` with their placeholders filled in: those the indexer
sends and those the queries send.  A table name is put in once per project by
`set_project_table_names`; the placeholders that stand between double quotes
are the `str` pieces.
-/

namespace Pview.Indexer

open Pview.MySQL

structure TableNames where
  filepathTable : String
  funcDefsTable : String
  funcCallsTable : String

def pviewTable (table : String) : String :=
  "`pview_index_database`.`" ++ table ++ "`"

/-! ## Table projects -/

def sqlGetProjectId (projectRoot : String) : List Piece :=
  [.text ("\nSELECT project_id FROM " ++ pviewTable "projects" ++
      "\nWHERE project_root = "),
    .str projectRoot, .text "\n"]

def sqlInsertNewProject (projectId : Int) (projectRoot : String) :
    List Piece :=
  [.text ("\nINSERT INTO " ++ pviewTable "projects" ++
      " (\n  project_id,\n  project_root\n) VALUES (\n   "),
    .int projectId, .text ",\n  ", .str projectRoot, .text "\n)\n"]

/-! ## Table for filepaths -/

def sqlQueryFilepathId (names : TableNames) (filepath : String) :
    List Piece :=
  [.text ("\nSELECT filepath_id FROM " ++ pviewTable names.filepathTable ++
      "\nWHERE filepath = "),
    .str filepath, .text "\n"]

def sqlReplaceFilepath (names : TableNames) (filepathId : Int)
    (filepath : String) (createTime : Int) : List Piece :=
  [.text ("\nREPLACE INTO " ++ pviewTable names.filepathTable ++
      "\n(\n  filepath_id,\n  filepath,\n  create_time\n)\nVALUES\n(\n  "),
    .int filepathId, .text ",\n  ", .str filepath,
    .text ",\n  FROM_UNIXTIME(", .int createTime, .text ")\n)\n"]

def sqlGetFileMtime (names : TableNames) (filepath : String) : List Piece :=
  [.text ("\nSELECT UNIX_TIMESTAMP(MAX(create_time))\nFROM " ++
      pviewTable names.filepathTable ++ "\nWHERE filepath = "),
    .str filepath, .text "\n"]

/-! ## Table for function definitions -/

def sqlFuncDefInsertHeader (names : TableNames) : List Piece :=
  [.text ("\nINSERT IGNORE INTO " ++ pviewTable names.funcDefsTable ++
      " (\n  func_def_id,\n  create_time,\n  usr,\n  qualified," ++
      "\n  might_throw,\n  location_file_id,\n  location_line\n) VALUES\n")]

def sqlFuncDefInsertParam (currentTime : Int) (d : FuncDef) : List Piece :=
  [.text "\n(\n   ", .int d.id, .text ",\n  FROM_UNIXTIME(",
    .int currentTime, .text "),\n  ", .str d.info.usr, .text ",\n  ",
    .str d.info.qualified, .text ",\n   ", .bool d.info.funcMightThrow,
    .text ",\n   ", .int d.info.sourceLocation.fileId, .text ",\n   ",
    .int d.info.sourceLocation.signedLine, .text "\n)\n"]

def sqlQueryFuncDefUsr (names : TableNames) (qualified : String) :
    List Piece :=
  [.text ("\nSELECT usr FROM " ++ pviewTable names.funcDefsTable ++
      "\nWHERE qualified = "),
    .str qualified, .text "\n"]

def sqlQueryFuncDefUsingQualified (names : TableNames) (usr : String) :
    List Piece :=
  [.text ("\nSELECT qualified FROM " ++ pviewTable names.funcDefsTable ++
      "\nWHERE usr = "),
    .str usr, .text "\nORDER BY create_time DESC\nLIMIT 1;\n"]

/-! ## Table for function calls -/

def sqlFuncCallInsertHeader (names : TableNames) : List Piece :=
  [.text ("\nINSERT IGNORE INTO " ++ pviewTable names.funcCallsTable ++
      " (\n  func_call_id,\n  create_time,\n  caller_usr," ++
      "\n  caller_might_throw,\n  usr,\n  qualified,\n  location_file_id," ++
      "\n  location_line\n) VALUES\n")]

def sqlFuncCallInsertParam (currentTime : Int) (d : FuncCall) : List Piece :=
  [.text "\n(\n   ", .int d.id, .text ",\n  FROM_UNIXTIME(",
    .int currentTime, .text "),\n  ", .str d.callerUsr, .text ",\n   ",
    .bool d.callerMightThrow, .text ",\n  ", .str d.info.usr, .text ",\n  ",
    .str d.info.qualified, .text ",\n   ",
    .int d.info.sourceLocation.fileId, .text ",\n   ",
    .int d.info.sourceLocation.signedLine, .text "\n)\n"]

def sqlQueryFuncCallInfo (names : TableNames) (callerUsr : String) :
    List Piece :=
  [.text ("\nSELECT usr, qualified FROM " ++
      pviewTable names.funcCallsTable ++ "\nWHERE caller_usr = "),
    .str callerUsr, .text "\n"]

def sqlQueryFuncCallInfoWithThrow (names : TableNames) (callerUsr : String) :
    List Piece :=
  [.text ("\nSELECT usr, qualified, caller_might_throw\nFROM " ++
      pviewTable names.funcCallsTable ++ "\nWHERE caller_usr = "),
    .str callerUsr, .text "\n"]

def sqlQueryCallerUsrUsingQualified (names : TableNames)
    (qualified : String) : List Piece :=
  [.text ("\nSELECT caller_usr FROM " ++ pviewTable names.funcCallsTable ++
      "\nWHERE qualified = "),
    .str qualified, .text "\n"]

/-! ## Statements -/

def joinRows : List (List Piece) → List Piece
  | [] => []
  | [row] => row
  | row :: rows => row ++ .text ", " :: joinRows rows

inductive Statement where
  | getProjectId (projectRoot : String)
  | insertNewProject (projectId : Int) (projectRoot : String)
  | queryFilepathId (filepath : String)
  | replaceFilepath (filepathId : Int) (filepath : String) (createTime : Int)
  | getFileMtime (filepath : String)
  | insertFuncDefs (currentTime : Int) (rows : List FuncDef)
  | queryFuncDefUsr (qualified : String)
  | queryFuncDefUsingQualified (usr : String)
  | insertFuncCalls (currentTime : Int) (rows : List FuncCall)
  | queryFuncCallInfo (callerUsr : String)
  | queryFuncCallInfoWithThrow (callerUsr : String)
  | queryCallerUsrUsingQualified (qualified : String)
  deriving DecidableEq, Repr

def Statement.pieces (names : TableNames) : Statement → List Piece
  | .getProjectId projectRoot => sqlGetProjectId projectRoot
  | .insertNewProject projectId projectRoot =>
      sqlInsertNewProject projectId projectRoot
  | .queryFilepathId filepath => sqlQueryFilepathId names filepath
  | .replaceFilepath filepathId filepath createTime =>
      sqlReplaceFilepath names filepathId filepath createTime
  | .getFileMtime filepath => sqlGetFileMtime names filepath
  | .insertFuncDefs currentTime rows =>
      sqlFuncDefInsertHeader names ++
        joinRows (rows.map (sqlFuncDefInsertParam currentTime))
  | .queryFuncDefUsr qualified => sqlQueryFuncDefUsr names qualified
  | .queryFuncDefUsingQualified usr => sqlQueryFuncDefUsingQualified names usr
  | .insertFuncCalls currentTime rows =>
      sqlFuncCallInsertHeader names ++
        joinRows (rows.map (sqlFuncCallInsertParam currentTime))
  | .queryFuncCallInfo callerUsr => sqlQueryFuncCallInfo names callerUsr
  | .queryFuncCallInfoWithThrow callerUsr =>
      sqlQueryFuncCallInfoWithThrow names callerUsr
  | .queryCallerUsrUsingQualified qualified =>
      sqlQueryCallerUsrUsingQualified names qualified

def Statement.text (names : TableNames) (statement : Statement) : String :=
  render (statement.pieces names)

def Statement.strings : Statement → List String
  | .getProjectId projectRoot => [projectRoot]
  | .insertNewProject _ projectRoot => [projectRoot]
  | .queryFilepathId filepath => [filepath]
  | .replaceFilepath _ filepath _ => [filepath]
  | .getFileMtime filepath => [filepath]
  | .insertFuncDefs _ rows =>
      rows.flatMap fun d => [d.info.usr, d.info.qualified]
  | .queryFuncDefUsr qualified => [qualified]
  | .queryFuncDefUsingQualified usr => [usr]
  | .insertFuncCalls _ rows =>
      rows.flatMap fun d => [d.callerUsr, d.info.usr, d.info.qualified]
  | .queryFuncCallInfo callerUsr => [callerUsr]
  | .queryFuncCallInfoWithThrow callerUsr => [callerUsr]
  | .queryCallerUsrUsingQualified qualified => [qualified]

end Pview.Indexer
