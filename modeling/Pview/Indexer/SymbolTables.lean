import Pview.Foundation.PrimaryKey
import Pview.Indexer.SQL
import Pview.MySQL.Tables

/-!
# The symbol tables

What the inserts of a batch do to the two symbol tables.  `column` is what a
`VARCHAR` column of these tables keeps of a text.  A row whose primary key
exists is ignored, so the tables that a sequence of statements leaves are
those of its rows in their order.
-/

namespace Pview.Indexer

open Pview.Foundation.PrimaryKey
open Pview.MySQL

variable (column : String → String)

def FuncDef.row (currentTime : Int) (d : FuncDef) : FuncDefRow where
  funcDefId := d.id
  createTime := currentTime
  usr := column d.info.usr
  qualified := column d.info.qualified
  mightThrow := if d.info.funcMightThrow then 1 else 0
  locationFileId := d.info.sourceLocation.fileId
  locationLine := d.info.sourceLocation.signedLine

def FuncCall.row (currentTime : Int) (d : FuncCall) : FuncCallRow where
  funcCallId := d.id
  createTime := currentTime
  callerUsr := column d.callerUsr
  callerMightThrow := if d.callerMightThrow then 1 else 0
  usr := column d.info.usr
  qualified := column d.info.qualified
  locationFileId := d.info.sourceLocation.fileId
  locationLine := d.info.sourceLocation.signedLine

namespace Statement

def funcDefRows : Statement → List FuncDefRow
  | .insertFuncDefs currentTime rows => rows.map (FuncDef.row column currentTime)
  | _ => []

def funcCallRows : Statement → List FuncCallRow
  | .insertFuncCalls currentTime rows =>
      rows.map (FuncCall.row column currentTime)
  | _ => []

end Statement

def executeOnIndex (index : Index) (stmt : Statement) : Index where
  funcDefinitions :=
    insertAllIgnore FuncDefRow.usr index.funcDefinitions (stmt.funcDefRows column)
  funcCalls :=
    insertAllIgnore FuncCallRow.funcCallId index.funcCalls
      (stmt.funcCallRows column)
  usrKey := nodup_insertAllIgnore index.usrKey _
  funcCallIdKey := nodup_insertAllIgnore index.funcCallIdKey _

def executeLog (index : Index) (log : List Statement) : Index :=
  log.foldl (executeOnIndex column) index

def funcDefRowsOf (log : List Statement) : List FuncDefRow :=
  log.flatMap (Statement.funcDefRows column)

def funcCallRowsOf (log : List Statement) : List FuncCallRow :=
  log.flatMap (Statement.funcCallRows column)

variable {column}

theorem funcDefinitions_executeLog (index : Index) (log : List Statement) :
    (executeLog column index log).funcDefinitions =
      insertAllIgnore FuncDefRow.usr index.funcDefinitions
        (funcDefRowsOf column log) := by
  induction log generalizing index with
  | nil => rfl
  | cons stmt log ih =>
      calc (executeLog column (executeOnIndex column index stmt)
            log).funcDefinitions
        _ = insertAllIgnore FuncDefRow.usr
            (executeOnIndex column index stmt).funcDefinitions
            (funcDefRowsOf column log) := ih _
        _ = insertAllIgnore FuncDefRow.usr index.funcDefinitions
            (stmt.funcDefRows column ++ funcDefRowsOf column log) :=
          (insertAllIgnore_append _ _ _).symm

theorem funcCalls_executeLog (index : Index) (log : List Statement) :
    (executeLog column index log).funcCalls =
      insertAllIgnore FuncCallRow.funcCallId index.funcCalls
        (funcCallRowsOf column log) := by
  induction log generalizing index with
  | nil => rfl
  | cons stmt log ih =>
      calc (executeLog column (executeOnIndex column index stmt) log).funcCalls
        _ = insertAllIgnore FuncCallRow.funcCallId
            (executeOnIndex column index stmt).funcCalls
            (funcCallRowsOf column log) := ih _
        _ = insertAllIgnore FuncCallRow.funcCallId index.funcCalls
            (stmt.funcCallRows column ++ funcCallRowsOf column log) :=
          (insertAllIgnore_append _ _ _).symm

/-- A USR is found with the first row that was ever stored for it. -/
theorem lookup_executeLog (index : Index) (log : List Statement)
    (usr : String) :
    lookup FuncDefRow.usr (executeLog column index log).funcDefinitions usr =
      lookup FuncDefRow.usr (index.funcDefinitions ++ funcDefRowsOf column log)
        usr := by
  rw [funcDefinitions_executeLog, lookup_insertAllIgnore]

end Pview.Indexer
