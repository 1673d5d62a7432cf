import Mathlib.Data.Nat.Basic

/-!
# Rows of the index tables

One structure per table of `SQL.cc`, with the columns of its `CREATE TABLE`.
A table is the list of its rows; where a statement fixes no order, the order of
the list is the one the server happens to answer in.  A `create_time` is kept
as its Unix time.
-/

namespace Pview.MySQL

structure FuncDefRow where
  funcDefId : Int
  createTime : Int
  usr : String
  qualified : String
  mightThrow : Int
  locationFileId : Int
  locationLine : Int
  deriving DecidableEq, Repr

structure FuncCallRow where
  funcCallId : Int
  createTime : Int
  callerUsr : String
  callerMightThrow : Int
  usr : String
  qualified : String
  locationFileId : Int
  locationLine : Int
  deriving DecidableEq, Repr

structure Index where
  funcDefinitions : List FuncDefRow
  funcCalls : List FuncCallRow
  usrKey : (funcDefinitions.map FuncDefRow.usr).Nodup
  funcCallIdKey : (funcCalls.map FuncCallRow.funcCallId).Nodup

def Index.empty : Index := ⟨[], [], .nil, .nil⟩

end Pview.MySQL
