import Pview.Indexer.IdCounters
import Pview.Startup.MYSQLMgr
import Pview.Tasks.MaxDop

/-!
# From the start of the process to its exit

`do_main` finds the compile commands, starts the managed server if there is no
external one, prepares the tables, and then indexes and queries.  Two static
objects are destroyed when `main` has returned: first the global thread pool,
which waits for its workers, and then the `IndexCtx` with the manager in it.
-/

namespace Pview.Startup

open Pview.Foundation
open Pview.Indexer
open Pview.MySQL
open Pview.Tasks

structure Flags where
  maxDop : UInt64
  root : String
  mysqld : String
  mysqldTmpdir : String
  mysqldLogdir : String
  mysqldDatadir : String
  killMysqldAtExit : Bool
  mysqldHost : String
  mysqldSocket : String
  mysqldPort : Int
  mysqldUser : String
  mysqldPassword : String
  mysqldDefaultSchema : String
  mysqlInsertDeadLockRetryCount : Int
  externalMysql : Bool

namespace Flags

variable (flags : Flags)

def getMysqlConnSetting : MYSQLConnConf where
  host := flags.mysqldHost
  socket := flags.mysqldSocket
  port := flags.mysqldPort
  user := flags.mysqldUser
  password := flags.mysqldPassword
  defaultSchema := flags.mysqldDefaultSchema

/-! ## The settings of the server -/

def kMaxPathLen : Nat := 10240

def dirOf (path : String) : String :=
  String.ofList (path.toList.reverse.dropWhile fun c => c ≠ '/').reverse

/-- A setting that is not given is put below `mydir`, if it passes the check. -/
def detect (given mydir path : String) (check : String → Process Bool) :
    Process (Option String) := do
  if given = "" then
    if ← check (mydir ++ path) then
      pure (some (mydir ++ path))
    else
      pure none
  else
    pure (some given)

def givenSetting : MYSQLDConf where
  mysqld := flags.mysqld
  port := flags.mysqldPort
  mysqldTmpdir := flags.mysqldTmpdir
  mysqldLogdir := flags.mysqldLogdir
  mysqldDatadir := flags.mysqldDatadir
  killAtExit := flags.killMysqldAtExit

/-- `none` where the function returns 1. -/
def getMysqldSetting : Process (Option MYSQLDConf) := do
  let conf := flags.givenSetting
  if conf.mysqld ≠ "" ∧ conf.mysqldTmpdir ≠ "" ∧ conf.mysqldLogdir ≠ "" ∧
      conf.mysqldDatadir ≠ "" then
    pure (some conf)
  else
    match ← ask .readlink with
    | none => pure none
    | some mypath =>
        if kMaxPathLen ≤ mypath.length ∨ mypath.length = 0 then
          pure none
        else if dirOf mypath = "" then
          pure none
        else
          let mydir := dirOf mypath
          match ← detect conf.mysqld mydir "./mysql/bin/mysqld"
              checkFileExecutable with
          | none => pure none
          | some mysqld =>
          match ← detect conf.mysqldTmpdir mydir "./mysql-data/tmpdir"
              checkDirWritable with
          | none => pure none
          | some mysqldTmpdir =>
          match ← detect conf.mysqldLogdir mydir "./mysql-data/logdir"
              checkDirWritable with
          | none => pure none
          | some mysqldLogdir =>
          match ← detect conf.mysqldDatadir mydir "./mysql-data/datadir"
              checkDirWritable with
          | none => pure none
          | some mysqldDatadir =>
              pure (some { conf with
                mysqld := mysqld
                mysqldTmpdir := mysqldTmpdir
                mysqldLogdir := mysqldLogdir
                mysqldDatadir := mysqldDatadir })

end Flags

/-! ## `do_prepare` -/

def sqlCreatePviewDb : String :=
  "\nCREATE DATABASE IF NOT EXISTS `pview_index_database`\n"

def tableOptions : String :=
  "\n) CHARSET latin1 COLLATE latin1_bin ENGINE=InnoDB;\n"

def sqlProjectsCreate : String :=
  "\nCREATE TABLE IF NOT EXISTS\n" ++ pviewTable "projects" ++
    " (\n  project_id BIGINT,\n  project_root VARCHAR(2048)," ++
    "\n  PRIMARY KEY (project_id),\n  KEY k_project_root (project_root)" ++
    tableOptions

def sqlMaxProjectId : String :=
  "\nSELECT MAX(project_id) FROM " ++ pviewTable "projects" ++ "\n"

def sqlFilepathsCreate (names : TableNames) : String :=
  "\nCREATE TABLE IF NOT EXISTS\n" ++ pviewTable names.filepathTable ++
    " (\n  filepath_id BIGINT,\n  filepath VARCHAR(2048)," ++
    "\n  create_time DATETIME,\n  PRIMARY KEY (filepath_id)," ++
    "\n  KEY k_fp (filepath)" ++ tableOptions

def sqlFuncDefCreate (names : TableNames) : String :=
  "\nCREATE TABLE IF NOT EXISTS\n" ++ pviewTable names.funcDefsTable ++
    " (\n  func_def_id bigint,\n  create_time datetime,\n  usr VARCHAR(512)," ++
    "\n  qualified VARCHAR(512),\n  might_throw tinyint," ++
    "\n  location_file_id bigint,\n  location_line bigint," ++
    "\n  PRIMARY KEY(usr),\n  KEY k_qualified (qualified, usr)," ++
    "\n  KEY k_usr (usr, qualified, create_time)" ++ tableOptions

def sqlFuncCallCreate (names : TableNames) : String :=
  "\nCREATE TABLE IF NOT EXISTS\n" ++ pviewTable names.funcCallsTable ++
    " (\n  func_call_id bigint,\n  create_time datetime," ++
    "\n  caller_usr VARCHAR(512),\n  caller_might_throw tinyint," ++
    "\n  usr VARCHAR(512),\n  qualified VARCHAR(512)," ++
    "\n  location_file_id bigint,\n  location_line bigint," ++
    "\n  PRIMARY KEY (func_call_id)," ++
    "\n  KEY k_caller_usr (caller_usr, usr, qualified)," ++
    "\n  KEY k_qualified (qualified, caller_usr, usr)" ++ tableOptions

def sqlMaxFilepathId (names : TableNames) : String :=
  "\nSELECT MAX(filepath_id) FROM " ++ pviewTable names.filepathTable ++ "\n"

def sqlMaxFuncDefId (names : TableNames) : String :=
  "\nSELECT MAX(func_def_id) FROM " ++ pviewTable names.funcDefsTable ++ "\n"

def sqlMaxFuncCallId (names : TableNames) : String :=
  "\nSELECT MAX(func_call_id) FROM " ++ pviewTable names.funcCallsTable ++ "\n"

def projectTableNames (projectId : Int) : TableNames where
  filepathTable := "filepaths_" ++ toString projectId
  funcDefsTable := "func_definitions_" ++ toString projectId
  funcCallsTable := "func_calls_" ++ toString projectId

namespace Flags

variable (flags : Flags)

/-- True for an error. -/
def ddl (sql : String) : Process Bool := do
  let reply ← ask (.ddl sql)
  pure (decide ((MySQL.ddl flags.mysqlInsertDeadLockRetryCount reply).ret ≠ 0))

def dml (sql : String) : Process Bool := do
  let reply ← ask (.dml sql)
  pure (decide ((MySQL.dml flags.mysqlInsertDeadLockRetryCount reply).ret ≠ 0))

def firstInt (default : Int) : List (Option Int) → Int
  | [] => default
  | value :: _ => getInt value

def assignProjectId : Process (Option Int) := do
  match ← ask (.query sqlMaxProjectId) with
  | none => .halt
  | some rows =>
      let currentMaxProjectId := firstInt (-1) rows
      let projectId :=
        if currentMaxProjectId ≤ 0 then 1 else currentMaxProjectId + 1
      if ← flags.dml (render (sqlInsertNewProject projectId flags.root)) then
        pure none
      else
        pure (some projectId)

def findProjectId : Process (Option Int) := do
  match ← ask (.query (render (sqlGetProjectId flags.root))) with
  | none => .halt
  | some rows =>
      if firstInt 0 rows ≤ 0 then
        flags.assignProjectId
      else
        pure (some (firstInt 0 rows))

/-- The counter starts behind the id that is returned. -/
def maxId (sql : String) : Process Int := do
  match ← ask (.query sql) with
  | none => .halt
  | some rows => pure (maxIdLoop rows)

def doPrepare : Process (Option Prepared) := do
  if !(← ask (.connect flags.getMysqlConnSetting)) then
    pure none
  else if ← flags.ddl sqlCreatePviewDb then
    pure none
  else if ← flags.ddl sqlProjectsCreate then
    pure none
  else
    match ← flags.findProjectId with
    | none => pure none
    | some projectId =>
        let names := projectTableNames projectId
        if ← flags.ddl (sqlFilepathsCreate names) then
          pure none
        else if ← flags.ddl (sqlFuncDefCreate names) then
          pure none
        else if ← flags.ddl (sqlFuncCallCreate names) then
          pure none
        else
          let maxFilepathId ← maxId (sqlMaxFilepathId names)
          let maxFuncDefId ← maxId (sqlMaxFuncDefId names)
          let maxFuncCallId ← maxId (sqlMaxFuncCallId names)
          pure (some {
            projectId := projectId
            names := names
            nextFilepathId := maxFilepathId + 1
            nextFuncDefId := maxFuncDefId + 1
            nextFuncCallId := maxFuncCallId + 1 })

/-! ## `do_main` -/

/-- The manager of the server, if there is one; `none` on an error. -/
def startManaged (fuel : Nat) : Process (Option (Option MYSQLMgr)) := do
  if flags.externalMysql then
    pure (some none)
  else
    match ← flags.getMysqldSetting with
    | none => pure none
    | some conf =>
        let (error, m) ← MYSQLMgr.init { conf := conf } fuel
        if error then
          m.destroy
          pure none
        else
          pure (some (some m))

def prepareAndRun (dop : Dop) : Process Int := do
  if !(← ask .getDriverInstance) then
    pure 1
  else
    match ← flags.doPrepare with
    | none => pure 1
    | some prepared =>
        if (← ask (.doIndexing dop.numParseTasks dop.numStoreTasks
            prepared)) ≠ 0 then
          pure 1
        else if (← ask .doQuery) ≠ 0 then
          pure 1
        else
          pure 0

/-- With the manager that stays in the context. -/
def doMain (cpus : UInt32) (fuel : Nat) : Process (Int × Option MYSQLMgr) := do
  let dop := determineDop cpus flags.maxDop
  if dop.numParseTasks < 1 ∨ dop.numStoreTasks < 1 then
    .halt
  else
    match ← ask (.autoDetectFromDirectory flags.root) with
    | none => pure (1, none)
    | some numCmds =>
        if numCmds = 0 then
          pure (1, none)
        else if flags.root.toList.head? ≠ some '/' then
          .halt
        else
          match ← flags.startManaged fuel with
          | none => pure (1, none)
          | some m =>
              let ret ← flags.prepareAndRun dop
              pure (ret, m)

/-- The pool is built after the context, and so destroyed before it. -/
def main (cpus : UInt32) (fuel : Nat) : Process Int := do
  let (ret, m) ← flags.doMain cpus fuel
  ask .destroyThreadPool
  match m with
  | none => pure ret
  | some m =>
      m.destroy
      pure ret

end Flags

end Pview.Startup
