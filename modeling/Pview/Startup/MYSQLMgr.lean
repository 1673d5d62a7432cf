import Pview.Foundation.Program
import Pview.Indexer.SQL
import Pview.MySQL.Connection

/-!
# The managed server

`MYSQLMgr` initializes a data directory with one child process, waits for it,
and leaves a second one, the server, running until the end.  A child process is
the same program: it is the one whose `fork` was answered with 0.

The answer to `execve` is that it has failed; a call that succeeds is never
answered.
-/

namespace Pview.Startup

open Pview.Foundation
open Pview.Indexer
open Pview.MySQL

/-! ## Calls -/

inductive AccessMode where
  | writable
  | executable
  deriving DecidableEq, Repr

/-- What the macros tell about the status that `waitpid` gives. -/
inductive WaitStatus where
  | exited (status : Nat)
  | signaled (sig : Nat)
  | stopped (sig : Nat)
  | continued
  | unknown
  deriving DecidableEq, Repr

structure MYSQLConnConf where
  host : String
  socket : String
  port : Int
  user : String
  password : String
  defaultSchema : String
  deriving DecidableEq, Repr

/-- The part of `IndexCtx` that `do_prepare` fills in. -/
structure Prepared where
  projectId : Int
  names : TableNames
  nextFilepathId : Int
  nextFuncDefId : Int
  nextFuncCallId : Int

inductive Call where
  | fork
  | execve (cmd : String) (argv : List (Option String))
  | waitpid (pid : Int)
  /-- With `SIGKILL`. -/
  | kill (pid : Int)
  | isEmpty (dir : String)
  | createDirectories (dir : String)
  | access (path : String) (mode : AccessMode)
  /-- `open` for writing, which creates the file, and `close`. -/
  | openWritable (file : String)
  /-- Of `/proc/self/exe`. -/
  | readlink
  | autoDetectFromDirectory (dir : String)
  | getDriverInstance
  | connect (conf : MYSQLConnConf)
  | ddl (sql : String)
  | dml (sql : String)
  | query (sql : String)
  | doIndexing (numParseTasks numStoreTasks : Nat) (prepared : Prepared)
  | doQuery
  /-- At exit; the workers are joined, and a child process has none of them. -/
  | destroyThreadPool

/-- `std::filesystem` throws where there is no answer, and so does a query. -/
abbrev Answer : Call → Type
  | .fork => Int
  | .execve .. => Unit
  | .waitpid _ => Int × WaitStatus
  | .kill _ => Int
  | .isEmpty _ => Option Bool
  | .createDirectories _ => Option Bool
  | .access .. => Bool
  | .openWritable _ => Bool
  | .readlink => Option String
  | .autoDetectFromDirectory _ => Option Nat
  | .getDriverInstance => Bool
  | .connect _ => Bool
  | .ddl _ => Reply
  | .dml _ => Reply
  | .query _ => Option (List (Option Int))
  | .doIndexing .. => Int
  | .doQuery => Int
  | .destroyThreadPool => Unit

abbrev Process := Program Answer

abbrev Event := Program.Event Answer

def ask (c : Call) : Process (Answer c) := .call c .ret

def checkDirWritable (dir : String) : Process Bool :=
  ask (.access dir .writable)

def checkFileWritable (file : String) : Process Bool :=
  ask (.openWritable file)

def checkFileExecutable (file : String) : Process Bool :=
  ask (.access file .executable)

def checkPortInUse (_port : Int) : Bool := false

/-! ## `MYSQLMgr` -/

def kMaxNumArgs : Nat := 128

structure MYSQLDConf where
  mysqld : String
  port : Int
  mysqldTmpdir : String
  mysqldLogdir : String
  mysqldDatadir : String
  killAtExit : Bool
  deriving DecidableEq, Repr

structure MYSQLDStatus where
  running : Bool := false
  mysqldPid : Int := 0
  deriving DecidableEq, Repr

structure MYSQLMgr where
  conf : MYSQLDConf
  status : MYSQLDStatus := {}
  deriving DecidableEq, Repr

def startChildProcess (cmd : String) (argv : List (Option String)) :
    Process Int := do
  let childPid ← ask .fork
  if childPid = -1 then
    pure (-1)
  else if childPid = 0 then
    ask (.execve cmd argv)
    pure childPid
  else
    pure childPid

def waitCommand (childPid : Int) : Nat → Process Bool
  | 0 => .halt
  | fuel + 1 => do
      let (w, wstatus) ← ask (.waitpid childPid)
      if w = -1 then
        pure true
      else
        match wstatus with
        | .exited status => pure (status ≠ 0)
        | .signaled _ => pure true
        | .stopped _ | .continued => waitCommand childPid fuel
        | .unknown => pure true

def checkCommand (fuel : Nat) (cmd : String) (argv : List (Option String)) :
    Process Bool := do
  let childPid ← startChildProcess cmd argv
  if childPid ≤ 0 then pure true else waitCommand childPid fuel

namespace MYSQLDConf

variable (conf : MYSQLDConf)

def mysqldLogFile : String := conf.mysqldLogdir ++ "/mysqld.err"

def checkMysqldCommonArgs (args : List String) :
    Process (Option (List String)) := do
  if conf.mysqldLogdir = "" then
    pure none
  else if !(← checkDirWritable conf.mysqldLogdir) then
    pure none
  else if !(← checkFileWritable conf.mysqldLogFile) then
    pure none
  else if conf.mysqldDatadir = "" then
    pure none
  else if !(← checkDirWritable conf.mysqldDatadir) then
    pure none
  else
    pure (some (args ++ ["--log-error=" ++ conf.mysqldLogFile,
      "--datadir=" ++ conf.mysqldDatadir,
      "--innodb_data_home_dir=" ++ conf.mysqldDatadir,
      "--innodb_undo_directory=" ++ conf.mysqldDatadir,
      "--innodb_log_group_home_dir=" ++ conf.mysqldDatadir]))

def checkMysqldInitArgs (args : List String) :
    Process (Option (List String)) := do
  match ← conf.checkMysqldCommonArgs args with
  | none => pure none
  | some args => pure (some (args ++ ["--initialize-insecure"]))

def checkMysqldRunArgs (args : List String) :
    Process (Option (List String)) := do
  match ← conf.checkMysqldCommonArgs args with
  | none => pure none
  | some args =>
      if conf.mysqldTmpdir = "" then
        pure none
      else if !(← checkDirWritable conf.mysqldTmpdir) then
        pure none
      else if conf.port ≤ 1024 then
        pure none
      else if checkPortInUse conf.port then
        pure none
      else
        pure (some (args ++ ["--tmpdir=" ++ conf.mysqldTmpdir,
          "--socket=" ++ conf.mysqldTmpdir ++ "/mysql.sock",
          "--pid-file=" ++ conf.mysqldTmpdir ++ "/mysql.pid",
          "--port=" ++ toString conf.port]))

def createDir (dir : String) : Process Bool := do
  if dir = "" then
    pure true
  else
    match ← ask (.createDirectories dir) with
    | none => .halt
    | some _ => do
        let writable ← checkDirWritable dir
        pure !writable

def createMysqldDatadir : Process Bool := do
  if ← createDir conf.mysqldTmpdir then
    pure true
  else if ← createDir conf.mysqldLogdir then
    pure true
  else
    createDir conf.mysqldDatadir

/-- The loop over `args`; `off` is the next free place of `argv`. -/
def fillArgv : List String → Nat → List (Option String) → List (Option String)
  | [], _, argv => argv
  | arg :: args, off, argv =>
      if off < kMaxNumArgs then
        fillArgv args (off + 1) (argv.set off (some arg))
      else
        argv

def buildArgv (args : List String) : List (Option String) :=
  fillArgv args 1 ((List.replicate kMaxNumArgs none).set 0 (some conf.mysqld))

def initMysqldDataDir (fuel : Nat) : Process Bool := do
  match ← ask (.isEmpty conf.mysqldDatadir) with
  | none => .halt
  | some false => pure false
  | some true =>
      if ← conf.createMysqldDatadir then
        pure true
      else
        match ← conf.checkMysqldInitArgs [] with
        | none => pure true
        | some args =>
            if kMaxNumArgs ≤ args.length then
              pure true
            else
              checkCommand fuel conf.mysqld (conf.buildArgv args)

def execMysqld : Process Int := do
  match ← conf.checkMysqldRunArgs [] with
  | none => pure (-1)
  | some args =>
      if kMaxNumArgs ≤ args.length then
        pure (-1)
      else
        startChildProcess conf.mysqld (conf.buildArgv args)

end MYSQLDConf

namespace MYSQLMgr

/-- With the manager as it is afterwards; true is an error. -/
def startMysqld (m : MYSQLMgr) (fuel : Nat) : Process (Bool × MYSQLMgr) := do
  if m.status.running && checkPortInUse m.conf.port then
    pure (false, m)
  else if ← m.conf.initMysqldDataDir fuel then
    pure (true, m)
  else
    let childPid ← m.conf.execMysqld
    if childPid ≤ 0 then
      pure (true, m)
    else
      pure (false, { m with status := ⟨true, childPid⟩ })

def init (m : MYSQLMgr) (fuel : Nat) : Process (Bool × MYSQLMgr) :=
  m.startMysqld fuel

def killMysqld (m : MYSQLMgr) : Process Bool := do
  if m.status.running && decide (0 < m.status.mysqldPid) then
    let _ ← ask (.kill m.status.mysqldPid)
    pure true
  else
    pure true

def destroy (m : MYSQLMgr) : Process Unit := do
  if m.conf.killAtExit then
    let _ ← m.killMysqld
    pure ()
  else
    pure ()

end MYSQLMgr

end Pview.Startup
