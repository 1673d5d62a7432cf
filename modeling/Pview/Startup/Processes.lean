import Pview.Startup.Main

/-!
# Child processes

Only `fork` and what comes after it tells one process from another.  All other
calls, of the file system and of the database, are plain.
-/

namespace Pview.Startup

open Pview.Foundation
open Pview.Foundation.Program
open Pview.Indexer
open Pview.MySQL
open Pview.Tasks

theorem safe_ask {α σ : Type} {M : Monitor Answer σ} {c : Call}
    {f : Answer c → Process α} {post : α → σ → Prop} {s : σ} :
    (ask c >>= f).Safe M post s ↔
      M.Allows s c ∧ ∀ answer, (f answer).Safe M post (M.next s c answer) :=
  Iff.rfl

theorem MYSQLMgr.destroy_eq_pure (conf : MYSQLDConf) :
    MYSQLMgr.destroy { conf := conf } = pure () := by
  unfold destroy
  split <;> rfl

theorem only_ask {P : Call → Prop} {c : Call} (h : P c) : (ask c).Only P :=
  ⟨h, fun _ => trivial⟩

/-! ## The file system -/

def Call.Local : Call → Prop
  | .isEmpty _ | .createDirectories _ | .access .. | .openWritable _ |
    .readlink => True
  | _ => False

abbrev Local {α : Type} (p : Process α) : Prop := p.Only Call.Local

namespace Local

theorem checkMysqldCommonArgs (conf : MYSQLDConf) (args : List String) :
    Local (conf.checkMysqldCommonArgs args) :=
  .unless <| .bind (only_ask trivial) fun _ => .unless <|
    .bind (only_ask trivial) fun _ => .unless <| .unless <|
      .bind (only_ask trivial) fun _ => .unless (only_pure _)

theorem checkMysqldInitArgs (conf : MYSQLDConf) (args : List String) :
    Local (conf.checkMysqldInitArgs args) :=
  .bind (checkMysqldCommonArgs conf args) fun
    | none => only_pure _
    | some _ => only_pure _

theorem checkMysqldRunArgs (conf : MYSQLDConf) (args : List String) :
    Local (conf.checkMysqldRunArgs args) :=
  .bind (checkMysqldCommonArgs conf args) fun
    | none => only_pure _
    | some _ => .unless <| .bind (only_ask trivial) fun _ => .unless <|
        .unless <| .unless (only_pure _)

theorem createDir (dir : String) : Local (MYSQLDConf.createDir dir) :=
  .unless <| .bind (only_ask trivial) fun
    | none => only_halt
    | some _ => .bind (only_ask trivial) fun _ => only_pure _

theorem createMysqldDatadir (conf : MYSQLDConf) :
    Local conf.createMysqldDatadir :=
  .bind (createDir _) fun _ => .unless <|
    .bind (createDir _) fun _ => .unless (createDir _)

theorem detect (given mydir path : String) {check : String → Process Bool}
    (hcheck : ∀ file, Local (check file)) :
    Local (Flags.detect given mydir path check) :=
  .ite (.bind (hcheck _) fun _ => .ite (only_pure _) (only_pure _))
    (only_pure _)

theorem getMysqldSetting (flags : Flags) : Local flags.getMysqldSetting := by
  refine .unless <| .bind (only_ask trivial) ?_
  rintro (_ | mypath)
  · exact only_pure _
  have haccess : ∀ file mode, Local (ask (.access file mode)) :=
    fun _ _ => only_ask trivial
  refine .unless <| .unless <| .bind (detect _ _ _ (haccess · _)) ?_
  rintro (_ | mysqld)
  · exact only_pure _
  refine .bind (detect _ _ _ (haccess · _)) ?_
  rintro (_ | tmpdir)
  · exact only_pure _
  refine .bind (detect _ _ _ (haccess · _)) ?_
  rintro (_ | logdir)
  · exact only_pure _
  refine .bind (detect _ _ _ (haccess · _)) ?_
  rintro (_ | datadir) <;> exact only_pure _

end Local

/-! ## The database -/

def Call.Database : Call → Prop
  | .connect _ | .ddl _ | .dml _ | .query _ => True
  | _ => False

abbrev Database {α : Type} (p : Process α) : Prop := p.Only Call.Database

namespace Database

theorem ddl (flags : Flags) (sql : String) : Database (flags.ddl sql) :=
  .bind (only_ask trivial) fun _ => only_pure _

theorem dml (flags : Flags) (sql : String) : Database (flags.dml sql) :=
  .bind (only_ask trivial) fun _ => only_pure _

theorem maxId (sql : String) : Database (Flags.maxId sql) :=
  .bind (only_ask trivial) fun
    | none => only_halt
    | some _ => only_pure _

theorem assignProjectId (flags : Flags) : Database flags.assignProjectId :=
  .bind (only_ask trivial) fun
    | none => only_halt
    | some _ => .bind (dml ..) fun _ => .unless (only_pure _)

theorem findProjectId (flags : Flags) : Database flags.findProjectId :=
  .bind (only_ask trivial) fun
    | none => only_halt
    | some _ => .ite (assignProjectId flags) (only_pure _)

theorem doPrepare (flags : Flags) : Database flags.doPrepare := by
  refine .bind (only_ask trivial) fun _ => .unless <| .bind (ddl ..) fun _ =>
    .unless <| .bind (ddl ..) fun _ => .unless <| .bind (findProjectId _) ?_
  rintro (_ | projectId)
  · exact only_pure _
  · exact .bind (ddl ..) fun _ => .unless <| .bind (ddl ..) fun _ =>
      .unless <| .bind (ddl ..) fun _ => .unless <| .bind (maxId _) fun _ =>
        .bind (maxId _) fun _ => .bind (maxId _) fun _ => only_pure _

end Database

/-! ## All but the calls about processes -/

def Call.Plain : Call → Prop
  | .fork | .execve .. | .waitpid _ | .kill _ => False
  | _ => True

abbrev Plain {α : Type} (p : Process α) : Prop := p.Only Call.Plain

theorem Local.plain {α : Type} {p : Process α} (h : Local p) : Plain p :=
  h.mono fun c hc => by cases c <;> first | exact hc.elim | trivial

theorem Database.plain {α : Type} {p : Process α} (h : Database p) : Plain p :=
  h.mono fun c hc => by cases c <;> first | exact hc.elim | trivial

theorem Plain.prepareAndRun (flags : Flags) (dop : Dop) :
    Plain (flags.prepareAndRun dop) := by
  refine .bind (only_ask trivial) fun _ => .unless <|
    .bind (Database.doPrepare flags).plain ?_
  rintro (_ | prepared)
  · exact only_pure _
  · exact .bind (only_ask trivial) fun _ => .unless <|
      .bind (only_ask trivial) fun _ => .unless (only_pure _)

/-! ## All but the calls that do the work -/

def Call.Early : Call → Prop
  | .doIndexing .. | .doQuery => False
  | _ => True

abbrev Early {α : Type} (p : Process α) : Prop := p.Only Call.Early

theorem Local.early {α : Type} {p : Process α} (h : Local p) : Early p :=
  h.mono fun c hc => by cases c <;> first | exact hc.elim | trivial

theorem Database.early {α : Type} {p : Process α} (h : Database p) : Early p :=
  h.mono fun c hc => by cases c <;> first | exact hc.elim | trivial

namespace Early

theorem startChildProcess (cmd : String) (argv : List (Option String)) :
    Early (startChildProcess cmd argv) :=
  .bind (only_ask trivial) fun _ => .unless <|
    .ite (.bind (only_ask trivial) fun _ => only_pure _) (only_pure _)

theorem waitCommand (childPid : Int) (fuel : Nat) :
    Early (waitCommand childPid fuel) := by
  induction fuel with
  | zero => exact only_halt
  | succ fuel ih =>
      refine .bind (only_ask trivial) ?_
      rintro ⟨w, wstatus⟩
      refine .unless ?_
      cases wstatus <;> first | exact ih | exact only_pure _

theorem checkCommand (fuel : Nat) (cmd : String)
    (argv : List (Option String)) : Early (checkCommand fuel cmd argv) :=
  .bind (startChildProcess ..) fun _ => .unless (waitCommand ..)

theorem initMysqldDataDir (conf : MYSQLDConf) (fuel : Nat) :
    Early (conf.initMysqldDataDir fuel) := by
  refine .bind (only_ask trivial) ?_
  rintro (_ | _ | _)
  · exact only_halt
  · exact only_pure _
  refine .bind (Local.createMysqldDatadir conf).early fun _ => .unless <|
    .bind (Local.checkMysqldInitArgs conf []).early ?_
  rintro (_ | args)
  · exact only_pure _
  · exact .unless (checkCommand ..)

theorem execMysqld (conf : MYSQLDConf) : Early conf.execMysqld := by
  refine .bind (Local.checkMysqldRunArgs conf []).early ?_
  rintro (_ | args)
  · exact only_pure _
  · exact .unless (startChildProcess ..)

theorem startMysqld (m : MYSQLMgr) (fuel : Nat) :
    Early (m.startMysqld fuel) :=
  .unless <| .bind (initMysqldDataDir ..) fun _ => .unless <|
    .bind (execMysqld _) fun _ => .unless (only_pure _)

theorem destroy (m : MYSQLMgr) : Early m.destroy :=
  .ite (.bind (.ite (.bind (only_ask trivial) fun _ => only_pure _)
    (only_pure _)) fun _ => only_pure _) (only_pure _)

theorem startManaged (flags : Flags) (fuel : Nat) :
    Early (flags.startManaged fuel) := by
  refine .unless <| .bind (Local.getMysqldSetting flags).early ?_
  rintro (_ | conf)
  · exact only_pure _
  · refine .bind (startMysqld ..) ?_
    rintro ⟨error, m⟩
    exact .ite (.bind (destroy m) fun _ => only_pure _) (only_pure _)

end Early

end Pview.Startup
