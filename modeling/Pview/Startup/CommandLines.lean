import Pview.Startup.Processes

/-!
# The command lines of the server

Each `execve` has the complete command line of one of two invocations.  The
server initializes a data directory that was found empty, and is run on one that
was not, or after an initialization that has exited with 0; all directories on
the command line have passed their checks.
-/

namespace Pview.Startup

open Pview.Foundation
open Pview.Foundation.Program
open Pview.Tasks

/-! ## The settings -/

/-- A setting that is given is kept; another one is found next to the
executable. -/
def Setting (events : List Event) (given path : String) (mode : AccessMode)
    (value : String) : Prop :=
  value ≠ "" ∧ (given ≠ "" ∧ value = given ∨ given = "" ∧ ∃ mypath,
    ⟨.readlink, some mypath⟩ ∈ events ∧ mypath.length < Flags.kMaxPathLen ∧
      value = Flags.dirOf mypath ++ path ∧ ⟨.access value mode, true⟩ ∈ events)

structure Configured (flags : Flags) (events : List Event)
    (conf : MYSQLDConf) : Prop where
  port : conf.port = flags.mysqldPort
  killAtExit : conf.killAtExit = flags.killMysqldAtExit
  mysqld : Setting events flags.mysqld "./mysql/bin/mysqld" .executable
    conf.mysqld
  tmpdir : Setting events flags.mysqldTmpdir "./mysql-data/tmpdir" .writable
    conf.mysqldTmpdir
  logdir : Setting events flags.mysqldLogdir "./mysql-data/logdir" .writable
    conf.mysqldLogdir
  datadir : Setting events flags.mysqldDatadir "./mysql-data/datadir" .writable
    conf.mysqldDatadir

/-! ## The command lines -/

namespace MYSQLDConf

variable (conf : MYSQLDConf)

def commonArgs : List String :=
  ["--log-error=" ++ conf.mysqldLogFile,
    "--datadir=" ++ conf.mysqldDatadir,
    "--innodb_data_home_dir=" ++ conf.mysqldDatadir,
    "--innodb_undo_directory=" ++ conf.mysqldDatadir,
    "--innodb_log_group_home_dir=" ++ conf.mysqldDatadir]

def initArgs : List String := conf.commonArgs ++ ["--initialize-insecure"]

def runArgs : List String :=
  conf.commonArgs ++ ["--tmpdir=" ++ conf.mysqldTmpdir,
    "--socket=" ++ conf.mysqldTmpdir ++ "/mysql.sock",
    "--pid-file=" ++ conf.mysqldTmpdir ++ "/mysql.pid",
    "--port=" ++ toString conf.port]

theorem initArgs_fits : conf.initArgs.length < kMaxNumArgs := by
  simp [initArgs, commonArgs, kMaxNumArgs]

theorem runArgs_fits : conf.runArgs.length < kMaxNumArgs := by
  simp [runArgs, commonArgs, kMaxNumArgs]

def commandLine (args : List String) : List (Option String) :=
  some conf.mysqld :: args.map some ++
    List.replicate (kMaxNumArgs - 1 - args.length) none

theorem fillArgv_eq (args : List String) (off : Nat)
    (done : List (Option String)) (hdone : done.length = off)
    (hfits : off + args.length ≤ kMaxNumArgs) :
    fillArgv args off (done ++ List.replicate (kMaxNumArgs - off) none) =
      done ++ args.map some ++
        List.replicate (kMaxNumArgs - off - args.length) none := by
  induction args generalizing off done with
  | nil => simp [fillArgv]
  | cons arg args ih =>
      rw [List.length_cons] at hfits
      have hspace : kMaxNumArgs - off = kMaxNumArgs - (off + 1) + 1 := by omega
      have hset : (done ++ List.replicate (kMaxNumArgs - off) none).set off
          (some arg) = (done ++ [some arg]) ++
            List.replicate (kMaxNumArgs - (off + 1)) none := by
        rw [hspace, List.replicate_succ, List.set_append_right _ _ (by omega),
          hdone, Nat.sub_self, List.set_cons_zero, List.append_assoc]
        rfl
      rw [fillArgv, if_pos (by omega), hset, ih _ _ (by simp [hdone]) (by omega)]
      simp [hspace]

theorem buildArgv_eq {args : List String} (hfits : args.length < kMaxNumArgs) :
    conf.buildArgv args = conf.commandLine args :=
  fillArgv_eq args 1 [some conf.mysqld] rfl (by omega)

theorem commandLine_length {args : List String}
    (hfits : args.length < kMaxNumArgs) :
    (conf.commandLine args).length = kMaxNumArgs := by
  simp [commandLine]
  omega

end MYSQLDConf

/-! ## What an `execve` needs -/

structure Checked (events : List Event) (conf : MYSQLDConf) : Prop where
  logdir : ⟨.access conf.mysqldLogdir .writable, true⟩ ∈ events
  logFile : ⟨.openWritable conf.mysqldLogFile, true⟩ ∈ events
  datadir : ⟨.access conf.mysqldDatadir .writable, true⟩ ∈ events

structure Initializes (events : List Event) (conf : MYSQLDConf)
    (argv : List (Option String)) : Prop where
  argv : argv = conf.commandLine conf.initArgs
  empty : ⟨.isEmpty conf.mysqldDatadir, some true⟩ ∈ events
  checked : Checked events conf

def DataDirReady (events : List Event) (conf : MYSQLDConf) : Prop :=
  ⟨.isEmpty conf.mysqldDatadir, some false⟩ ∈ events ∨
    ∃ pid w : Int, 0 < pid ∧
      List.Sublist [⟨.isEmpty conf.mysqldDatadir, some true⟩, ⟨.fork, pid⟩,
        ⟨.waitpid pid, (w, .exited 0)⟩] events

structure Runs (events : List Event) (conf : MYSQLDConf)
    (argv : List (Option String)) : Prop where
  argv : argv = conf.commandLine conf.runArgs
  port : 1024 < conf.port
  ready : DataDirReady events conf
  checked : Checked events conf
  tmpdir : ⟨.access conf.mysqldTmpdir .writable, true⟩ ∈ events

def Launches (flags : Flags) (events : List Event) (cmd : String)
    (argv : List (Option String)) : Prop :=
  ∃ conf, Configured flags events conf ∧ cmd = conf.mysqld ∧
    (Initializes events conf argv ∨ Runs events conf argv)

def launches (flags : Flags) : Monitor Answer (List Event) :=
  .history fun events c =>
    ∀ cmd argv, c = .execve cmd argv → Launches flags events cmd argv

/-! ## Facts that stay -/

section Mono

variable {flags : Flags} {events events' : List Event} {conf : MYSQLDConf}

theorem Setting.mono (h : events <+: events') {given path value : String}
    {mode : AccessMode} (hset : Setting events given path mode value) :
    Setting events' given path mode value := by
  obtain ⟨hne, hgiven | ⟨hempty, mypath, hread, hlength, hvalue, haccess⟩⟩ :=
    hset
  · exact ⟨hne, .inl hgiven⟩
  · exact ⟨hne, .inr ⟨hempty, mypath, h.subset hread, hlength, hvalue,
      h.subset haccess⟩⟩

theorem Configured.mono (h : events <+: events')
    (hconf : Configured flags events conf) :
    Configured flags events' conf where
  port := hconf.port
  killAtExit := hconf.killAtExit
  mysqld := hconf.mysqld.mono h
  tmpdir := hconf.tmpdir.mono h
  logdir := hconf.logdir.mono h
  datadir := hconf.datadir.mono h

theorem Checked.mono (h : events <+: events') (hchecked : Checked events conf) :
    Checked events' conf where
  logdir := h.subset hchecked.logdir
  logFile := h.subset hchecked.logFile
  datadir := h.subset hchecked.datadir

theorem DataDirReady.mono (h : events <+: events')
    (hready : DataDirReady events conf) : DataDirReady events' conf := by
  rcases hready with hfull | ⟨pid, w, hpid, hinit⟩
  · exact .inl (h.subset hfull)
  · exact .inr ⟨pid, w, hpid, hinit.trans h.sublist⟩

end Mono

/-! ## The settings that are found -/

section Specs

variable {flags : Flags} {events : List Event}

theorem safe_launches {α : Type} {c : Call} {f : Answer c → Process α}
    {post : α → List Event → Prop} (hc : ∀ cmd argv, c ≠ .execve cmd argv)
    (hf : ∀ answer, (f answer).Safe (launches flags) post
      (events ++ [⟨c, answer⟩])) :
    (ask c >>= f).Safe (launches flags) post events :=
  safe_ask.mpr ⟨fun cmd argv heq => absurd heq (hc cmd argv), hf⟩

theorem detect_launches (given mydir path : String) (mode : AccessMode)
    {mypath : String} (hread : ⟨.readlink, some mypath⟩ ∈ events)
    (hlength : mypath.length < Flags.kMaxPathLen)
    (hmydir : mydir = Flags.dirOf mypath) (hne : mydir ≠ "") :
    (Flags.detect given mydir path fun file => ask (.access file mode)).Safe
      (launches flags)
      (fun result events' => events <+: events' ∧
        ∀ value, result = some value →
          Setting events' given path mode value) events := by
  unfold Flags.detect
  split
  · rename_i hgiven
    refine safe_launches (by simp) ?_
    rintro (_ | _)
    · exact ⟨List.prefix_append _ _, nofun⟩
    · refine ⟨List.prefix_append _ _, ?_⟩
      rintro _ ⟨⟩
      refine ⟨by simp [hne], .inr ⟨hgiven, mypath, ?_, hlength, ?_, ?_⟩⟩
      · exact List.mem_append_left _ hread
      · rw [hmydir]
      · exact List.mem_append_right _ (List.mem_singleton_self _)
  · rename_i hgiven
    refine ⟨List.prefix_refl _, ?_⟩
    rintro _ ⟨⟩
    exact ⟨hgiven, .inl ⟨hgiven, rfl⟩⟩

theorem getMysqldSetting_launches :
    flags.getMysqldSetting.Safe (launches flags)
      (fun result events' => events <+: events' ∧
        ∀ conf, result = some conf → Configured flags events' conf) events := by
  by_cases hgiven : flags.givenSetting.mysqld ≠ "" ∧
      flags.givenSetting.mysqldTmpdir ≠ "" ∧
      flags.givenSetting.mysqldLogdir ≠ "" ∧
      flags.givenSetting.mysqldDatadir ≠ ""
  · rw [Flags.getMysqldSetting, if_pos hgiven]
    refine ⟨List.prefix_refl _, ?_⟩
    rintro _ ⟨⟩
    obtain ⟨hmysqld, htmpdir, hlogdir, hdatadir⟩ := hgiven
    exact ⟨rfl, rfl, ⟨hmysqld, .inl ⟨hmysqld, rfl⟩⟩,
      ⟨htmpdir, .inl ⟨htmpdir, rfl⟩⟩, ⟨hlogdir, .inl ⟨hlogdir, rfl⟩⟩,
      ⟨hdatadir, .inl ⟨hdatadir, rfl⟩⟩⟩
  rw [Flags.getMysqldSetting, if_neg hgiven]
  refine safe_launches (by simp) ?_
  rintro (_ | mypath)
  · exact ⟨List.prefix_append _ _, nofun⟩
  simp only
  split_ifs with hlength hmydir
  · exact ⟨List.prefix_append _ _, nofun⟩
  · exact ⟨List.prefix_append _ _, nofun⟩
  -- The link is read; each setting is found or given.
  have hread : (⟨.readlink, some mypath⟩ : Event) ∈
      events ++ [⟨.readlink, some mypath⟩] := by simp
  have hshort : mypath.length < Flags.kMaxPathLen := by omega
  refine safe_bind.mpr
    ((detect_launches _ _ _ _ hread hshort rfl hmydir).mono ?_)
  rintro (_ | mysqld) events₁ ⟨hle₁, hmysqld⟩
  · exact ⟨(List.prefix_append _ _).trans hle₁, nofun⟩
  refine safe_bind.mpr ((detect_launches _ _ _ _ (hle₁.subset hread) hshort rfl
    hmydir).mono ?_)
  rintro (_ | tmpdir) events₂ ⟨hle₂, htmpdir⟩
  · exact ⟨(List.prefix_append _ _).trans (hle₁.trans hle₂), nofun⟩
  refine safe_bind.mpr ((detect_launches _ _ _ _
    ((hle₁.trans hle₂).subset hread) hshort rfl hmydir).mono ?_)
  rintro (_ | logdir) events₃ ⟨hle₃, hlogdir⟩
  · exact ⟨(List.prefix_append _ _).trans (hle₁.trans (hle₂.trans hle₃)), nofun⟩
  refine safe_bind.mpr ((detect_launches _ _ _ _
    ((hle₁.trans (hle₂.trans hle₃)).subset hread) hshort rfl hmydir).mono ?_)
  rintro (_ | datadir) events₄ ⟨hle₄, hdatadir⟩
  all_goals
    refine ⟨(List.prefix_append _ _).trans
      (hle₁.trans (hle₂.trans (hle₃.trans hle₄))), ?_⟩
  · exact nofun
  · rintro _ ⟨⟩
    exact ⟨rfl, rfl, (hmysqld _ rfl).mono (hle₂.trans (hle₃.trans hle₄)),
      (htmpdir _ rfl).mono (hle₃.trans hle₄), (hlogdir _ rfl).mono hle₄,
      hdatadir _ rfl⟩

/-! ## Starting the server -/

variable {conf : MYSQLDConf}

theorem checkMysqldCommonArgs_launches (args : List String) :
    (conf.checkMysqldCommonArgs args).Safe (launches flags)
      (fun result events' => events <+: events' ∧ ∀ args', result = some args' →
        args' = args ++ conf.commonArgs ∧ Checked events' conf) events := by
  unfold MYSQLDConf.checkMysqldCommonArgs
  split
  · exact ⟨List.prefix_refl _, nofun⟩
  refine safe_launches (by simp) ?_
  rintro (_ | _)
  · exact ⟨List.prefix_append _ _, nofun⟩
  refine safe_launches (by simp) ?_
  rintro (_ | _)
  · exact ⟨by simp, nofun⟩
  simp only [Bool.not_true, Bool.false_eq_true, if_false]
  split
  · exact ⟨by simp, nofun⟩
  refine safe_launches (by simp) ?_
  rintro (_ | _)
  · exact ⟨by simp, nofun⟩
  refine ⟨by simp, ?_⟩
  rintro _ ⟨⟩
  exact ⟨rfl, by simp, by simp, by simp⟩

theorem checkMysqldInitArgs_launches :
    (conf.checkMysqldInitArgs []).Safe (launches flags)
      (fun result events' => events <+: events' ∧ ∀ args, result = some args →
        args = conf.initArgs ∧ Checked events' conf) events := by
  refine safe_bind.mpr ((checkMysqldCommonArgs_launches []).mono ?_)
  rintro (_ | args) events' ⟨hle, hargs⟩
  · exact ⟨hle, nofun⟩
  · obtain ⟨rfl, hchecked⟩ := hargs args rfl
    refine ⟨hle, ?_⟩
    rintro _ ⟨⟩
    exact ⟨rfl, hchecked⟩

theorem checkMysqldRunArgs_launches :
    (conf.checkMysqldRunArgs []).Safe (launches flags)
      (fun result events' => events <+: events' ∧ ∀ args, result = some args →
        args = conf.runArgs ∧ Checked events' conf ∧ 1024 < conf.port ∧
          ⟨.access conf.mysqldTmpdir .writable, true⟩ ∈ events') events := by
  refine safe_bind.mpr ((checkMysqldCommonArgs_launches []).mono ?_)
  rintro (_ | args) events₁ ⟨hle, hargs⟩
  · exact ⟨hle, nofun⟩
  obtain ⟨rfl, hchecked⟩ := hargs args rfl
  simp only
  split
  · exact ⟨hle, nofun⟩
  refine safe_launches (by simp) ?_
  have hle' := hle.trans (List.prefix_append events₁ [⟨.access conf.mysqldTmpdir
    .writable, true⟩])
  rintro (_ | _)
  · exact ⟨hle.trans (List.prefix_append _ _), nofun⟩
  simp only [Bool.not_true, Bool.false_eq_true, if_false]
  split
  · exact ⟨hle', nofun⟩
  · rename_i hport
    refine ⟨hle', ?_⟩
    rintro _ ⟨⟩
    exact ⟨rfl, hchecked.mono (List.prefix_append _ _), by omega, by simp⟩

theorem Plain.launches {α : Type} {p : Process α} (h : Plain p) :
    p.Safe (launches flags) (fun _ events' => events <+: events') events := by
  induction p generalizing events with
  | ret value => exact List.prefix_refl _
  | call c next ih =>
      refine ⟨?_, fun answer => ?_⟩
      · rintro cmd argv rfl
        exact h.1.elim
      · exact (ih answer (h.2 answer)).mono fun _ _ hle =>
          (List.prefix_append _ _).trans hle
  | halt => trivial

theorem startChildProcess_launches {cmd : String} {argv : List (Option String)}
    (hlaunches : Launches flags (events ++ [⟨.fork, (0 : Int)⟩]) cmd argv) :
    (startChildProcess cmd argv).Safe (launches flags)
      (fun pid events' => events <+: events' ∧
        (0 < pid → events' = events ++ [⟨.fork, pid⟩])) events := by
  refine safe_launches (by simp) fun pid => ?_
  by_cases hminus : pid = -1
  · rw [if_pos hminus]
    exact ⟨List.prefix_append _ _, by simp⟩
  · rw [if_neg hminus]
    by_cases hzero : pid = 0
    · subst hzero
      refine ⟨?_, fun answer => ⟨?_, fun hpos => absurd hpos (lt_irrefl _)⟩⟩
      · rintro _ _ ⟨⟩
        exact hlaunches
      · exact (List.prefix_append _ _).trans (List.prefix_append _ _)
    · rw [if_neg hzero]
      exact ⟨List.prefix_append _ _, fun _ => rfl⟩

theorem waitCommand_launches (childPid : Int) (fuel : Nat) :
    (waitCommand childPid fuel).Safe (launches flags)
      (fun error events' => ∃ later, events' = events ++ later ∧
        (error = false →
          ∃ w : Int, ⟨.waitpid childPid, (w, .exited 0)⟩ ∈ later)) events := by
  induction fuel generalizing events with
  | zero => trivial
  | succ fuel ih =>
      refine safe_launches (by simp) ?_
      rintro ⟨w, wstatus⟩
      have hagain : (waitCommand childPid fuel).Safe (launches flags)
          (fun error events' => ∃ later, events' = events ++ later ∧
            (error = false →
              ∃ w : Int, ⟨.waitpid childPid, (w, .exited 0)⟩ ∈ later))
          (events ++ [⟨.waitpid childPid, (w, wstatus)⟩]) := by
        refine ih.mono ?_
        rintro error _ ⟨later, rfl, hlater⟩
        refine ⟨_ :: later, List.append_assoc _ _ _, fun herror => ?_⟩
        obtain ⟨w, hw⟩ := hlater herror
        exact ⟨w, List.mem_cons_of_mem _ hw⟩
      simp only
      split
      · exact ⟨_, rfl, nofun⟩
      · cases wstatus with
        | exited status =>
            refine ⟨_, rfl, fun hstatus => ⟨w, ?_⟩⟩
            have hzero : status = 0 := by simpa using hstatus
            rw [hzero]
            exact List.mem_singleton_self _
        | signaled sig => exact ⟨_, rfl, nofun⟩
        | stopped sig => exact hagain
        | continued => exact hagain
        | unknown => exact ⟨_, rfl, nofun⟩

theorem checkCommand_launches (fuel : Nat) {cmd : String}
    {argv : List (Option String)}
    (hlaunches : Launches flags (events ++ [⟨.fork, (0 : Int)⟩]) cmd argv) :
    (checkCommand fuel cmd argv).Safe (launches flags)
      (fun error events' => events <+: events' ∧ (error = false →
        ∃ (pid w : Int) (later : List Event), 0 < pid ∧
          events' = events ++ ⟨.fork, pid⟩ :: later ∧
            ⟨.waitpid pid, (w, .exited 0)⟩ ∈ later)) events := by
  refine safe_bind.mpr ((startChildProcess_launches hlaunches).mono ?_)
  rintro pid events₁ ⟨hle, hfork⟩
  split
  · exact ⟨hle, nofun⟩
  · rename_i hpid
    have hpid : 0 < pid := by omega
    refine (waitCommand_launches pid fuel).mono ?_
    rintro error _ ⟨later, rfl, hlater⟩
    refine ⟨hle.trans (List.prefix_append _ _), fun herror => ?_⟩
    obtain ⟨w, hw⟩ := hlater herror
    exact ⟨pid, w, later, hpid, by simp [hfork hpid], hw⟩

theorem initMysqldDataDir_launches (fuel : Nat)
    (hconf : Configured flags events conf) :
    (conf.initMysqldDataDir fuel).Safe (launches flags)
      (fun error events' => events <+: events' ∧
        (error = false → DataDirReady events' conf)) events := by
  refine safe_launches (by simp) ?_
  rintro (_ | _ | _)
  · trivial
  · exact ⟨List.prefix_append _ _, fun _ => .inl (by simp)⟩
  have hle₀ : events <+: events ++ [⟨.isEmpty conf.mysqldDatadir, some true⟩] :=
    List.prefix_append _ _
  have hempty : (⟨.isEmpty conf.mysqldDatadir, some true⟩ : Event) ∈
      events ++ [⟨.isEmpty conf.mysqldDatadir, some true⟩] := by simp
  refine safe_bind.mpr ((Local.createMysqldDatadir conf).plain.launches.mono ?_)
  rintro (_ | _) events₁ hle₁
  · refine safe_bind.mpr (checkMysqldInitArgs_launches.mono ?_)
    rintro (_ | args) events₂ ⟨hle₂, hargs⟩
    · exact ⟨hle₀.trans (hle₁.trans hle₂), nofun⟩
    obtain ⟨rfl, hchecked⟩ := hargs args rfl
    simp only
    split
    · exact ⟨hle₀.trans (hle₁.trans hle₂), nofun⟩
    · rename_i hfew
      have hempty₂ := (hle₁.trans hle₂).subset hempty
      have hfork := List.prefix_append events₂ [⟨.fork, (0 : Int)⟩]
      rw [conf.buildArgv_eq (Nat.not_le.mp hfew)]
      refine (checkCommand_launches fuel ⟨conf, ?_, rfl, .inl ?_⟩).mono ?_
      · exact hconf.mono (hle₀.trans (hle₁.trans (hle₂.trans hfork)))
      · exact ⟨rfl, hfork.subset hempty₂, hchecked.mono hfork⟩
      · rintro error events₃ ⟨hle₃, hexited⟩
        refine ⟨hle₀.trans (hle₁.trans (hle₂.trans hle₃)), fun herror => ?_⟩
        obtain ⟨pid, w, later, hpid, rfl, hlater⟩ := hexited herror
        refine .inr ⟨pid, w, hpid, ?_⟩
        have hstart := List.singleton_sublist.mpr hempty₂
        have hend := List.singleton_sublist.mpr hlater
        exact hstart.append (hend.cons_cons _)
  · exact ⟨hle₀.trans hle₁, nofun⟩

theorem execMysqld_launches (hconf : Configured flags events conf)
    (hready : DataDirReady events conf) :
    conf.execMysqld.Safe (launches flags) (fun _ _ => True) events := by
  refine safe_bind.mpr (checkMysqldRunArgs_launches.mono ?_)
  rintro (_ | args) events₁ ⟨hle, hargs⟩
  · trivial
  obtain ⟨rfl, hchecked, hport, htmpdir⟩ := hargs args rfl
  simp only
  split
  · trivial
  · rename_i hfew
    have hfork := List.prefix_append events₁ [⟨.fork, (0 : Int)⟩]
    rw [conf.buildArgv_eq (Nat.not_le.mp hfew)]
    refine (startChildProcess_launches ⟨conf, ?_, rfl, .inr ?_⟩).mono
      fun _ _ _ => trivial
    · exact hconf.mono (hle.trans hfork)
    · exact ⟨rfl, hport, hready.mono (hle.trans hfork), hchecked.mono hfork,
        hfork.subset htmpdir⟩

theorem startMysqld_launches (m : MYSQLMgr) (fuel : Nat)
    (hconf : Configured flags events m.conf) :
    (m.startMysqld fuel).Safe (launches flags) (fun _ _ => True) events := by
  unfold MYSQLMgr.startMysqld
  split
  · trivial
  · refine safe_bind.mpr ((initMysqldDataDir_launches fuel hconf).mono ?_)
    rintro (_ | _) events₁ ⟨hle, hready⟩
    · refine safe_bind.mpr ((execMysqld_launches (hconf.mono hle)
        (hready rfl)).mono fun pid _ _ => ?_)
      split <;> trivial
    · trivial

theorem destroy_launches (m : MYSQLMgr) :
    m.destroy.Safe (launches flags) (fun _ _ => True) events := by
  unfold MYSQLMgr.destroy MYSQLMgr.killMysqld
  split
  · split
    · exact safe_launches (by simp) fun _ => trivial
    · trivial
  · trivial

theorem startManaged_launches (fuel : Nat) :
    (flags.startManaged fuel).Safe (launches flags) (fun _ _ => True)
      events := by
  unfold Flags.startManaged
  split
  · trivial
  · refine safe_bind.mpr (getMysqldSetting_launches.mono ?_)
    rintro (_ | conf) events₁ ⟨-, hconf⟩
    · trivial
    · refine safe_bind.mpr ((startMysqld_launches { conf := conf } fuel
        (hconf conf rfl)).mono ?_)
      rintro ⟨_ | _, m⟩ events₂ -
      · trivial
      · exact safe_bind.mpr ((destroy_launches m).mono fun _ _ _ => trivial)

theorem doMain_launches (cpus : UInt32) (fuel : Nat) :
    (flags.doMain cpus fuel).Safe (launches flags) (fun _ _ => True) events := by
  by_cases hdop : (determineDop cpus flags.maxDop).numParseTasks < 1 ∨
      (determineDop cpus flags.maxDop).numStoreTasks < 1
  · simp only [Flags.doMain, if_pos hdop]
    trivial
  · simp only [Flags.doMain, if_neg hdop]
    refine safe_launches (by simp) ?_
    rintro (_ | numCmds)
    · trivial
    · simp only
      split_ifs
      · trivial
      · trivial
      · refine safe_bind.mpr ((startManaged_launches fuel).mono ?_)
        rintro (_ | m) events₁ -
        · trivial
        · exact safe_bind.mpr ((Plain.prepareAndRun flags _).launches.mono
            fun _ _ _ => trivial)

theorem main_safe_launches (cpus : UInt32) (fuel : Nat) :
    (flags.main cpus fuel).Safe (launches flags) (fun _ _ => True) events := by
  refine safe_bind.mpr ((doMain_launches cpus fuel).mono ?_)
  rintro ⟨ret, m⟩ events₁ -
  refine safe_launches (by simp) fun _ => ?_
  cases m with
  | none => trivial
  | some m =>
      exact safe_bind.mpr ((destroy_launches m).mono fun _ _ _ => trivial)

end Specs

/--
Every `execve` is an initialization of a data directory that was found empty or
a start of the server on one that is ready, with the settings of the flags or
found next to the executable, and with a complete command line: as many pointers
as the array has places, the last one null.
-/
theorem main_launches (flags : Flags) (cpus : UInt32) (fuel : Nat)
    (events : List Event) (cmd : String) (argv : List (Option String))
    (next : Unit → Process Int)
    (h : (flags.main cpus fuel).Reaches events
      (.call (.execve cmd argv) next)) :
    Launches flags events cmd argv ∧ argv.length = kMaxNumArgs ∧
      argv.getLast? = some none := by
  have hsafe :
      (flags.main cpus fuel).Safe (launches flags) (fun _ _ => True) [] :=
    main_safe_launches cpus fuel
  have hlaunches := hsafe.allows h cmd argv rfl
  rw [launches, Monitor.after_history, List.nil_append] at hlaunches
  refine ⟨hlaunches, ?_⟩
  obtain ⟨conf, -, -, hinit | hrun⟩ := hlaunches
  · rw [hinit.argv]
    exact ⟨conf.commandLine_length conf.initArgs_fits, rfl⟩
  · rw [hrun.argv]
    exact ⟨conf.commandLine_length conf.runArgs_fits, rfl⟩

def managedFlags : Flags where
  maxDop := 0
  root := "/r"
  mysqld := "/m"
  mysqldTmpdir := "/t"
  mysqldLogdir := "/l"
  mysqldDatadir := "/d"
  killMysqldAtExit := true
  mysqldHost := "127.0.0.1"
  mysqldSocket := ""
  mysqldPort := 8250
  mysqldUser := "myuser"
  mysqldPassword := "mypass"
  mysqldDefaultSchema := ""
  mysqlInsertDeadLockRetryCount := 10
  externalMysql := false

/-- The data directory is not empty; the process is the child. -/
def startsServer : (c : Call) → Option (Answer c)
  | .fork => some (0 : Int)
  | .isEmpty _ => some (some false)
  | .access .. | .openWritable _ => some true
  | .autoDetectFromDirectory _ => some (some 1)
  | _ => none

theorem main_launches_managed : ∃ events argv next,
    (managedFlags.main 4 1).Reaches events (.call (.execve "/m" argv) next) ∧
      argv.length = kMaxNumArgs := by
  have hreaches := reaches_answered startsServer (managedFlags.main 4 1)
  exact ⟨_, _, _, hreaches, (main_launches _ _ _ _ _ _ _ hreaches).2.1⟩

end Pview.Startup
