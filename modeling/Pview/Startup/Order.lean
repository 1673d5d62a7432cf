import Pview.Startup.Processes

/-!
# Nothing is indexed unprepared

`do_indexing` starts when `do_prepare` has gone through, with a project id above
zero and the counters behind the ids that were read, and the exit status is zero
only if the indexing and the queries have succeeded.
-/

namespace Pview.Startup

open Pview.Foundation
open Pview.Foundation.Program
open Pview.Indexer
open Pview.MySQL
open Pview.Tasks

variable {flags : Flags}

/-- A statement of `do_prepare` for which `ddl` or `dml` returned 0. -/
inductive Flags.Succeeded (flags : Flags) : Event → Prop
  | ddl (sql : String) (reply : Reply)
      (h : (MySQL.ddl flags.mysqlInsertDeadLockRetryCount reply).ret = 0) :
      flags.Succeeded ⟨.ddl sql, reply⟩
  | dml (sql : String) (reply : Reply)
      (h : (MySQL.dml flags.mysqlInsertDeadLockRetryCount reply).ret = 0) :
      flags.Succeeded ⟨.dml sql, reply⟩

/-- How the root gets its id: it has one, or the next one is inserted. -/
inductive Flags.Numbers (flags : Flags) : List Event → Int → Prop
  | found (rows : List (Option Int)) (h : 0 < firstInt 0 rows) :
      flags.Numbers
        [⟨.query (render (sqlGetProjectId flags.root)), some rows⟩]
        (firstInt 0 rows)
  | assigned (rows maxRows : List (Option Int)) (projectId : Int)
      (reply : Reply) (hnone : firstInt 0 rows ≤ 0) (hpos : 0 < projectId)
      (hnew : firstInt (-1) maxRows < projectId)
      (hok : flags.Succeeded
        ⟨.dml (render (sqlInsertNewProject projectId flags.root)), reply⟩) :
      flags.Numbers
        [⟨.query (render (sqlGetProjectId flags.root)), some rows⟩,
          ⟨.query sqlMaxProjectId, some maxRows⟩,
          ⟨.dml (render (sqlInsertNewProject projectId flags.root)), reply⟩]
        projectId

theorem Flags.Numbers.pos {events : List Event} {projectId : Int}
    (h : flags.Numbers events projectId) : 0 < projectId := by
  cases h <;> assumption

inductive Flags.Prepares (flags : Flags) : List Event → Prepared → Prop
  | mk (projectId : Int) (numbers : List Event)
      (hnumbers : flags.Numbers numbers projectId)
      (database projects filepaths funcDefs funcCalls : Reply)
      (fileIds defIds callIds : List (Option Int))
      (hddl : ∀ event ∈ ([⟨.ddl sqlCreatePviewDb, database⟩,
          ⟨.ddl sqlProjectsCreate, projects⟩,
          ⟨.ddl (sqlFilepathsCreate (projectTableNames projectId)), filepaths⟩,
          ⟨.ddl (sqlFuncDefCreate (projectTableNames projectId)), funcDefs⟩,
          ⟨.ddl (sqlFuncCallCreate (projectTableNames projectId)),
            funcCalls⟩] : List Event), flags.Succeeded event) :
      flags.Prepares
        ([⟨.connect flags.getMysqlConnSetting, true⟩,
          ⟨.ddl sqlCreatePviewDb, database⟩,
          ⟨.ddl sqlProjectsCreate, projects⟩] ++ numbers ++
        [⟨.ddl (sqlFilepathsCreate (projectTableNames projectId)), filepaths⟩,
          ⟨.ddl (sqlFuncDefCreate (projectTableNames projectId)), funcDefs⟩,
          ⟨.ddl (sqlFuncCallCreate (projectTableNames projectId)), funcCalls⟩,
          ⟨.query (sqlMaxFilepathId (projectTableNames projectId)),
            some fileIds⟩,
          ⟨.query (sqlMaxFuncDefId (projectTableNames projectId)), some defIds⟩,
          ⟨.query (sqlMaxFuncCallId (projectTableNames projectId)),
            some callIds⟩])
        ⟨projectId, projectTableNames projectId, maxIdLoop fileIds + 1,
          maxIdLoop defIds + 1, maxIdLoop callIds + 1⟩

def Flags.Orderly (flags : Flags) (events : List Event) : Call → Prop
  | .doIndexing numParseTasks numStoreTasks prepared =>
      1 ≤ numParseTasks ∧ 2 ≤ numStoreTasks ∧ 0 < prepared.projectId ∧
        ∃ before steps, events = before ++ steps ∧
          flags.Prepares steps prepared ∧
            (flags.externalMysql = false → ∃ pid : Int, 0 < pid ∧
              ⟨.fork, pid⟩ ∈ before)
  | .doQuery => ∃ numParseTasks numStoreTasks prepared before,
      events = before ++
        [⟨.doIndexing numParseTasks numStoreTasks prepared, (0 : Int)⟩]
  | _ => True

def order (flags : Flags) : Monitor Answer (List Event) :=
  .history flags.Orderly

section Specs

variable {events : List Event}

theorem safe_order {α : Type} {c : Call} {f : Answer c → Process α}
    {post : α → List Event → Prop} (hc : flags.Orderly events c)
    (hf : ∀ answer, (f answer).Safe (order flags) post
      (events ++ [⟨c, answer⟩])) :
    (ask c >>= f).Safe (order flags) post events :=
  safe_ask.mpr ⟨hc, hf⟩

theorem ddl_order (sql : String) :
    (flags.ddl sql).Safe (order flags)
      (fun error events' => ∃ reply, events' = events ++ [⟨.ddl sql, reply⟩] ∧
        (error = false → flags.Succeeded ⟨.ddl sql, reply⟩)) events := by
  refine safe_order trivial fun reply => ⟨reply, rfl, fun herror => ?_⟩
  exact .ddl sql reply (by simpa using herror)

theorem dml_order (sql : String) :
    (flags.dml sql).Safe (order flags)
      (fun error events' => ∃ reply, events' = events ++ [⟨.dml sql, reply⟩] ∧
        (error = false → flags.Succeeded ⟨.dml sql, reply⟩)) events := by
  refine safe_order trivial fun reply => ⟨reply, rfl, fun herror => ?_⟩
  exact .dml sql reply (by simpa using herror)

theorem maxId_order (sql : String) :
    (Flags.maxId sql).Safe (order flags)
      (fun id events' => ∃ rows, events' = events ++ [⟨.query sql, some rows⟩] ∧
        id = maxIdLoop rows) events := by
  refine safe_order trivial ?_
  rintro (_ | rows)
  · trivial
  · exact ⟨rows, rfl, rfl⟩

theorem findProjectId_order :
    flags.findProjectId.Safe (order flags)
      (fun result events' => ∀ projectId, result = some projectId →
        ∃ steps, events' = events ++ steps ∧ flags.Numbers steps projectId)
      events := by
  refine safe_order trivial ?_
  rintro (_ | rows)
  · trivial
  simp only
  split
  · rename_i hnone
    refine safe_order trivial ?_
    rintro (_ | maxRows)
    · trivial
    refine safe_bind.mpr ((dml_order _).mono ?_)
    rintro (_ | _) events' ⟨reply, rfl, hok⟩
    · rintro _ ⟨⟩
      refine ⟨_, by simp only [List.append_assoc]; rfl, .assigned rows maxRows _
        reply hnone ?_ ?_ (hok rfl)⟩
      · split_ifs <;> omega
      · split_ifs <;> omega
    · exact nofun
  · rename_i hfound
    rintro _ ⟨⟩
    exact ⟨_, rfl, .found rows (Int.not_le.mp hfound)⟩

theorem doPrepare_order :
    flags.doPrepare.Safe (order flags)
      (fun result events' => ∀ prepared, result = some prepared →
        ∃ steps, events' = events ++ steps ∧ flags.Prepares steps prepared)
      events := by
  refine safe_order trivial ?_
  rintro (_ | _)
  · exact nofun
  refine safe_bind.mpr ((ddl_order _).mono ?_)
  rintro (_ | _) _ ⟨database, rfl, hdatabase⟩
  swap
  · exact nofun
  refine safe_bind.mpr ((ddl_order _).mono ?_)
  rintro (_ | _) _ ⟨projects, rfl, hprojects⟩
  swap
  · exact nofun
  refine safe_bind.mpr (findProjectId_order.mono ?_)
  rintro (_ | projectId) _ hfound
  · exact nofun
  obtain ⟨numbers, rfl, hnumbers⟩ := hfound projectId rfl
  refine safe_bind.mpr ((ddl_order _).mono ?_)
  rintro (_ | _) _ ⟨filepaths, rfl, hfilepaths⟩
  swap
  · exact nofun
  refine safe_bind.mpr ((ddl_order _).mono ?_)
  rintro (_ | _) _ ⟨funcDefs, rfl, hfuncDefs⟩
  swap
  · exact nofun
  refine safe_bind.mpr ((ddl_order _).mono ?_)
  rintro (_ | _) _ ⟨funcCalls, rfl, hfuncCalls⟩
  swap
  · exact nofun
  refine safe_bind.mpr ((maxId_order _).mono ?_)
  rintro _ _ ⟨fileIds, rfl, rfl⟩
  refine safe_bind.mpr ((maxId_order _).mono ?_)
  rintro _ _ ⟨defIds, rfl, rfl⟩
  refine safe_bind.mpr ((maxId_order _).mono ?_)
  rintro _ _ ⟨callIds, rfl, rfl⟩
  rintro _ ⟨⟩
  refine ⟨_, ?_, .mk projectId numbers hnumbers database projects filepaths
    funcDefs funcCalls fileIds defIds callIds ?_⟩
  · simp
  · simp only [List.forall_mem_cons]
    exact ⟨hdatabase rfl, hprojects rfl, hfilepaths rfl, hfuncDefs rfl,
      hfuncCalls rfl, nofun⟩

theorem Early.order {α : Type} {p : Process α} (h : Early p) :
    p.Safe (order flags) (fun _ events' => ∃ later, events' = events ++ later ∧
      ∀ event ∈ later, event.1.Early) events := by
  induction p generalizing events with
  | ret value => exact ⟨[], by simp, by simp⟩
  | call c next ih =>
      refine ⟨?_, fun answer => (ih answer (h.2 answer)).mono ?_⟩
      · have hc := h.1
        cases c <;> first | exact hc.elim | trivial
      · rintro _ _ ⟨later, rfl, hlater⟩
        refine ⟨⟨c, answer⟩ :: later, List.append_assoc _ _ _, ?_⟩
        rw [List.forall_mem_cons]
        exact ⟨h.1, hlater⟩
  | halt => trivial

/-! ## The server -/

def Forked (events : List Event) : Prop :=
  ∃ pid : Int, 0 < pid ∧ ⟨.fork, pid⟩ ∈ events

theorem startChildProcess_order (cmd : String) (argv : List (Option String)) :
    (startChildProcess cmd argv).Safe (order flags)
      (fun pid events' => 0 < pid → Forked events') events := by
  refine safe_order trivial fun pid => ?_
  by_cases hminus : pid = -1
  · subst hminus
    exact nofun
  · by_cases hzero : pid = 0
    · subst hzero
      exact ⟨trivial, fun _ hpos => absurd hpos (lt_irrefl _)⟩
    · rw [if_neg hminus, if_neg hzero]
      exact fun hpos => ⟨pid, hpos,
        List.mem_append_right _ (List.mem_singleton_self _)⟩

theorem execMysqld_order (conf : MYSQLDConf) :
    conf.execMysqld.Safe (order flags)
      (fun pid events' => 0 < pid → Forked events') events := by
  refine safe_bind.mpr ((Local.checkMysqldRunArgs conf []).early.order.mono ?_)
  rintro (_ | args) events' -
  · exact nofun
  · simp only
    split
    · exact nofun
    · exact startChildProcess_order _ _

theorem startMysqld_order (conf : MYSQLDConf) (fuel : Nat) :
    (MYSQLMgr.startMysqld { conf := conf } fuel).Safe (order flags)
      (fun result events' => result.1 = false → Forked events') events := by
  refine safe_bind.mpr ((Early.initMysqldDataDir conf fuel).order.mono ?_)
  rintro (_ | _) events' -
  · refine safe_bind.mpr ((execMysqld_order conf).mono ?_)
    intro pid events' hfork
    split
    · exact nofun
    · exact fun _ => hfork (by omega)
  · exact nofun

theorem startManaged_order (fuel : Nat) :
    (flags.startManaged fuel).Safe (order flags)
      (fun result events' => ∀ m, result = some m →
        flags.externalMysql = false → Forked events') events := by
  unfold Flags.startManaged
  split
  · rename_i hexternal
    rintro m -
    rw [hexternal]
    exact nofun
  · refine safe_bind.mpr ((Local.getMysqldSetting flags).early.order.mono ?_)
    rintro (_ | conf) events' -
    · exact nofun
    · refine safe_bind.mpr ((startMysqld_order conf fuel).mono ?_)
      rintro ⟨_ | _, m⟩ events' hfork
      · exact fun _ _ _ => hfork rfl
      · refine safe_bind.mpr ((Early.destroy m).order.mono ?_)
        exact fun _ _ _ => nofun

/-! ## Exit status -/

/-- The status is zero exactly if the queries have been answered. -/
def Reports (ret : Int) (events : List Event) : Prop :=
  (ret = 0 ∨ ret = 1) ∧ (ret = 0 ↔ ⟨.doQuery, (0 : Int)⟩ ∈ events)

def AllEarly (events : List Event) : Prop := ∀ event ∈ events, event.1.Early

theorem AllEarly.reports (h : AllEarly events) : Reports 1 events := by
  refine ⟨.inr rfl, nofun, fun hdone => (h _ hdone).elim⟩

theorem AllEarly.append {later : List Event} (h : AllEarly events)
    (hlater : AllEarly later) : AllEarly (events ++ later) := by
  intro event hevent
  exact (List.mem_append.mp hevent).elim (h event) (hlater event)

theorem Reports.append {ret : Int} {later : List Event}
    (h : Reports ret events) (hlater : AllEarly later) :
    Reports ret (events ++ later) := by
  refine ⟨h.1, h.2.trans ⟨List.mem_append_left _, fun hdone => ?_⟩⟩
  exact (List.mem_append.mp hdone).resolve_right fun hlate => hlater _ hlate

theorem prepareAndRun_order {dop : Dop} (hparse : 1 ≤ dop.numParseTasks)
    (hstore : 2 ≤ dop.numStoreTasks) (hearly : AllEarly events)
    (hfork : flags.externalMysql = false → Forked events) :
    (flags.prepareAndRun dop).Safe (order flags) Reports events := by
  refine safe_order trivial ?_
  have hdriver : ∀ ok : Bool, AllEarly (events ++ [⟨.getDriverInstance, ok⟩]) :=
    fun ok => hearly.append (by simp [AllEarly, Call.Early])
  rintro (_ | _)
  · exact (hdriver false).reports
  refine safe_bind.mpr
    ((doPrepare_order.and (Database.doPrepare flags).early.order).mono ?_)
  rintro (_ | prepared) _ ⟨hprepared, later, rfl, hlater⟩
  · exact ((hdriver true).append hlater).reports
  obtain ⟨steps, heq, hsteps⟩ := hprepared prepared rfl
  have hpos : 0 < prepared.projectId := by
    cases hsteps with
    | mk projectId numbers hnumbers => exact hnumbers.pos
  have hbefore := (hdriver true).append hlater
  refine safe_order ⟨hparse, hstore, hpos, _, steps, heq, hsteps, ?_⟩
    fun indexed => ?_
  · intro hexternal
    obtain ⟨pid, hpid, hmem⟩ := hfork hexternal
    exact ⟨pid, hpid, List.mem_append_left _ hmem⟩
  split
  · refine ⟨.inr rfl, nofun, fun hdone => ?_⟩
    rcases List.mem_append.mp hdone with hearlier | hlast
    · exact (hbefore _ hearlier).elim
    · simp at hlast
  · rename_i hindexed
    rw [not_not] at hindexed
    refine safe_order ⟨_, _, _, _, by rw [hindexed]⟩ fun queried => ?_
    split
    · rename_i hqueried
      refine ⟨.inr rfl, nofun, fun hdone => ?_⟩
      rcases List.mem_append.mp hdone with hearlier | hlast
      · rcases List.mem_append.mp hearlier with hearlier | hindexing
        · exact (hbefore _ hearlier).elim
        · simp at hindexing
      · rw [List.mem_singleton] at hlast
        exact absurd (by simpa using hlast.symm) hqueried
    · rename_i hqueried
      rw [not_not] at hqueried
      exact ⟨.inl rfl, fun _ => by simp [hqueried], fun _ => rfl⟩

theorem doMain_order (cpus : UInt32) (fuel : Nat) :
    (flags.doMain cpus fuel).Safe (order flags)
      (fun result events' => Reports result.1 events') [] := by
  by_cases hdop : (determineDop cpus flags.maxDop).numParseTasks < 1 ∨
      (determineDop cpus flags.maxDop).numStoreTasks < 1
  · simp only [Flags.doMain, if_pos hdop]
    trivial
  · simp only [Flags.doMain, if_neg hdop]
    refine safe_order trivial ?_
    have hearly : ∀ found, AllEarly
        ([] ++ [⟨.autoDetectFromDirectory flags.root, found⟩]) :=
      fun found => by simp [AllEarly, Call.Early]
    rintro (_ | numCmds)
    · exact (hearly none).reports
    · simp only
      split_ifs
      · exact (hearly _).reports
      · trivial
      · refine safe_bind.mpr ((startManaged_order fuel).and
          (Early.startManaged flags fuel).order |>.mono ?_)
        rintro (_ | m) _ ⟨hfork, later, rfl, hlater⟩
        · exact ((hearly _).append hlater).reports
        · refine safe_bind.mpr ((prepareAndRun_order (by omega) ?_
            ((hearly _).append hlater) (hfork m rfl)).mono fun _ _ h => h)
          simp only [determineDop]
          omega

theorem main_safe_order (cpus : UInt32) (fuel : Nat) :
    (flags.main cpus fuel).Safe (order flags) Reports [] := by
  refine safe_bind.mpr ((doMain_order cpus fuel).mono ?_)
  rintro ⟨ret, m⟩ events' hreports
  refine safe_order trivial fun answer => ?_
  have hjoined : Reports ret (events' ++ [⟨.destroyThreadPool, answer⟩]) :=
    hreports.append (by simp [AllEarly, Call.Early])
  cases m with
  | none => exact hjoined
  | some m =>
      refine safe_bind.mpr ((Early.destroy m).order.mono ?_)
      rintro _ _ ⟨later, rfl, hlater⟩
      exact hjoined.append hlater

end Specs

/--
In every run, `do_indexing` is called right after a `do_prepare` that has gone
through, on a managed server only if one was started, with at least one parse
and two store tasks; the queries follow an indexing that returned 0; and the
exit status is 0 or 1, and 0 exactly if the queries returned 0.
-/
theorem main_order (flags : Flags) (cpus : UInt32) (fuel : Nat) :
    (∀ events c next, (flags.main cpus fuel).Reaches events (.call c next) →
      flags.Orderly events c) ∧
    ∀ events ret, (flags.main cpus fuel).Reaches events (.ret ret) →
      Reports ret events := by
  have hsafe : (flags.main cpus fuel).Safe (order flags) Reports [] :=
    main_safe_order cpus fuel
  constructor
  · intro events c next h
    have hallows := hsafe.allows h
    rwa [order, Monitor.after_history, List.nil_append] at hallows
  · intro events ret h
    have hreturns := hsafe.returns h
    rwa [order, Monitor.after_history, List.nil_append] at hreturns

end Pview.Startup
