import Pview.FileIds.Integrity

/-!
# Agreement on file ids

Within one run, a path that is not a main file has one row and one id: a call
that finds no row keeps the table locked until it has written one.  A call that
fails has changed nothing.  Main files are exempt, since every indexing of one
adds a row for it.
-/

namespace Pview.FileIds

open Pview.Foundation
open Pview.Indexer
open Pview.MySQL
open Pview.Pipeline (Project CompileCommand Flags)

variable {P C : Type*} {project : Project} {column : String → String}

/-! ## Agreement -/

def State.Main (project : Project) (s : State P C) (text : String) : Prop :=
  ∃ main ∈ s.indexed, project.stored main = text

structure Return.Failed (call : Return) : Prop where
  fileId : call.fileId = -1
  table : call.tableAfter = call.tableBefore
  cache : call.cacheAfter = call.cacheBefore

def State.paths (s : State P C) : List String :=
  s.returned.map (fun call => call.filepath) ++ s.given.map Prod.fst

/-- The filepath column tells the paths apart. -/
def State.ToldApart (project : Project) (s : State P C) : Prop :=
  ∀ filepath ∈ s.paths, ∀ filepath' ∈ s.paths,
    project.stored filepath = project.stored filepath' → filepath = filepath'

structure State.Agrees (project : Project) (s : State P C) : Prop where
  oneRow : ∀ filepath, ¬s.Main project (project.stored filepath) →
    ∀ row ∈ s.tables.filepaths, ∀ row' ∈ s.tables.filepaths,
      row.filepath = project.stored filepath →
        row'.filepath = project.stored filepath → row = row'
  sameId : ∀ call ∈ s.returned, ∀ call' ∈ s.returned,
    ¬s.Main project (project.stored call.filepath) →
      call'.filepath = call.filepath → 0 ≤ call.fileId → 0 ≤ call'.fileId →
        call'.fileId = call.fileId
  otherCalls : ∀ call ∈ s.returned, ∀ call' ∈ s.returned, 0 ≤ call.fileId →
    call'.fileId = call.fileId → call'.filepath = call.filepath
  otherGiven : ∀ call ∈ s.returned, ∀ filepath, 0 ≤ call.fileId →
    (filepath, call.fileId) ∈ s.given → filepath = call.filepath
  otherRows : ∀ call ∈ s.returned, ∀ row ∈ s.tables.filepaths,
    0 ≤ call.fileId → row.filepathId = call.fileId →
      row.filepath = project.stored call.filepath
  failed : ∀ call ∈ s.returned, call.fileId < 0 → call.Failed

structure Start.Ok (start : Start) : Prop where
  filepathIdKey : (start.filepaths.map fun row => row.filepathId).Nodup
  oneRow : (start.filepaths.map fun row => row.filepath).Nodup
  above : ∀ row ∈ start.filepaths, row.filepathId < start.nextFilepathId

def Action.replies : Action P C → List Reply
  | .lock _ reply => [reply]
  | .replace _ _ reply => [reply]
  | .unlock _ reply => [reply]
  | .dml _ reply => [reply]
  | _ => []

/-- A step of a run in which each statement is executed or fails for good. -/
def Settled (s : State P C) (action : Action P C) : Prop :=
  action.restarts = false ∧ ∀ reply ∈ action.replies,
    Executes s.flags.retryCount reply ∨ FailsForGood s.flags.retryCount reply

instance (s : State P C) (action : Action P C) :
    Decidable (Settled s action) :=
  inferInstanceAs (Decidable (_ ∧ _))

def Action.draws : Action P C → Bool
  | .getNextFilepathId _ => true
  | _ => false

/-- The ids that calls read or draw are ids for `getInt` and for their
callers. -/
def Representable (s : State P C) (action : Action P C) : Prop :=
  InRange action ∧ (action.draws = true → 0 ≤ s.nextFilepathId)

instance (s : State P C) (action : Action P C) :
    Decidable (Representable s action) :=
  inferInstanceAs (Decidable (_ ∧ _))

/-! ## The invariant -/

def Present (rows : List FilepathRow) (text : String) (id : Int) : Prop :=
  ∃ row ∈ rows, row.filepath = text ∧ row.filepathId = id

def Absent (rows : List FilepathRow) (text : String) : Prop :=
  ∀ row ∈ rows, row.filepath ≠ text

def Phase.Locked : Phase → Prop
  | .querying _ _ | .assigning _ _ | .replacing _ _ _ | .unlocking _ _ _ => True
  | .idle | .locking _ => False

section Sound

variable (project : Project) (main : String → Prop) (rows : List FilepathRow)

def Settles (filepath : String) (id : Int) : Prop :=
  main (project.stored filepath) ∨ Present rows (project.stored filepath) id

def Phase.Sound : Phase → Prop
  | .querying _ before => before = rows
  | .assigning filepath before =>
      before = rows ∧ Absent rows (project.stored filepath)
  | .replacing filepath before fnId =>
      before = rows ∧ Absent rows (project.stored filepath) ∧ 0 ≤ fnId
  | .unlocking filepath before fnId =>
      0 ≤ fnId ∧ Settles project main rows filepath fnId ∨
        fnId = -1 ∧ before = rows
  | .idle | .locking _ => True

def CacheSound (cache : List (String × Int)) : Prop :=
  ∀ entry ∈ cache, 0 ≤ entry.2 ∧
    Settles project main rows entry.1 entry.2

def Return.Sound (call : Return) : Prop :=
  0 ≤ call.fileId ∧ Settles project main rows call.filepath call.fileId ∨
    call.Failed

end Sound

structure State.Inv (project : Project) (s : State P C) : Prop where
  owned : s.Owned project
  exclusive : ∀ p, (s.parsers p).phase.Locked → s.holder = some p
  phase : ∀ p, (s.parsers p).phase.Sound project (s.Main project)
    s.tables.filepaths
  cache : ∀ p, CacheSound project (s.Main project) s.tables.filepaths
    (s.parsers p).cache
  returned : ∀ call ∈ s.returned, call.Sound project (s.Main project)
    s.tables.filepaths
  queued : ∀ batch ∈ s.queue, batch.unit.filepath ∈ s.indexed
  storing : ∀ c filepathId filepath createTime,
    .replaceFilepath filepathId filepath createTime ∈ s.storers c →
      filepath ∈ s.indexed
  oneRow : ∀ text, ¬s.Main project text →
    ∀ row ∈ s.tables.filepaths, ∀ row' ∈ s.tables.filepaths,
      row.filepath = text → row'.filepath = text → row = row'

section Settles

variable {main main' : String → Prop} {rows rows' : List FilepathRow}

theorem CacheSound.mono (hsettles : ∀ filepath id,
      Settles project main rows filepath id →
        Settles project main' rows' filepath id)
    {cache : List (String × Int)} (h : CacheSound project main rows cache) :
    CacheSound project main' rows' cache :=
  fun entry hentry => ⟨(h entry hentry).1, hsettles _ _ (h entry hentry).2⟩

theorem Return.Sound.mono (hsettles : ∀ filepath id,
      Settles project main rows filepath id →
        Settles project main' rows' filepath id)
    {call : Return} (h : call.Sound project main rows) :
    call.Sound project main' rows' :=
  h.imp_left fun hfound => ⟨hfound.1, hsettles _ _ hfound.2⟩

theorem Phase.Sound.mono (hmain : ∀ text, main text → main' text)
    {phase : Phase} (h : phase.Sound project main rows) :
    phase.Sound project main' rows := by
  cases phase with
  | unlocking filepath before fnId =>
      exact h.imp_left fun hfound => ⟨hfound.1, hfound.2.imp_left (hmain _)⟩
  | _ => exact h

theorem Phase.sound_of_not_locked {phase : Phase} (h : ¬phase.Locked) :
    phase.Sound project main rows := by
  cases phase with
  | idle => trivial
  | locking => trivial
  | _ => exact absurd trivial h

theorem settles_replaceFilepath {filepathId : Int} {text : String}
    (createTime : Int)
    (hid : ∀ row ∈ rows, row.filepathId = filepathId → row.filepath = text)
    (hmain : main text ∨ Absent rows text) {filepath : String} {id : Int}
    (h : Settles project main rows filepath id) :
    Settles project main (replaceFilepath rows filepathId text createTime)
      filepath id := by
  rcases h with hfile | ⟨row, hrow, hpath, rfl⟩
  · exact .inl hfile
  · by_cases hsame : row.filepathId = filepathId
    · have htext := hid row hrow hsame
      rcases hmain with hmain | habsent
      · left
        rwa [← hpath, htext]
      · exact absurd htext (habsent row hrow)
    · refine .inr ⟨row, ?_, hpath, rfl⟩
      exact List.mem_append_left _
        (List.mem_filter.mpr ⟨hrow, decide_eq_true hsame⟩)

theorem oneRow_replaceFilepath {filepathId : Int} {text : String}
    (createTime : Int) (hmain : main text ∨ Absent rows text)
    {path : String} (hpath : ¬main path)
    (hone : ∀ row ∈ rows, ∀ row' ∈ rows, row.filepath = path →
      row'.filepath = path → row = row') :
    ∀ row ∈ replaceFilepath rows filepathId text createTime,
      ∀ row' ∈ replaceFilepath rows filepathId text createTime,
        row.filepath = path → row'.filepath = path → row = row' := by
  have hnew : ∀ row ∈ rows, row.filepath = path → text ≠ path := by
    rintro row hrow hold rfl
    exact hmain.elim hpath fun habsent => habsent row hrow hold
  intro row hrow row' hrow' htext htext'
  rcases mem_replaceFilepath hrow with hold | rfl
  · rcases mem_replaceFilepath hrow' with hold' | rfl
    · exact hone row hold row' hold' htext htext'
    · exact absurd htext' (hnew row hold htext)
  · rcases mem_replaceFilepath hrow' with hold' | rfl
    · exact absurd htext (hnew row' hold' htext')
    · rfl

end Settles

/-! ## One step -/

namespace State.Inv

variable {s s' : State P C}

theorem not_locked (h : s.Inv project) {p : P}
    (hother : s.holder ≠ some p) : ¬(s.parsers p).phase.Locked :=
  fun hlocked => hother (h.exclusive p hlocked)

theorem advance (h : s.Inv project) (howned : s'.Owned project)
    (hsettles : ∀ filepath id,
      Settles project (s.Main project) s.tables.filepaths filepath id →
        Settles project (s'.Main project) s'.tables.filepaths filepath id)
    (hexclusive : ∀ p, (s'.parsers p).phase.Locked → s'.holder = some p)
    (hphase : ∀ p, (s'.parsers p).phase.Sound project (s'.Main project)
      s'.tables.filepaths)
    (hcache : ∀ p, (s'.parsers p).cache = (s.parsers p).cache ∨
      CacheSound project (s'.Main project) s'.tables.filepaths
        (s'.parsers p).cache)
    (hreturned : ∀ call ∈ s'.returned, call ∈ s.returned ∨
      call.Sound project (s'.Main project) s'.tables.filepaths)
    (hqueued : ∀ batch ∈ s'.queue, batch.unit.filepath ∈ s'.indexed)
    (hstoring : ∀ c filepathId filepath createTime,
      .replaceFilepath filepathId filepath createTime ∈ s'.storers c →
        filepath ∈ s'.indexed)
    (honeRow : ∀ text, ¬s'.Main project text →
      ∀ row ∈ s'.tables.filepaths, ∀ row' ∈ s'.tables.filepaths,
        row.filepath = text → row'.filepath = text → row = row') :
    s'.Inv project where
  owned := howned
  exclusive := hexclusive
  phase := hphase
  cache p := by
    rcases hcache p with hsame | hsound
    · rw [hsame]
      exact (h.cache p).mono hsettles
    · exact hsound
  returned call hcall := by
    rcases hreturned call hcall with hold | hsound
    · exact (h.returned call hold).mono hsettles
    · exact hsound
  queued := hqueued
  storing := hstoring
  oneRow := honeRow

theorem replaceFilepath (h : s.Inv project) (howned : s'.Owned project)
    {filepathId : Int} {text : String} {createTime : Int}
    (hrows : s'.tables.filepaths = MySQL.replaceFilepath s.tables.filepaths
      filepathId text createTime)
    (hclaim : s.Claims project text filepathId)
    (hmain : s.Main project text ∨ Absent s.tables.filepaths text)
    (hindexed : s'.indexed = s.indexed) (hqueue : s'.queue = s.queue)
    (hreturned : s'.returned = s.returned)
    (hcache : ∀ p, (s'.parsers p).cache = (s.parsers p).cache)
    (hexclusive : ∀ p, (s'.parsers p).phase.Locked → s'.holder = some p)
    (hphase : ∀ p, (s'.parsers p).phase.Sound project (s'.Main project)
      s'.tables.filepaths)
    (hstoring : ∀ c filepathId filepath createTime,
      .replaceFilepath filepathId filepath createTime ∈ s'.storers c →
        filepath ∈ s.indexed) : s'.Inv project := by
  have hsameMain : s'.Main project = s.Main project := by
    unfold State.Main
    rw [hindexed]
  have hid : ∀ row ∈ s.tables.filepaths, row.filepathId = filepathId →
      row.filepath = text := fun row hrow hid =>
    h.owned.unique row.filepath text filepathId (.inr ⟨row, hrow, rfl, hid⟩)
      hclaim
  refine h.advance howned ?_ hexclusive hphase (fun p => .inl (hcache p)) ?_ ?_
    ?_ ?_
  · rw [hsameMain, hrows]
    exact fun filepath id => settles_replaceFilepath createTime hid hmain
  · rw [hreturned]
    exact fun call hcall => .inl hcall
  · rw [hqueue, hindexed]
    exact h.queued
  · rw [hindexed]
    exact hstoring
  · rw [hsameMain, hrows]
    exact fun path hpath => oneRow_replaceFilepath createTime hmain hpath
      (h.oneRow path hpath)

theorem setStorer (h : s.Inv project) (howned : s'.Owned project)
    (hrows : s'.tables.filepaths = s.tables.filepaths)
    (hparsers : s'.parsers = s.parsers) (hholder : s'.holder = s.holder)
    (hindexed : s'.indexed = s.indexed) (hqueue : s'.queue = s.queue)
    (hreturned : s'.returned = s.returned)
    (hstoring : ∀ c filepathId filepath createTime,
      .replaceFilepath filepathId filepath createTime ∈ s'.storers c →
        filepath ∈ s.indexed) : s'.Inv project := by
  have hmain : s'.Main project = s.Main project := by
    unfold State.Main
    rw [hindexed]
  refine ⟨howned, ?_, ?_, ?_, ?_, ?_, ?_, ?_⟩
  · rw [hparsers, hholder]
    exact h.exclusive
  · rw [hparsers, hmain, hrows]
    exact h.phase
  · rw [hparsers, hmain, hrows]
    exact h.cache
  · rw [hreturned, hmain, hrows]
    exact h.returned
  · rw [hqueue, hindexed]
    exact h.queued
  · rw [hindexed]
    exact hstoring
  · rw [hmain, hrows]
    exact h.oneRow

variable [DecidableEq P]

theorem setParser (h : s.Inv project) (howned : s'.Owned project) {p : P}
    {parser : Parser}
    (hparsers : s'.parsers = Function.update s.parsers p parser)
    (hrows : s'.tables.filepaths = s.tables.filepaths)
    (hindexed : s'.indexed = s.indexed) (hqueue : s'.queue = s.queue)
    (hstorers : s'.storers = s.storers)
    (hholder : parser.phase.Locked → s'.holder = some p)
    (hothers : ∀ q, q ≠ p → s.holder = some q → s'.holder = some q)
    (hphase : parser.phase.Sound project (s.Main project) s.tables.filepaths)
    (hcache : CacheSound project (s.Main project) s.tables.filepaths
      parser.cache)
    (hreturned : ∀ call ∈ s'.returned, call ∈ s.returned ∨
      call.Sound project (s.Main project) s.tables.filepaths) :
    s'.Inv project := by
  have hmain : s'.Main project = s.Main project := by
    unfold State.Main
    rw [hindexed]
  apply h.advance howned
  · rw [hmain, hrows]
    exact fun _ _ hsettles => hsettles
  · intro q
    rw [hparsers, Function.update_apply]
    split
    · rename_i heq
      rw [heq]
      exact hholder
    · rename_i hne
      exact fun hlocked => hothers q hne (h.exclusive q hlocked)
  · intro q
    rw [hparsers, hmain, hrows, Function.update_apply]
    split
    · exact hphase
    · exact h.phase q
  · intro q
    rw [hparsers, hmain, hrows, Function.update_apply]
    split
    · exact .inr hcache
    · exact .inl rfl
  · rw [hmain, hrows]
    exact hreturned
  · rw [hqueue, hindexed]
    exact h.queued
  · rw [hstorers, hindexed]
    exact h.storing
  · rw [hmain, hrows]
    exact h.oneRow

end State.Inv

theorem Parser.cache_step {rows : List FilepathRow} {parser parser' : Parser}
    {unit : CurrentUnit} {action : ParseAction} {returned : List Return}
    (h : parser.step project rows unit action = some (parser', returned)) :
    ¬parser'.phase.Locked ∧ parser'.cache = parser.cache ∧
      ∀ call ∈ returned, (call.filepath, call.fileId) ∈ parser.cache := by
  have hunlocked : parser.phase = .idle → ¬parser.phase.Locked := by
    intro hidle
    rw [hidle]
    exact id
  cases Parser.effect_of_step h with
  | current file idle source => exact ⟨hunlocked idle, rfl, by simp⟩
  | cached file filepath fileId idle source hit =>
      exact ⟨hunlocked idle, rfl, by simpa using hit⟩
  | missed file filepath idle source miss => exact ⟨id, rfl, by simp⟩
  | outside file filepath idle source => exact ⟨hunlocked idle, rfl, by simp⟩
  | addFuncDef d idle located => exact ⟨hunlocked idle, rfl, by simp⟩
  | addFuncCall d idle located => exact ⟨hunlocked idle, rfl, by simp⟩
  | fail idle => exact ⟨hunlocked idle, rfl, by simp⟩
  | crash filepath before was => exact ⟨id, rfl, by simp⟩

theorem ret_ne_zero_iff_not_executes {retryCount : Int} {reply : Reply}
    (h : Executes retryCount reply ∨ FailsForGood retryCount reply) :
    (MySQL.dml retryCount reply).ret ≠ 0 ↔ ¬Executes retryCount reply := by
  rw [dml_ret_ne_zero_iff]
  constructor
  · exact fun hfails hexecutes => not_failsForGood_of_executes hexecutes hfails
  · exact h.resolve_left

theorem absent_of_filepathIds {rows : List FilepathRow} {text : String}
    (h : filepathIds rows text = []) : Absent rows text := by
  intro row hrow hpath
  have hid : row.filepathId ∈ filepathIds rows text :=
    List.mem_map_of_mem (List.mem_filter.mpr ⟨hrow, decide_eq_true hpath⟩)
  rw [h] at hid
  contradiction

theorem present_of_filepathIds {rows : List FilepathRow} {text : String}
    {id : Int} (h : id ∈ filepathIds rows text) : Present rows text id := by
  obtain ⟨row, hrow, hid⟩ := List.mem_map.mp h
  rw [List.mem_filter, decide_eq_true_eq] at hrow
  exact ⟨row, hrow.1, hrow.2, hid⟩

namespace State.Inv

variable [DecidableEq P] [DecidableEq C] {s s' : State P C}

theorem replace_step {p : P} {mtime : Int} {reply : Reply}
    (h : s.Inv project) (howned : s'.Owned project)
    (hsettled : Settled s (.replace p mtime reply))
    (hstep : s.step project column (.replace p mtime reply) = some s') :
    s'.Inv project := by
  have hkeep : ∀ call ∈ s.returned, call ∈ s.returned ∨
      call.Sound project (s.Main project) s.tables.filepaths :=
    fun call hcall => .inl hcall
  cases effect_of_step hstep with
  | replace p mtime reply filepath before fnId was free =>
      have hphase := h.phase p
      rw [was] at hphase
      have hheld : s.holder = some p := h.exclusive p (by rw [was]; trivial)
      have hret := ret_ne_zero_iff_not_executes
        (hsettled.2 reply (by simp [Action.replies]))
      rcases Tables.dml_cases project column s.flags.retryCount reply s.tables
        (.replaceFilepath fnId filepath mtime) with
        ⟨hexecutes, heq⟩ | ⟨hfails, heq⟩
      · have hrows := congrArg Tables.filepaths heq
        rw [if_neg (hret.not.mpr (not_not.mpr hexecutes))] at *
        have hclaim : s.Claims project (project.stored filepath) fnId := by
          apply State.Knows.claims
          refine ⟨.parser p, ?_⟩
          simp [State.pairsAt, Parser.pairs, was, Phase.pairs]
        refine h.replaceFilepath howned hrows hclaim (.inr hphase.2.1) rfl rfl
          rfl ?_ ?_ ?_ h.storing
        · intro q
          simp only [State.setPhase, State.setParser, Function.update_apply]
          split
          · rename_i hq
            rw [hq]
          · rfl
        · intro q hlocked
          simp only [State.setPhase, State.setParser,
            Function.update_apply] at hlocked
          split at hlocked
          · rename_i hq
            rw [hq]
            exact hheld
          · exact h.exclusive q hlocked
        · intro q
          simp only [State.setPhase, State.setParser, Function.update_apply]
          split
          · refine .inl ⟨hphase.2.2, .inr ?_⟩
            rw [hrows]
            exact ⟨_, List.mem_append_right _ (List.mem_singleton_self _), rfl,
              rfl⟩
          · rename_i hne
            apply Phase.sound_of_not_locked
            apply h.not_locked
            rw [hheld, Ne, Option.some.injEq]
            exact fun heq => hne heq.symm
      · have hrows := congrArg Tables.filepaths heq
        rw [if_pos (hret.mpr hfails)] at *
        refine h.setParser howned rfl hrows rfl rfl rfl (fun _ => hheld)
          (fun q _ => id) ?_ (h.cache p) hkeep
        exact .inr ⟨rfl, hphase.1⟩

theorem unlock_step {p : P} {reply : Reply} (h : s.Inv project)
    (howned : s'.Owned project)
    (hstep : s.step project column (.unlock p reply) = some s') :
    s'.Inv project := by
  cases effect_of_step hstep with
  | unlock p reply filepath before fnId was =>
      have hphase := h.phase p
      rw [was] at hphase
      refine h.setParser howned rfl rfl rfl rfl rfl ?_ ?_ trivial ?_ ?_
      · exact fun hlocked => hlocked.elim
      · intro q hne hheld
        have hother : ¬(Executes s.flags.retryCount reply ∧
            s.holder = some p) := by
          rintro ⟨-, hown⟩
          rw [hheld, Option.some.injEq] at hown
          exact hne hown
        exact (if_neg hother).trans hheld
      · simp only [Parser.finish]
        split
        · rename_i hid
          intro entry hentry
          rcases List.mem_cons.mp hentry with rfl | hold
          · rcases hphase with hfound | ⟨hneg, -⟩
            · exact hfound
            · rw [hneg] at hid
              exact absurd hid (by decide)
          · exact h.cache p entry hold
        · exact h.cache p
      · intro call hcall
        rcases List.mem_cons.mp hcall with rfl | hold
        · right
          rcases hphase with hfound | ⟨rfl, hbefore⟩
          · exact .inl hfound
          · exact .inr ⟨rfl, hbefore.symm, rfl⟩
        · exact .inl hold

theorem sendIndexedResult_step {p : P} {defGroups : List (List (Seen FuncDef))}
    {callGroups : List (List (Seen FuncCall))}
    (h : s.Inv project) (howned : s'.Owned project)
    (hstep : s.step project column
      (.sendIndexedResult p defGroups callGroups) = some s') :
    s'.Inv project := by
  cases effect_of_step hstep with
  | sendIndexedResult p batch cache was cut =>
      have hmain : ∀ text, s.Main project text →
          ∃ main ∈ batch.unit.filepath :: s.indexed,
            project.stored main = text := by
        rintro text ⟨main, hmem, htext⟩
        exact ⟨main, List.mem_cons_of_mem _ hmem, htext⟩
      refine h.advance howned ?_ ?_ ?_ ?_ ?_ ?_ ?_ ?_
      · exact fun filepath id hsettles => hsettles.imp_left (hmain _)
      · intro q hlocked
        simp only [State.setParser, Function.update_apply] at hlocked
        split at hlocked
        · exact hlocked.elim
        · exact h.exclusive q hlocked
      · intro q
        simp only [State.setParser, Function.update_apply]
        split
        · trivial
        · exact (h.phase q).mono hmain
      · intro q
        left
        simp only [State.setParser, Function.update_apply]
        split
        · rename_i hq
          rw [hq, was]
        · rfl
      · exact fun call hcall => .inl hcall
      · intro old hold
        rcases List.mem_append.mp hold with hqueued | hnew
        · exact List.mem_cons_of_mem _ (h.queued old hqueued)
        · rw [List.mem_singleton.mp hnew]
          exact List.mem_cons_self
      · intro c filepathId filepath createTime hstmt
        exact List.mem_cons_of_mem _ (h.storing c _ _ _ hstmt)
      · exact fun text htext => h.oneRow text fun hold => htext (hmain text hold)

theorem dml_step {c : C} {reply : Reply} (h : s.Inv project)
    (howned : s'.Owned project)
    (hstep : s.step project column (.dml c reply) = some s') :
    s'.Inv project := by
  cases effect_of_step hstep with
  | dml c reply stmt rest was unblocked =>
      have hmarker : ∀ filepathId filepath createTime,
          .replaceFilepath filepathId filepath createTime ∈ stmt :: rest →
            filepath ∈ s.indexed := by
        rw [← was]
        exact h.storing c
      have hstoring : ∀ c' filepathId filepath createTime,
          .replaceFilepath filepathId filepath createTime ∈
              Function.update s.storers c
                (if (MySQL.dml s.flags.retryCount reply).ret ≠ 0 then []
                  else rest) c' → filepath ∈ s.indexed := by
        intro c' filepathId filepath createTime hstmt
        rw [Function.update_apply] at hstmt
        split_ifs at hstmt
        · contradiction
        · exact hmarker _ _ _ (List.mem_cons_of_mem _ hstmt)
        · exact h.storing c' _ _ _ hstmt
      rcases Tables.dml_cases project column s.flags.retryCount reply s.tables
        stmt with ⟨hexecutes, heq⟩ | ⟨-, heq⟩
      · have hrows := congrArg Tables.filepaths heq
        cases stmt with
        | replaceFilepath filepathId filepath createTime =>
            have hfree : s.holder = none :=
              not_not.mp (unblocked hexecutes)
            have hclaim : s.Claims project (project.stored filepath)
                filepathId := by
              apply State.Knows.claims
              refine ⟨.storer c, ?_⟩
              rw [State.pairsAt, was, List.flatMap_cons]
              exact List.mem_append_left _ (List.mem_singleton_self _)
            refine h.replaceFilepath howned hrows hclaim
              (.inl ⟨filepath, hmarker _ _ _ List.mem_cons_self, rfl⟩) rfl rfl
              rfl (fun _ => rfl) h.exclusive ?_ hstoring
            intro q
            apply Phase.sound_of_not_locked
            apply h.not_locked
            rw [hfree]
            exact (Option.some_ne_none q).symm
        | insertFuncDefs currentTime rows =>
            exact h.setStorer howned hrows rfl rfl rfl rfl rfl hstoring
        | insertFuncCalls currentTime rows =>
            exact h.setStorer howned hrows rfl rfl rfl rfl rfl hstoring
      · exact h.setStorer howned (congrArg Tables.filepaths heq) rfl rfl rfl rfl
          rfl hstoring

theorem parse_step {p : P} {move : ParseAction} (h : s.Inv project)
    (howned : s'.Owned project)
    (hstep : s.step project column (.parse p move) = some s') :
    s'.Inv project := by
  cases effect_of_step hstep with
  | parse _ action unit parser returned was moves =>
      obtain ⟨hunlocked, hcache, hcalls⟩ := Parser.cache_step moves
      refine h.setParser howned rfl rfl rfl rfl rfl ?_ (fun q _ => id) ?_ ?_ ?_
      · exact fun hlocked => absurd hlocked hunlocked
      · exact Phase.sound_of_not_locked hunlocked
      · rw [hcache]
        exact h.cache p
      · intro call hcall
        rcases List.mem_append.mp hcall with hnew | hold
        · exact .inr (.inl (h.cache p _ (hcalls call hnew)))
        · exact .inl hold

theorem lock_step {p : P} {reply : Reply} (h : s.Inv project)
    (howned : s'.Owned project) (hsettled : Settled s (.lock p reply))
    (hstep : s.step project column (.lock p reply) = some s') :
    s'.Inv project := by
  cases effect_of_step hstep with
  | lockGranted _ _ filepath was free =>
      refine h.setParser howned rfl rfl rfl rfl rfl (fun _ => rfl) ?_ rfl
        (h.cache p) fun _ => .inl
      intro q hne hheld
      rcases free with hfree | hfree
      · rw [hfree] at hheld
        contradiction
      · rw [hfree] at hheld
        exact hheld
  | lockFailed _ _ filepath was =>
      refine h.setParser howned rfl rfl rfl rfl rfl ?_ (fun q _ => id) trivial
        (h.cache p) ?_
      · exact fun hlocked => hlocked.elim
      · intro call hcall
        rcases List.mem_cons.mp hcall with rfl | hold
        · exact .inr (.inr ⟨rfl, rfl, rfl⟩)
        · exact .inl hold
  | lockLost _ _ filepath was lost =>
      have hsettles := hsettled.2 reply (by simp [Action.replies])
      exact absurd hsettles (not_or.mpr lost)

theorem query_step {p : P} {ids : List Int} (h : s.Inv project)
    (howned : s'.Owned project) (hids : Representable s (.query p ids))
    (hstep : s.step project column (.query p ids) = some s') :
    s'.Inv project := by
  cases effect_of_step hstep with
  | queryFound _ _ filepath before id was stored found =>
      have hheld : s.holder = some p := h.exclusive p (by rw [was]; trivial)
      refine h.setParser howned rfl rfl rfl rfl rfl (fun _ => hheld)
        (fun q _ hother => hother) ?_ (h.cache p) fun _ => .inl
      refine .inl ⟨found, .inr ?_⟩
      rw [getInt_of_inRange (hids.1 id stored.1)]
      exact present_of_filepathIds stored.2
  | queryMissed _ _ filepath before was answer missed =>
      have hphase := h.phase p
      rw [was] at hphase
      have hnone : ids = [] := by
        cases ids with
        | nil => rfl
        | cons id ids =>
            have hid := hids.1 id (List.mem_cons_self)
            have hneg := missed id rfl
            rw [getInt_of_inRange hid] at hneg
            omega
      have hheld : s.holder = some p := h.exclusive p (by rw [was]; trivial)
      refine h.setParser howned rfl rfl rfl rfl rfl (fun _ => hheld)
        (fun q _ => id) ?_ (h.cache p) fun _ => .inl
      rw [hnone, List.nil_perm] at answer
      exact ⟨hphase, absent_of_filepathIds answer⟩

theorem getNextFilepathId_step {p : P} (h : s.Inv project)
    (howned : s'.Owned project)
    (hids : Representable s (.getNextFilepathId p : Action P C))
    (hstep : s.step project column (.getNextFilepathId p) = some s') :
    s'.Inv project := by
  cases effect_of_step hstep with
  | getNextFilepathId _ filepath before was =>
      have hphase := h.phase p
      rw [was] at hphase
      have hheld : s.holder = some p := h.exclusive p (by rw [was]; trivial)
      refine h.setParser howned rfl rfl rfl rfl rfl (fun _ => hheld)
        (fun q _ => id) ?_ (h.cache p) fun _ => .inl
      exact ⟨hphase.1, hphase.2, hids.2 rfl⟩

theorem cleanUp_step {p : P} (h : s.Inv project) (howned : s'.Owned project)
    (hstep : s.step project column (.cleanUp p) = some s') :
    s'.Inv project := by
  cases effect_of_step hstep with
  | cleanUp _ cache was =>
      refine h.setParser howned rfl rfl rfl rfl rfl ?_ ?_ trivial ?_
        fun _ => .inl
      · exact fun hlocked => hlocked.elim
      · intro q hne hheld
        refine (if_neg ?_).trans hheld
        rw [hheld, Option.some.injEq]
        exact hne
      · exact fun entry hentry => absurd hentry (by simp [Parser.new])

theorem getStmts_step {c : C} (h : s.Inv project) (howned : s'.Owned project)
    (hstep : s.step project column (.getStmts c) = some s') :
    s'.Inv project := by
  cases effect_of_step hstep with
  | getStmts _ batch rest was head =>
      have hqueued : ∀ batch' ∈ batch :: rest,
          batch'.unit.filepath ∈ s.indexed := by
        rw [← head]
        exact h.queued
      refine h.advance howned (fun _ _ => id) h.exclusive h.phase
        (fun _ => .inl rfl) (fun _ => .inl) ?_ ?_ h.oneRow
      · exact fun batch' hbatch' =>
          hqueued batch' (List.mem_cons_of_mem _ hbatch')
      · intro c' filepathId filepath createTime hstmt
        simp only [Function.update_apply] at hstmt
        split at hstmt
        · simp only [Batch.stmts, List.mem_append, List.mem_map,
            List.mem_singleton, Stmt.replaceFilepath.injEq, reduceCtorEq,
            and_false, exists_false, false_or] at hstmt
          rw [hstmt.2.1]
          exact hqueued batch List.mem_cons_self
        · exact h.storing c' _ _ _ hstmt

end State.Inv

theorem State.Inv.step [DecidableEq P] [DecidableEq C] {s s' : State P C}
    {action : Action P C} (h : s.Inv project) (hsettled : Settled s action)
    (hids : Representable s action)
    (hstep : s.step project column action = some s') : s'.Inv project := by
  have howned : s'.Owned project := by
    apply h.owned.step hids.1 _ hstep
    rw [hsettled.1]
    exact fun hfalse => absurd hfalse (by decide)
  cases action with
  | startRun flags => exact absurd hsettled.1 (by simp [Action.restarts])
  | beginUnit p command time =>
      cases effect_of_step hstep with
      | beginUnit _ _ _ idle =>
          exact h.setParser howned rfl rfl rfl rfl rfl (h.exclusive p)
            (fun q _ => id) (h.phase p) (h.cache p) fun _ => .inl
  | parse p action => exact h.parse_step howned hstep
  | lock p reply => exact h.lock_step howned hsettled hstep
  | query p ids => exact h.query_step howned hids hstep
  | getNextFilepathId p => exact h.getNextFilepathId_step howned hids hstep
  | replace p mtime reply => exact h.replace_step howned hsettled hstep
  | unlock p reply => exact h.unlock_step howned hstep
  | sendIndexedResult p defGroups callGroups =>
      exact h.sendIndexedResult_step howned hstep
  | cleanUp p => exact h.cleanUp_step howned hstep
  | getStmts c => exact h.getStmts_step howned hstep
  | dml c reply => exact h.dml_step howned hstep

/-! ## Runs -/

theorem State.Inv.start {start : Start} (h : start.Ok) :
    (State.start start : State P C).Inv project where
  owned := State.Owned.start h.filepathIdKey h.above
  exclusive _ hlocked := hlocked.elim
  phase _ := trivial
  cache _ entry hentry := absurd hentry (by simp [State.start, Parser.new])
  returned call hcall := absurd hcall (by simp [State.start])
  queued batch hbatch := absurd hbatch (by simp [State.start])
  storing c filepathId filepath createTime hstmt :=
    absurd hstmt (by simp [State.start])
  oneRow text _ row hrow row' hrow' hpath hpath' :=
    List.inj_on_of_nodup_map h.oneRow hrow hrow' (hpath.trans hpath'.symm)

theorem State.Inv.agrees {s : State P C} (h : s.Inv project)
    (htold : s.ToldApart project) : s.Agrees project := by
  have hclaim : ∀ call ∈ s.returned, 0 ≤ call.fileId →
      s.Claims project (project.stored call.filepath) call.fileId := by
    intro call hcall hid
    apply State.Knows.claims
    refine ⟨.returned, ?_⟩
    simp only [State.pairsAt, mem_nonneg, List.mem_map]
    exact ⟨⟨call, hcall, rfl⟩, hid⟩
  have hpath : ∀ call ∈ s.returned, call.filepath ∈ s.paths := fun call hcall =>
    List.mem_append_left _ (List.mem_map_of_mem hcall)
  have hfound : ∀ call ∈ s.returned, 0 ≤ call.fileId →
      Settles project (s.Main project) s.tables.filepaths call.filepath
        call.fileId := by
    intro call hcall hid
    rcases h.returned call hcall with hfound | hfailed
    · exact hfound.2
    · have hneg := hfailed.fileId
      omega
  refine ⟨?_, ?_, ?_, ?_, ?_, ?_⟩
  · exact fun filepath hmain => h.oneRow _ hmain
  · intro call hcall call' hcall' hmain hsame hid hid'
    have hsettles' := hfound call' hcall' hid'
    rw [hsame] at hsettles'
    obtain ⟨row, hrow, htext, hrowId⟩ :=
      (hfound call hcall hid).resolve_left hmain
    obtain ⟨row', hrow', htext', hrowId'⟩ := hsettles'.resolve_left hmain
    rw [← hrowId, ← hrowId',
      h.oneRow _ hmain row hrow row' hrow' htext htext']
  · intro call hcall call' hcall' hid hsame
    have hclaim' := hclaim call' hcall' (hsame ▸ hid)
    rw [hsame] at hclaim'
    exact htold _ (hpath call' hcall') _ (hpath call hcall)
      (h.owned.unique _ _ _ hclaim' (hclaim call hcall hid))
  · intro call hcall filepath hid hgiven
    have hclaim' : s.Claims project (project.stored filepath) call.fileId :=
      State.Knows.claims ⟨.given, hgiven⟩
    have hdrawn : filepath ∈ s.paths :=
      List.mem_append_right _ (List.mem_map_of_mem (f := Prod.fst) hgiven)
    exact htold _ hdrawn _ (hpath call hcall)
      (h.owned.unique _ _ _ hclaim' (hclaim call hcall hid))
  · intro call hcall row hrow hid hrowId
    exact h.owned.unique _ _ _ (.inr ⟨row, hrow, rfl, hrowId⟩)
      (hclaim call hcall hid)
  · intro call hcall hneg
    rcases h.returned call hcall with ⟨hid, -⟩ | hfailed
    · omega
    · exact hfailed

variable [DecidableEq P] [DecidableEq C]

/--
Within a run, the calls for a path that is not a main file agree on its one
row and its id, and a call that fails changes nothing, if the ids that the
calls read fit an `int32_t` and the column tells the paths apart.
-/
theorem fileIds_agree {start : Start} {s : State P C} (hstart : start.Ok)
    (h : (fileIds project column P C start).ReachWhere
      (fun s action => Settled s action ∧ Representable s action) s)
    (htold : s.ToldApart project) : s.Agrees project := by
  apply State.Inv.agrees _ htold
  apply System.ReachWhere.invariant (I := State.Inv project) _ _ h
  · exact State.Inv.start hstart
  · intro s s' action hs hok hstep
    exact hs.step hok.1 hok.2 hstep

def noStatement : Reply := ⟨false, fun _ => .success⟩

/-- Two tasks ask for one header.  The lock of the second one fails at first,
and it finds the row that the first one writes. -/
def sharedHeader : List (Action Bool Unit) :=
  [.beginUnit false mainCommand 100, .beginUnit true otherCommand 200,
    .parse false (.genSourceLocation "/p/a.h"),
    .parse true (.genSourceLocation "/p/a.h"),
    .lock false succeeds, .query false [], .lock true noStatement,
    .getNextFilepathId false, .replace false 10 succeeds,
    .unlock false succeeds,
    .parse true (.genSourceLocation "/p/a.h"), .lock true succeeds,
    .query true [7], .unlock true succeeds]

theorem fileIds_agree_sharedHeader :
    ∃ s, (fileIds twoFiles id Bool Unit ⟨[⟨4, "b.h", none⟩], 5, {}⟩).runWhere
        (fun s action => Settled s action ∧ Representable s action)
        (.start ⟨[⟨4, "b.h", none⟩], 5, {}⟩) sharedHeader = some s ∧
      s.returned.map (fun call => (call.filepath, call.fileId)) =
        [("a.h", 7), ("a.h", 7), ("a.h", -1)] ∧
      s.Agrees twoFiles := by
  have hrun : ((fileIds twoFiles id Bool Unit
      ⟨[⟨4, "b.h", none⟩], 5, {}⟩).runWhere
        (fun s action => Settled s action ∧ Representable s action)
        (.start ⟨[⟨4, "b.h", none⟩], 5, {}⟩) sharedHeader).map
      (fun s => s.returned.map fun call => (call.filepath, call.fileId)) =
        some [("a.h", 7), ("a.h", 7), ("a.h", -1)] := by
    decide +kernel
  obtain ⟨s, hs, hreturned⟩ := Option.map_eq_some_iff.mp hrun
  refine ⟨s, hs, hreturned, fileIds_agree ?_
    (System.ReachWhere.init.runWhere hs) fun _ _ _ _ hsame => hsame⟩
  exact ⟨by decide, by decide, by decide⟩

/-- An id that does not fit an `int32_t` is not found, and its path is given
another one. -/
theorem fileIds_disagree_bigId :
    ¬∀ (start : Start) (s : State Unit Unit), start.Ok →
      (fileIds twoFiles id Unit Unit start).ReachWhere Settled s →
        s.Agrees twoFiles := by
  intro hall
  have hrun : ((fileIds twoFiles id Unit Unit
      ⟨[⟨2147483648, "a.h", none⟩], 2147483649, {}⟩).runWhere Settled
        (.start ⟨[⟨2147483648, "a.h", none⟩], 2147483649, {}⟩)
        [.beginUnit () mainCommand 100,
          .parse () (.genSourceLocation "/p/a.h"), .lock () succeeds,
          .query () [2147483648], .getNextFilepathId (),
          .replace () 10 succeeds, .unlock () succeeds]).map
      (fun s => (s.tables.filepaths, s.indexed)) =
        some ([⟨2147483648, "a.h", none⟩, ⟨2147483650, "a.h", some 10⟩],
          []) := by
    decide +kernel
  obtain ⟨s, hs, hstate⟩ := Option.map_eq_some_iff.mp hrun
  rw [Prod.mk.injEq] at hstate
  have hagrees := hall _ s ⟨by decide, by decide, by decide⟩
    (System.ReachWhere.init.runWhere hs)
  have hmain : ¬s.Main twoFiles "a.h" := by
    rintro ⟨main, hindexed, -⟩
    rw [hstate.2] at hindexed
    contradiction
  have hone := hagrees.oneRow "a.h" hmain ⟨2147483648, "a.h", none⟩
    (by rw [hstate.1]; simp) ⟨2147483650, "a.h", some 10⟩
    (by rw [hstate.1]; simp) rfl rfl
  exact absurd hone (by decide)

end Pview.FileIds
