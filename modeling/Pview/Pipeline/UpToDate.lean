import Pview.Pipeline.System

/-!
# The up-to-date marker

The row of a main file is written by the last statement of a batch, so a
positive time for it should tell that the statements before it were executed.
An executed statement stays in the log; the invariant follows each batch from
the queue to its last statement.
-/

namespace Pview.Pipeline

open Pview.Foundation
open Pview.Indexer
open Pview.MySQL

variable {project : Project} {P C : Type*}

/-- The symbols of some successful indexing of the command are stored. -/
def State.Complete (s : State project P C) (command : CompileCommand) : Prop :=
  ∃ batch ∈ s.indexed, batch.unit.command = command ∧ batch.symbols ⊆ s.db.log

/-- A positive stored time of a main file tells the truth. -/
def State.UpToDate (s : State project P C) : Prop :=
  ∀ command ∈ project.commands, ∀ answered,
    0 < getFileLastMtime answered s.db.filepaths (project.storedPath command) →
      s.Complete command

/-- No statement for symbols runs out of attempts, no marker is written for a
unit whose main file has the stored path of another compile command, and
`query_or_assign_file_id` gives no positive time to a main file. -/
def Harmless (s : State project P C) : Action P C → Prop
  | .dml c reply => ∀ batch n, s.storers c = .storing batch n →
      (n < batch.symbols.length → Executes s.flags.retryCount reply ∨
        FailsForGood s.flags.retryCount reply) ∧
      (n = batch.symbols.length → Executes s.flags.retryCount reply →
        ∀ command ∈ project.commands,
          project.storedPath batch.unit.command = project.storedPath command →
            batch.unit.command = command)
  | .assignFileId p mtime reply => ∀ unit filepath fnId,
      (s.parsers p).activity = .assigning unit filepath fnId →
        Executes s.flags.retryCount reply → 0 < mtime →
          ∀ command ∈ project.commands,
            project.stored filepath ≠ project.storedPath command
  | _ => True

/-! ## The invariant -/

namespace State

structure Inv (s : State project P C) : Prop where
  queued : s.queue ⊆ s.indexed
  storing : ∀ c batch n, s.storers c = .storing batch n →
    batch ∈ s.indexed ∧ batch.symbols.take n ⊆ s.db.log
  rows : ∀ row ∈ s.db.filepaths, ∀ command ∈ project.commands,
    row.filepath = project.storedPath command →
      ∀ time, row.createTime = some time → 0 < time → s.Complete command

variable {s s' : State project P C}

theorem Complete.mono {command : CompileCommand} (h : s.Complete command)
    (hindexed : s.indexed ⊆ s'.indexed) (hlog : s.db.log ⊆ s'.db.log) :
    s'.Complete command := by
  obtain ⟨batch, hbatch, hcommand, hsymbols⟩ := h
  exact ⟨batch, hindexed hbatch, hcommand, List.Subset.trans hsymbols hlog⟩

theorem Inv.frame (h : s.Inv) (hdb : s'.db = s.db)
    (hindexed : s'.indexed = s.indexed) (hqueue : s'.queue ⊆ s.indexed)
    (hstoring : ∀ c batch n, s'.storers c = .storing batch n →
      batch ∈ s.indexed ∧ batch.symbols.take n ⊆ s.db.log) : s'.Inv where
  queued := by
    rw [hindexed]
    exact hqueue
  storing := by
    rw [hindexed, hdb]
    exact hstoring
  rows := by
    rw [hdb]
    intro row hrow command hcommand hpath time htime hpos
    have hcomplete := h.rows row hrow command hcommand hpath time htime hpos
    apply hcomplete.mono
    · rw [hindexed]
      exact List.Subset.refl _
    · rw [hdb]
      exact List.Subset.refl _

theorem Inv.dml {retryCount : Int} {reply : Reply} {stmt : Statement}
    (h : s.Inv) (hdb : s'.db = s.db.dml project.stored retryCount reply stmt)
    (hindexed : s'.indexed = s.indexed) (hqueue : s'.queue = s.queue)
    (hstoring : ∀ c batch n, s'.storers c = .storing batch n →
      batch ∈ s.indexed ∧ batch.symbols.take n ⊆ s'.db.log)
    (hmarker : ∀ filepathId filepath createTime,
      stmt = .replaceFilepath filepathId filepath createTime →
        Executes retryCount reply → 0 < createTime →
          ∀ command ∈ project.commands,
            project.stored filepath = project.storedPath command →
              s.Complete command) : s'.Inv where
  queued := by
    rw [hqueue, hindexed]
    exact h.queued
  storing := by
    rw [hindexed]
    exact hstoring
  rows := by
    intro row hrow command hcommand hpath time htime hpos
    have hcomplete : s.Complete command := by
      rw [hdb] at hrow
      rcases Database.mem_filepaths_dml hrow with
        hold | ⟨hexecutes, filepathId, filepath, createTime, hstmt, rfl⟩
      · exact h.rows row hold command hcommand hpath time htime hpos
      · have hcreate := fromUnixtime_eq_some htime
        exact hmarker filepathId filepath createTime hstmt hexecutes
          (by omega) command hcommand hpath
    apply hcomplete.mono
    · rw [hindexed]
      exact List.Subset.refl _
    · rw [hdb]
      exact Database.log_subset_dml s.db stmt

private theorem take_succ_subset {batch : Batch project} {n : Nat}
    {stmt : Statement} {log : List Statement}
    (hstmt : batch.symbols[n]? = some stmt)
    (hlog : batch.symbols.take n ⊆ log) :
    batch.symbols.take (n + 1) ⊆ log ++ [stmt] := by
  rw [List.take_add_one, hstmt]
  apply List.append_subset.mpr
  exact ⟨List.subset_append_of_subset_left _ hlog,
    List.subset_append_right _ _⟩

private theorem storing_next {s : State project P C}
    {batch batch' : Batch project} {n m : Nat} {stmt : Statement} {reply : Reply}
    (hnext : batch.stmts[n]? = some stmt)
    (hsettles : n < batch.symbols.length →
      Executes s.flags.retryCount reply ∨ FailsForGood s.flags.retryCount reply)
    (hlog : batch.symbols.take n ⊆ s.db.log)
    (h : Storer.next batch n (MySQL.dml s.flags.retryCount reply).ret =
      .storing batch' m) :
    batch' = batch ∧ batch'.symbols.take m ⊆
      (s.db.dml project.stored s.flags.retryCount reply stmt).log := by
  unfold Storer.next at h
  split at h
  · contradiction
  · rename_i hcontinues
    rw [not_or, dml_ret_ne_zero_iff] at hcontinues
    cases h
    rcases Batch.stmts_getElem hnext with hsymbol | ⟨rfl, -⟩
    · have hlt := (List.getElem?_eq_some_iff.mp hsymbol).1
      have hexecutes := (hsettles hlt).resolve_right hcontinues.1
      rw [Database.dml_of_executes hexecutes]
      exact ⟨rfl, take_succ_subset hsymbol hlog⟩
    · simp [Batch.stmts_eq] at hcontinues

private theorem complete_of_marker {batch : Batch project} {n : Nat}
    {filepathId : Int} {filepath : String} {createTime : Int}
    (hnext : batch.stmts[n]? =
      some (.replaceFilepath filepathId filepath createTime))
    (hbatch : batch ∈ s.indexed) (hlog : batch.symbols.take n ⊆ s.db.log) :
    n = batch.symbols.length ∧ filepath = project.filepath batch.unit.command ∧
      s.Complete batch.unit.command := by
  rcases Batch.stmts_getElem hnext with hsymbol | ⟨rfl, hmarker⟩
  · have hmem := List.mem_of_getElem? hsymbol
    exact absurd hmem
      (batch.replaceFilepath_notMem_symbols filepathId filepath createTime)
  · cases hmarker
    rw [List.take_length] at hlog
    exact ⟨rfl, batch.unit.path, batch, hbatch, rfl, hlog⟩

private theorem Inv.storing_dml (h : s.Inv) {c : C} {batch : Batch project}
    {n : Nat} (hstoring : s.storers c = .storing batch n) (reply : Reply)
    (stmt : Statement) :
    batch ∈ s.indexed ∧ batch.symbols.take n ⊆
      (s.db.dml project.stored s.flags.retryCount reply stmt).log := by
  obtain ⟨hbatch, hlog⟩ := h.storing c batch n hstoring
  exact ⟨hbatch, List.Subset.trans hlog (Database.log_subset_dml s.db stmt)⟩

theorem Inv.step [DecidableEq P] [DecidableEq C] {action : Action P C}
    (h : s.Inv) (hok : Harmless s action) (hstep : s.step action = some s') :
    s'.Inv := by
  cases State.effect_of_step hstep with
  | startRun flags =>
      exact h.frame rfl rfl (List.nil_subset _) (by simp [State.startRun])
  | parse => exact h.frame rfl rfl h.queued h.storing
  | assignFileId p mtime reply unit filepath fnId was =>
      refine h.dml rfl rfl rfl ?_ ?_
      · exact fun c batch n hstoring => h.storing_dml hstoring reply _
      · intro _ _ _ hstmt hexecutes hpos command hcommand hpath
        cases hstmt
        exact absurd hpath
          (hok unit filepath fnId was hexecutes hpos command hcommand)
  | sendIndexedResult p batch =>
      constructor
      · intro old hold
        rw [List.mem_append] at hold ⊢
        exact hold.imp_left fun hqueued => h.queued hqueued
      · intro c old n hstoring
        have hold := h.storing c old n hstoring
        exact ⟨List.mem_append_left _ hold.1, hold.2⟩
      · intro row hrow command hcommand hpath time htime hpos
        exact (h.rows row hrow command hcommand hpath time htime hpos).mono
          (List.subset_append_left _ _) (List.Subset.refl _)
  | getStmts c batch rest was head =>
      have hbatches : batch :: rest ⊆ s.indexed := by
        rw [← head]
        exact h.queued
      refine h.frame rfl rfl (List.subset_of_cons_subset hbatches) ?_
      intro c' batch' n hstoring
      rcases update_eq_cases hstoring with ⟨-, hnew⟩ | hold
      · cases hnew
        exact ⟨hbatches List.mem_cons_self, by simp⟩
      · exact h.storing c' batch' n hold
  | dml c reply batch n stmt was next =>
      obtain ⟨hbatch, hlog⟩ := h.storing c batch n was
      obtain ⟨hsettles, halone⟩ := hok batch n was
      refine h.dml rfl rfl rfl ?_ ?_
      · intro c' batch' m hstoring
        rcases update_eq_cases hstoring with ⟨-, hnew⟩ | hold
        · obtain ⟨rfl, hlog'⟩ := storing_next next hsettles hlog hnew
          exact ⟨hbatch, hlog'⟩
        · exact h.storing_dml hold reply stmt
      · rintro filepathId filepath createTime rfl hexecutes - command
          hcommand hpath
        obtain ⟨rfl, rfl, hcomplete⟩ := complete_of_marker next hbatch hlog
        rwa [halone rfl hexecutes command hcommand hpath] at hcomplete

theorem Inv.of_reachWhere [DecidableEq P] [DecidableEq C]
    (h : (indexing project P C).ReachWhere Harmless s) : s.Inv := by
  apply System.ReachWhere.invariant (I := State.Inv) _ _ h
  · constructor <;> simp [indexing, empty]
  · intro s s' action hs hok hstep
    exact hs.step hok hstep

end State

/-- In a run whose statements for symbols all settle, a positive stored time
of a main file tells that the symbols of its unit are stored. -/
theorem filepaths_upToDate [DecidableEq P] [DecidableEq C]
    {s : State project P C}
    (h : (indexing project P C).ReachWhere Harmless s) : s.UpToDate := by
  intro command hcommand answered hpos
  have hinv := State.Inv.of_reachWhere h
  obtain ⟨row, hrow, hpath, time, htime, hle⟩ :=
    exists_row_of_getFileLastMtime hpos
  exact hinv.rows row hrow command hcommand hpath time htime (by omega)

def sampleCommand : CompileCommand := ⟨"/p", "/p/main.cc", ["c++", "main.cc"]⟩

def sampleProject : Project := ⟨"/p/", [sampleCommand], id⟩

def sampleFuncDef : FuncDef := ⟨1, ⟨"u1", "f", false, ⟨1, 8⟩⟩⟩

/-- The main file is indexed in second 100, and `attempt` is what each attempt
at the statement for its one definition ends with. -/
def sampleRun (attempt : Attempt) : List (Action Unit Unit) :=
  [.parse () (.begin sampleCommand ⟨true, true, 50, .noInstance⟩ 100),
    .parse () (.addFuncDef sampleFuncDef),
    .sendIndexedResult () [[sampleFuncDef]] [], .getStmts (),
    .dml () ⟨true, fun _ => attempt⟩, .dml () ⟨true, fun _ => .success⟩]

private theorem harmless_success {s : State sampleProject Unit Unit}
    (hflags : s.flags = {}) :
    Harmless s (.dml () ⟨true, fun _ => .success⟩ : Action Unit Unit) := by
  intro batch n _
  constructor
  · intro _
    left
    rw [hflags]
    exact ⟨rfl, 1, le_rfl, by decide, rfl, by omega⟩
  · intro _ _ command hcommand _
    have hlisted := batch.unit.listed
    simp only [sampleProject, List.mem_singleton] at hlisted hcommand
    rw [hlisted, hcommand]

private theorem allowed_sampleRun :
    (indexing sampleProject Unit Unit).Allowed Harmless
      (.empty sampleProject Unit Unit) (sampleRun .success) := by
  refine ⟨trivial, fun s₁ h₁ => ⟨trivial, fun s₂ h₂ => ⟨trivial, fun s₃ h₃ =>
    ⟨trivial, fun s₄ h₄ => ?_⟩⟩⟩⟩
  obtain rfl := Option.some.inj h₁
  obtain rfl := Option.some.inj h₂
  obtain rfl := Option.some.inj h₃
  obtain rfl := Option.some.inj h₄
  refine ⟨harmless_success rfl, fun s₅ h₅ => ⟨?_, fun _ _ => trivial⟩⟩
  obtain rfl := Option.some.inj h₅
  exact harmless_success rfl

theorem filepaths_upToDate_stored :
    ∃ s, (indexing sampleProject Unit Unit).run
        (.empty sampleProject Unit Unit) (sampleRun .success) = some s ∧
      getFileLastMtime true s.db.filepaths
        (sampleProject.storedPath sampleCommand) = 100 ∧
      s.UpToDate := by
  have hmtime : ((indexing sampleProject Unit Unit).run
      (.empty sampleProject Unit Unit) (sampleRun .success)).map
        (fun s => getFileLastMtime true s.db.filepaths
          (sampleProject.storedPath sampleCommand)) = some 100 := by
    decide +kernel
  obtain ⟨s, hrun, hs⟩ := Option.map_eq_some_iff.mp hmtime
  have hreach := System.ReachWhere.run .init allowed_sampleRun hrun
  exact ⟨s, hrun, hs, filepaths_upToDate hreach⟩

/-- Nine deadlocks, and the marker is written without the definition. -/
theorem filepaths_keep_lost_symbols :
    ¬∀ s, (indexing sampleProject Unit Unit).Reachable s → s.UpToDate := by
  intro hall
  have hlost : ((indexing sampleProject Unit Unit).run
      (.empty sampleProject Unit Unit) (sampleRun (.sqlException 1213))).map
        (fun s => (getFileLastMtime true s.db.filepaths
            (sampleProject.storedPath sampleCommand), s.db.log,
          s.indexed.map fun batch => batch.symbols)) =
      some (100, [.replaceFilepath 1 "main.cc" 100],
        [[.insertFuncDefs 100 [sampleFuncDef]]]) := by
    decide +kernel
  obtain ⟨s, hrun, hs⟩ := Option.map_eq_some_iff.mp hlost
  simp only [Prod.mk.injEq] at hs
  obtain ⟨hmtime, hlog, hindexed⟩ := hs
  obtain ⟨batch, hbatch, -, hsymbols⟩ := hall s (.of_run hrun) sampleCommand
    (by simp [sampleProject]) true (by omega)
  have hmem := List.mem_map_of_mem (f := fun batch => batch.symbols) hbatch
  rw [hindexed, List.mem_singleton] at hmem
  rw [hmem, hlog] at hsymbols
  simp at hsymbols

end Pview.Pipeline
