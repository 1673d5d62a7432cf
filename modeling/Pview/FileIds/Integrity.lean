import Pview.FileIds.Ownership

/-!
# File ids in the symbol rows

A symbol row and the row of its file are written by different statements, and
a run that is cut off between them leaves an id that the next run, which starts
from the largest id in the filepaths table, gives to another file.
-/

namespace Pview.FileIds

open Pview.Foundation
open Pview.Indexer
open Pview.MySQL
open Pview.Pipeline (Project CompileCommand Flags)

variable {P C : Type*} {project : Project} {column : String → String}

/-- The id stands for the file, as the column holds it, in the filepaths table
and among the ids that the present run gives out. -/
structure State.NamesFile (project : Project) (s : State P C) (file : String)
    (id : Int) : Prop where
  filepaths : ∀ row ∈ s.tables.filepaths, row.filepathId = id →
    row.filepath = project.stored file
  given : ∀ filepath, (filepath, id) ∈ s.given →
    project.stored filepath = project.stored file

/-- The location of every symbol row names the file it was seen in. -/
structure State.Resolves (project : Project) (s : State P C) : Prop where
  funcDefinitions : ∀ d ∈ s.tables.funcDefinitions,
    s.NamesFile project d.file d.symbol.locationFileId
  funcCalls : ∀ d ∈ s.tables.funcCalls,
    s.NamesFile project d.file d.symbol.locationFileId

/-- A new run starts above every id in the tables, and the ids that are read
fit an `int32_t`. -/
def Continues (s : State P C) (action : Action P C) : Prop :=
  InRange action ∧ (action.restarts = true → s.Restartable)

instance (s : State P C) : Decidable s.Restartable :=
  decidable_of_iff
    ((∀ row ∈ s.tables.filepaths, row.filepathId < s.preparedId) ∧
      ∀ pair ∈ s.tables.symbols, pair.2 < s.preparedId)
    ⟨fun h => ⟨h.1, h.2⟩, fun h => ⟨h.filepaths, h.symbols⟩⟩

instance (s : State P C) (action : Action P C) :
    Decidable (Continues s action) :=
  inferInstanceAs (Decidable (_ ∧ _))

theorem State.namesFile_of_owned {s : State P C} (h : s.Owned project)
    {file : String} {id : Int} (hsymbol : (file, id) ∈ s.tables.symbols) :
    s.NamesFile project file id := by
  have hclaim : s.Claims project (project.stored file) id :=
    Knows.claims ⟨.symbols, hsymbol⟩
  constructor
  · intro row hrow hid
    exact h.unique row.filepath (project.stored file) id
      (.inr ⟨row, hrow, rfl, hid⟩) hclaim
  · intro filepath hgiven
    exact h.unique (project.stored filepath) (project.stored file) id
      (Knows.claims ⟨.given, hgiven⟩) hclaim

variable [DecidableEq P] [DecidableEq C]

theorem State.Owned.of_reachWhere {s : State P C}
    (h : (fileIds project column P C ⟨[], 1, {}⟩).ReachWhere Continues s) :
    s.Owned project := by
  apply System.ReachWhere.invariant (I := State.Owned project) _ _ h
  · apply State.Owned.start
    · exact List.nodup_nil
    · exact fun row hrow => absurd hrow (by simp)
  · intro s s' action hs hok hstep
    exact hs.step hok.1 hok.2 hstep

/--
In a run over any number of restarts, each of them above the ids in the
tables, the location of every symbol row names the file it was seen in, and
its id is given to no other file.
-/
theorem fileIds_resolve {s : State P C}
    (h : (fileIds project column P C ⟨[], 1, {}⟩).ReachWhere Continues s) :
    s.Resolves project := by
  have howned := State.Owned.of_reachWhere h
  constructor
  · intro d hd
    apply State.namesFile_of_owned howned
    exact List.mem_append_left _ (List.mem_map_of_mem
      (f := fun d : Seen FuncDefRow => (d.file, d.symbol.locationFileId)) hd)
  · intro d hd
    apply State.namesFile_of_owned howned
    exact List.mem_append_right _ (List.mem_map_of_mem
      (f := fun d : Seen FuncCallRow => (d.file, d.symbol.locationFileId)) hd)

def mainCommand : CompileCommand := ⟨"/p", "/p/main.cc", ["c++", "main.cc"]⟩

def otherCommand : CompileCommand := ⟨"/p", "/p/other.cc", ["c++", "other.cc"]⟩

def twoFiles : Project := ⟨"/p/", [mainCommand, otherCommand], id⟩

def mainFuncDef : Seen FuncDef :=
  ⟨⟨1, ⟨"c:@F@f", "f", false, ⟨1, 8⟩⟩⟩, "main.cc"⟩

def succeeds : Reply := ⟨true, fun _ => .success⟩

/-- A run that indexes the main file and sends `count` statements of its batch
of two, and a run that indexes the other file. -/
def twoRuns (count : Nat) : List (Action Unit Unit) :=
  [.startRun {}, .beginUnit () mainCommand 100,
    .parse () (.genSourceLocation "/p/main.cc"),
    .parse () (.addFuncDef mainFuncDef),
    .sendIndexedResult () [[mainFuncDef]] [], .getStmts ()] ++
  List.replicate count (.dml () succeeds) ++
  [.startRun {}, .beginUnit () otherCommand 200, .sendIndexedResult () [] [],
    .getStmts (), .dml () succeeds]

/-- Both statements are executed before the second run. -/
theorem fileIds_resolve_continued :
    ∃ s, (fileIds twoFiles id Unit Unit ⟨[], 1, {}⟩).runWhere Continues
        (.start ⟨[], 1, {}⟩) (twoRuns 2) = some s ∧
      s.tables.filepaths =
        [⟨1, "main.cc", some 100⟩, ⟨2, "other.cc", some 200⟩] ∧
      s.Resolves twoFiles := by
  have hrun : ((fileIds twoFiles id Unit Unit ⟨[], 1, {}⟩).runWhere Continues
      (.start ⟨[], 1, {}⟩) (twoRuns 2)).map (fun s => s.tables.filepaths) =
      some [⟨1, "main.cc", some 100⟩, ⟨2, "other.cc", some 200⟩] := by
    decide +kernel
  obtain ⟨s, hs, hfilepaths⟩ := Option.map_eq_some_iff.mp hrun
  exact ⟨s, hs, hfilepaths, fileIds_resolve (System.ReachWhere.init.runWhere hs)⟩

/-- The first run is cut off before the row of its main file is written, and
the second one gives its id to the other file. -/
theorem fileIds_reused_after_cut :
    ¬∀ s, (fileIds twoFiles id Unit Unit ⟨[], 1, {}⟩).Reachable s →
      s.Resolves twoFiles := by
  intro hall
  have hrun : ((fileIds twoFiles id Unit Unit ⟨[], 1, {}⟩).run
      (.start ⟨[], 1, {}⟩) (twoRuns 1)).map (fun s =>
        (s.tables.filepaths, s.tables.funcDefinitions)) =
      some ([⟨1, "other.cc", some 200⟩],
        [⟨⟨1, 100, "c:@F@f", "f", 0, 1, 8⟩, "main.cc"⟩]) := by
    decide +kernel
  obtain ⟨s, hs, htables⟩ := Option.map_eq_some_iff.mp hrun
  rw [Prod.mk.injEq] at htables
  have hnames := (hall s (.of_run hs)).funcDefinitions
    ⟨⟨1, 100, "c:@F@f", "f", 0, 1, 8⟩, "main.cc"⟩ (by rw [htables.2]; simp)
  have hpath := hnames.filepaths ⟨1, "other.cc", some 200⟩
    (by rw [htables.1]; simp) rfl
  exact absurd hpath (by decide)

end Pview.FileIds
