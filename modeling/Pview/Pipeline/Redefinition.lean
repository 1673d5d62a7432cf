import Pview.Indexer.SymbolTables
import Pview.Pipeline.System

/-!
# Functions that are indexed again

Every version of a definition is sent with the time of its indexing, but the
USR alone is the primary key and the insert ignores a row whose key exists.
The tables below are those that the executed statements have made of empty
ones, over any number of runs.
-/

namespace Pview.Pipeline

open Pview.Foundation
open Pview.Foundation.PrimaryKey
open Pview.Indexer
open Pview.MySQL

variable {project : Project} {P C : Type*}

def State.index (column : String → String) (s : State project P C) : Index :=
  executeLog column .empty s.db.log

def State.versions (column : String → String) (s : State project P C)
    (usr : String) : List FuncDefRow :=
  (funcDefRowsOf column s.db.log).filter fun row => row.usr = usr

def SameVersion (row row' : FuncDefRow) : Prop :=
  row.qualified = row'.qualified ∧ row.mightThrow = row'.mightThrow ∧
    row.locationFileId = row'.locationFileId ∧
    row.locationLine = row'.locationLine ∧ row.createTime = row'.createTime

/-- The row found for a USR carries the values stored last. -/
def State.FindsLatest (column : String → String) (s : State project P C)
    (usr : String) : Prop :=
  ∀ latest, (s.versions column usr).getLast? = some latest →
    ∃ row, lookup FuncDefRow.usr (s.index column).funcDefinitions usr =
        some row ∧ SameVersion row latest

theorem State.lookup_index (column : String → String) (s : State project P C)
    (usr : String) :
    lookup FuncDefRow.usr (s.index column).funcDefinitions usr =
      (s.versions column usr).head? := by
  rw [State.index, lookup_executeLog, State.versions, List.head?_filter]
  rfl

/-- The first version is never replaced, so the row found is the latest one
exactly when nothing that was stored last differs from what was stored first. -/
theorem findsLatest_iff (column : String → String) (s : State project P C)
    (usr : String) :
    s.FindsLatest column usr ↔
      ∀ first latest, (s.versions column usr).head? = some first →
        (s.versions column usr).getLast? = some latest →
          SameVersion first latest := by
  rw [State.FindsLatest, State.lookup_index]
  constructor
  · intro hfinds first latest hfirst hlatest
    obtain ⟨row, hrow, hsame⟩ := hfinds latest hlatest
    rw [hfirst, Option.some.injEq] at hrow
    rwa [hrow]
  · intro hsame latest hlatest
    have hsome : (s.versions column usr).head?.isSome = true := by
      rw [List.isSome_head?]
      intro hnil
      rw [hnil] at hlatest
      contradiction
    obtain ⟨first, hfirst⟩ := Option.isSome_iff_exists.mp hsome
    exact ⟨first, hfirst, hsame first latest hfirst hlatest⟩

def editedCommand : CompileCommand := ⟨"/p", "/p/main.cc", ["c++", "main.cc"]⟩

def editedProject : Project := ⟨"/p/", [editedCommand], id⟩

/-- The function `f` before and after an edit that moved it and made it
throw. -/
def editedFuncDef : Bool → FuncDef
  | false => ⟨1, ⟨"c:@F@f", "f", false, ⟨1, 8⟩⟩⟩
  | true => ⟨2, ⟨"c:@F@f", "f", true, ⟨2, 9⟩⟩⟩

def editedRun (edited : Bool) (mtime time : Int) : List (Action Unit Unit) :=
  [.startRun {},
    .parse () (.begin editedCommand ⟨true, true, mtime, .noInstance⟩ time),
    .parse () (.addFuncDef (editedFuncDef edited)),
    .sendIndexedResult () [[editedFuncDef edited]] [], .getStmts (),
    .dml () ⟨true, fun _ => .success⟩, .dml () ⟨true, fun _ => .success⟩]

theorem findsLatest_not_after_edit :
    ¬∀ s, (indexing editedProject Unit Unit).ReachWhere AllExecute s →
      ∀ usr, s.FindsLatest id usr := by
  intro hall
  have hrows : ((indexing editedProject Unit Unit).run
      (.empty editedProject Unit Unit)
      (editedRun false 50 100 ++ editedRun true 150 200)).map
        (fun s => ((s.index id).funcDefinitions, s.versions id "c:@F@f")) =
      some ([⟨1, 100, "c:@F@f", "f", 0, 1, 8⟩],
        [⟨1, 100, "c:@F@f", "f", 0, 1, 8⟩,
         ⟨2, 200, "c:@F@f", "f", 1, 2, 9⟩]) := by
    decide +kernel
  obtain ⟨s, hrun, hs⟩ := Option.map_eq_some_iff.mp hrows
  rw [Prod.mk.injEq] at hs
  have hallowed : (indexing editedProject Unit Unit).Allowed AllExecute
      (.empty editedProject Unit Unit)
      (editedRun false 50 100 ++ editedRun true 150 200) :=
    allowed_of_smooth (by simp [editedRun, Smooth]) rfl
  obtain ⟨row, hfound, hsame⟩ := hall s (.run .init hallowed hrun) "c:@F@f"
    ⟨2, 200, "c:@F@f", "f", 1, 2, 9⟩ (by rw [hs.2]; rfl)
  rw [hs.1] at hfound
  cases hfound
  exact absurd hsame.2.1 (by decide)

end Pview.Pipeline
