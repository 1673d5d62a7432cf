import Mathlib.Data.List.DropRight
import Pview.Foundation.Transition
import Pview.MySQL.Connection
import Pview.MySQL.Filepaths

/-!
# Project ids

Any number of processes run `do_prepare` against one `projects` table, each
with its own root, at the same time or one after the other.  A process asks
for the id of its root, for the greatest id if there is none, and inserts the
next one; the table changes between these statements as the others please.

`overtaken` records for each process whether its root had a row when it asked
for the greatest id.
-/

namespace Pview.Prepare

open Pview.Foundation
open Pview.MySQL

structure ProjectRow where
  projectId : Int
  projectRoot : String
  deriving DecidableEq, Repr

/-- What `=` looks at in a `latin1_bin` column, which pads with spaces. -/
def compared (root : String) : List Char :=
  root.toList.rdropWhile fun c => c = ' '

/-- `SQL_get_project_id`; the rows come in any order. -/
def projectIds (rows : List ProjectRow) (root : String) : List Int :=
  (rows.filter fun row => compared row.projectRoot = compared root).map
    ProjectRow.projectId

def foundProjectId : Option Int → Int
  | none => 0
  | some value => getInt (some value)

/-- The id for a new root.  `SQL_max_project_id` gives one row, with `NULL` for
an empty table. -/
def nextProjectId (rows : List ProjectRow) : Int :=
  let currentMax := getInt (rows.map ProjectRow.projectId).max?
  if currentMax ≤ 0 then 1 else currentMax + 1

def Accepts (rows : List ProjectRow) (row : ProjectRow) : Prop :=
  row.projectId ∉ rows.map ProjectRow.projectId ∧
    row.projectRoot.length ≤ 2048

instance (rows : List ProjectRow) (row : ProjectRow) :
    Decidable (Accepts rows row) :=
  inferInstanceAs (Decidable (_ ∧ _))

inductive PreparePhase where
  | started
  /-- The root has no id so far. -/
  | notFound
  | numbered (projectId : Int)
  /-- Past `set_project_id`. -/
  | prepared (projectId : Int)
  /-- `do_prepare` has returned 1, or the process has stopped. -/
  | gone
  deriving DecidableEq, Repr

structure Projects (P : Type) where
  rows : List ProjectRow
  phases : P → PreparePhase
  overtaken : P → Bool

inductive PrepareAction (P : Type) where
  | getProjectId (p : P) (answer : Option Int)
  | maxProjectId (p : P)
  | insertNewProject (p : P) (reply : Reply)
  /-- Any error that is not one of the insertion, or the end of the process. -/
  | stop (p : P)

namespace Projects

variable {P : Type}

def empty : Projects P where
  rows := []
  phases := fun _ => .started
  overtaken := fun _ => false

variable [DecidableEq P] (roots : P → String) (flags : P → Int)

def setPhase (s : Projects P) (p : P) (phase : PreparePhase) : Projects P :=
  { s with phases := Function.update s.phases p phase }

def getProjectId (s : Projects P) (p : P) (answer : Option Int) :
    Option (Projects P) :=
  let ids := projectIds s.rows (roots p)
  if s.phases p = .started ∧ (answer = none → ids = []) ∧
      ∀ id ∈ answer, id ∈ ids then
    let projectId := foundProjectId answer
    some (s.setPhase p
      (if projectId ≤ 0 then .notFound else .prepared projectId))
  else
    none

def maxProjectId (s : Projects P) (p : P) : Option (Projects P) :=
  if s.phases p = .notFound then
    some { s.setPhase p (.numbered (nextProjectId s.rows)) with
      overtaken := Function.update s.overtaken p
        (!(projectIds s.rows (roots p)).isEmpty) }
  else
    none

/-- Attempts that fail leave the table alone, so the call takes place where its
last attempt does. -/
def insertNewProject (s : Projects P) (p : P) (reply : Reply) :
    Option (Projects P) :=
  match s.phases p with
  | .numbered id =>
      let row : ProjectRow := ⟨id, roots p⟩
      if Executes (flags p) reply → Accepts s.rows row then
        some { s.setPhase p
            (if (dml (flags p) reply).ret = 0 then .prepared id else .gone) with
          rows := s.rows ++ executed (flags p) reply row }
      else
        none
  | _ => none

def step (s : Projects P) : PrepareAction P → Option (Projects P)
  | .getProjectId p answer => s.getProjectId roots p answer
  | .maxProjectId p => s.maxProjectId roots p
  | .insertNewProject p reply => s.insertNewProject roots flags p reply
  | .stop p => some (s.setPhase p .gone)

/-! ## What one step can do -/

inductive Effect (s : Projects P) : PrepareAction P → Projects P → Prop
  | found (p : P) (id : Int) (member : id ∈ projectIds s.rows (roots p))
      (positive : 0 < getInt (some id)) :
      Effect s (.getProjectId p (some id))
        (s.setPhase p (.prepared (getInt (some id))))
  | notFound (p : P) (answer : Option Int) :
      Effect s (.getProjectId p answer) (s.setPhase p .notFound)
  | number (p : P) :
      Effect s (.maxProjectId p)
        { s.setPhase p (.numbered (nextProjectId s.rows)) with
          overtaken := Function.update s.overtaken p
            (!(projectIds s.rows (roots p)).isEmpty) }
  | insert (p : P) (reply : Reply) (id : Int)
      (was : s.phases p = .numbered id)
      (executes : Executes (flags p) reply)
      (accepts : Accepts s.rows ⟨id, roots p⟩) :
      Effect s (.insertNewProject p reply) { s.setPhase p (.prepared id) with
        rows := s.rows ++ [⟨id, roots p⟩] }
  /-- The retries have run out, and `dml` returns 0 all the same. -/
  | exhaust (p : P) (reply : Reply) (id : Int)
      (never : ¬Executes (flags p) reply)
      (failed : ¬FailsForGood (flags p) reply) :
      Effect s (.insertNewProject p reply) (s.setPhase p (.prepared id))
  | fail (p : P) (reply : Reply) (never : ¬Executes (flags p) reply) :
      Effect s (.insertNewProject p reply) (s.setPhase p .gone)
  | stop (p : P) : Effect s (.stop p) (s.setPhase p .gone)

variable {roots flags}

private theorem effect_of_getProjectId {s s' : Projects P} {p : P}
    {answer : Option Int} (h : s.getProjectId roots p answer = some s') :
    s.Effect roots flags (.getProjectId p answer) s' := by
  simp only [getProjectId, Option.ite_none_right_eq_some,
    Option.some.injEq] at h
  obtain ⟨⟨-, -, hmember⟩, rfl⟩ := h
  split
  · exact .notFound p answer
  · rename_i hpositive
    cases answer with
    | none => simp [foundProjectId] at hpositive
    | some id =>
        simp only [foundProjectId] at hpositive ⊢
        exact .found p id (by simpa using hmember) (by omega)

private theorem effect_of_insertNewProject {s s' : Projects P} {p : P}
    {reply : Reply} (h : s.insertNewProject roots flags p reply = some s') :
    s.Effect roots flags (.insertNewProject p reply) s' := by
  rw [insertNewProject] at h
  split at h
  · rename_i id hphase
    simp only [Option.ite_none_right_eq_some, Option.some.injEq] at h
    obtain ⟨haccepts, rfl⟩ := h
    have hret := dml_ret_ne_zero_iff (flags p) reply
    by_cases hexecutes : Executes (flags p) reply
    · have hfails := not_failsForGood_of_executes hexecutes
      have hzero : (dml (flags p) reply).ret = 0 := by
        by_contra hne
        exact hfails (hret.1 hne)
      rw [if_pos hzero, executed_of_executes hexecutes]
      exact .insert p reply id hphase hexecutes (haccepts hexecutes)
    · have hrows : s.rows = s.rows ++
          executed (flags p) reply (⟨id, roots p⟩ : ProjectRow) := by
        rw [executed_of_not_executes hexecutes, List.append_nil]
      rw [← hrows]
      split
      · rename_i hzero
        have hfails : ¬FailsForGood (flags p) reply := by
          rw [← hret, not_not]
          exact hzero
        exact .exhaust p reply id hexecutes hfails
      · exact .fail p reply hexecutes
  · contradiction

theorem effect_of_step {s s' : Projects P} {a : PrepareAction P}
    (h : s.step roots flags a = some s') : s.Effect roots flags a s' := by
  cases a with
  | getProjectId p answer => exact effect_of_getProjectId h
  | insertNewProject p reply => exact effect_of_insertNewProject h
  | maxProjectId p =>
      simp only [step, maxProjectId, Option.ite_none_right_eq_some,
        Option.some.injEq] at h
      rw [← h.2]
      exact .number p
  | stop p =>
      simp only [step, Option.some.injEq] at h
      rw [← h]
      exact .stop p

@[simp] theorem setPhase_phases (s : Projects P) (p q : P)
    (phase : PreparePhase) : (s.setPhase p phase).phases q =
      if q = p then phase else s.phases q := by
  simp [setPhase, Function.update_apply]

@[simp] theorem setPhase_rows (s : Projects P) (p : P)
    (phase : PreparePhase) : (s.setPhase p phase).rows = s.rows := rfl

@[simp] theorem setPhase_overtaken (s : Projects P) (p : P)
    (phase : PreparePhase) :
    (s.setPhase p phase).overtaken = s.overtaken := rfl

end Projects

def prepares {P : Type} [DecidableEq P] (roots : P → String)
    (flags : P → Int) : System (Projects P) (PrepareAction P) where
  init := .empty
  step := Projects.step roots flags

end Pview.Prepare
