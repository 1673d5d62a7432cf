import Pview.Prepare.Projects

/-!
# One project for each root

The ids in the table are the numbers from 1 on, so an insertion that comes
after another one since the process asked for the greatest id has an old key
and fails.  Nothing of the kind protects the time between the two queries: a
root inserted there by another process gets a second id.
-/

namespace Pview.Prepare

open Pview.Foundation
open Pview.MySQL

/-- Each root has at most one id, each id at most one root. -/
structure OneProject (rows : List ProjectRow) : Prop where
  oneId : ∀ row ∈ rows, ∀ row' ∈ rows,
    compared row.projectRoot = compared row'.projectRoot →
    row.projectId = row'.projectId
  oneRoot : ∀ row ∈ rows, ∀ row' ∈ rows,
    row.projectId = row'.projectId → row.projectRoot = row'.projectRoot

def HasRow (rows : List ProjectRow) (root : String) : Prop :=
  ∃ row ∈ rows, compared row.projectRoot = compared root

theorem isEmpty_projectIds_iff (rows : List ProjectRow) (root : String) :
    (projectIds rows root).isEmpty = false ↔ HasRow rows root := by
  simp [projectIds, HasRow]

theorem mem_projectIds {rows : List ProjectRow} {root : String} {id : Int} :
    id ∈ projectIds rows root ↔ ∃ row ∈ rows,
      compared row.projectRoot = compared root ∧ row.projectId = id := by
  simp [projectIds, and_assoc]

/-! ## The ids in the table -/

def Numbered (rows : List ProjectRow) : Prop :=
  rows.map ProjectRow.projectId =
    (List.range rows.length).map fun i : Nat => (i : Int) + 1

theorem Numbered.mem_iff {rows : List ProjectRow} (h : Numbered rows)
    {id : Int} :
    id ∈ rows.map ProjectRow.projectId ↔ 1 ≤ id ∧ id ≤ rows.length := by
  rw [h]
  simp only [List.mem_map, List.mem_range]
  constructor
  · rintro ⟨i, hi, rfl⟩
    omega
  · rintro ⟨hle, hlength⟩
    exact ⟨(id - 1).toNat, by omega, by omega⟩

theorem Numbered.append {rows : List ProjectRow} (h : Numbered rows)
    (root : String) : Numbered (rows ++ [⟨rows.length + 1, root⟩]) := by
  unfold Numbered at h ⊢
  simp [h, List.range_succ]

theorem Numbered.oneRoot {rows : List ProjectRow} (h : Numbered rows) :
    ∀ row ∈ rows, ∀ row' ∈ rows, row.projectId = row'.projectId →
      row.projectRoot = row'.projectRoot := by
  have hnodup : (rows.map ProjectRow.projectId).Nodup := by
    rw [h]
    exact List.nodup_range.map fun i j hij => by simpa using hij
  intro row hrow row' hrow' hid
  rw [List.inj_on_of_nodup_map hnodup hrow hrow' hid]

theorem Numbered.nextProjectId_range {rows : List ProjectRow}
    (h : Numbered rows) : 1 ≤ nextProjectId rows ∧
      nextProjectId rows ≤ rows.length + 1 ∧ nextProjectId rows ≤ 2 ^ 31 := by
  unfold nextProjectId
  cases hmax : (rows.map ProjectRow.projectId).max? with
  | none => simp [getInt]
  | some greatest =>
      have hmem := h.mem_iff.1 (List.max?_mem hmax)
      have hle : getInt (some greatest) ≤ greatest := getInt_le (by omega)
      have hrange := getInt_range greatest
      simp only
      split <;> omega

theorem OneProject.append_iff {rows : List ProjectRow} (h : OneProject rows)
    (hnumbered : Numbered rows) (root : String) :
    OneProject (rows ++ [⟨rows.length + 1, root⟩]) ↔ ¬HasRow rows root := by
  constructor
  · rintro hone ⟨row, hrow, hsame⟩
    have hid := hone.oneId row (by simp [hrow])
      ⟨rows.length + 1, root⟩ (by simp) hsame
    have hmem := hnumbered.mem_iff.1 (List.mem_map_of_mem hrow)
    simp only at hid
    omega
  · intro hnone
    refine ⟨fun row hrow row' hrow' hsame => ?_, (hnumbered.append root).oneRoot⟩
    simp only [List.mem_append, List.mem_singleton] at hrow hrow'
    rcases hrow with hrow | rfl <;> rcases hrow' with hrow' | rfl
    · exact h.oneId row hrow row' hrow' hsame
    · exact absurd ⟨row, hrow, hsame⟩ hnone
    · exact absurd ⟨row', hrow', hsame.symm⟩ hnone
    · rfl

/-! ## Every run -/

namespace Projects

variable {P : Type} {roots : P → String} {flags : P → Int}

/-- A process can insert the next id only if nobody has inserted anything since
it asked for the greatest id. -/
structure Inv (roots : P → String) (s : Projects P) : Prop where
  numbered : Numbered s.rows
  short : s.rows.length ≤ 2 ^ 31
  id : ∀ p id, s.phases p = .numbered id →
    1 ≤ id ∧ id ≤ s.rows.length + 1 ∧ id ≤ 2 ^ 31
  overtaken : ∀ p id, s.phases p = .numbered id → id = s.rows.length + 1 →
    (s.overtaken p = true ↔ HasRow s.rows (roots p))

theorem Inv.empty : (Projects.empty : Projects P).Inv roots where
  numbered := by simp [Projects.empty, Numbered]
  short := by simp [Projects.empty]
  id := by simp [Projects.empty]
  overtaken := by simp [Projects.empty]

theorem Inv.accepted {s : Projects P} (hs : s.Inv roots) {p : P} {id : Int}
    (was : s.phases p = .numbered id) {root : String}
    (accepts : Accepts s.rows ⟨id, root⟩) :
    id = s.rows.length + 1 ∧ id ≤ 2 ^ 31 := by
  have hid := hs.id p id was
  have hfresh : ¬(1 ≤ id ∧ id ≤ s.rows.length) := by
    rw [← hs.numbered.mem_iff]
    exact accepts.1
  omega

variable [DecidableEq P]

theorem numbered_of_setPhase {s : Projects P} {p q : P} {phase : PreparePhase}
    {id : Int} (hphase : ∀ id, phase ≠ .numbered id)
    (h : (s.setPhase p phase).phases q = .numbered id) :
    s.phases q = .numbered id := by
  by_cases hqp : q = p
  · exact absurd (by simpa [hqp] using h) (hphase id)
  · simpa [hqp] using h

theorem Inv.setPhase {s : Projects P} (hs : s.Inv roots) (p : P)
    {phase : PreparePhase} (hphase : ∀ id, phase ≠ .numbered id) :
    (s.setPhase p phase).Inv roots :=
  ⟨hs.numbered, hs.short,
    fun q id hq => hs.id q id (numbered_of_setPhase hphase hq),
    fun q id hq => hs.overtaken q id (numbered_of_setPhase hphase hq)⟩

theorem Inv.number {s : Projects P} (hs : s.Inv roots) (p : P) :
    Inv roots { s.setPhase p (.numbered (nextProjectId s.rows)) with
      overtaken := Function.update s.overtaken p
        (!(projectIds s.rows (roots p)).isEmpty) } := by
  refine ⟨hs.numbered, hs.short, ?_, ?_⟩
  · intro q id hq
    by_cases hqp : q = p
    · simp only [setPhase_phases, hqp, if_true,
        PreparePhase.numbered.injEq] at hq
      rw [← hq]
      exact hs.numbered.nextProjectId_range
    · exact hs.id q id (by simpa [hqp] using hq)
  · intro q id hq hlast
    by_cases hqp : q = p
    · simp [hqp, ← isEmpty_projectIds_iff]
    · simpa [hqp] using
        hs.overtaken q id (by simpa [hqp] using hq) (by simpa using hlast)

theorem Inv.insert {s : Projects P} (hs : s.Inv roots) {p : P} {id : Int}
    (was : s.phases p = .numbered id)
    (accepts : Accepts s.rows ⟨id, roots p⟩) :
    Inv roots { s.setPhase p (.prepared id) with
      rows := s.rows ++ [⟨id, roots p⟩] } := by
  obtain ⟨rfl, hshort⟩ := hs.accepted was accepts
  refine ⟨hs.numbered.append (roots p), ?_, ?_, ?_⟩
  · simp only [List.length_append, List.length_singleton]
    omega
  · intro q id hq
    have hid := hs.id q id (numbered_of_setPhase (by simp) hq)
    simp only [List.length_append, List.length_singleton]
    omega
  · -- The ids that were handed out before are all in the table now.
    intro q id hq hlast
    have hid := hs.id q id (numbered_of_setPhase (by simp) hq)
    simp only [List.length_append, List.length_singleton] at hlast
    omega

theorem Inv.step {s s' : Projects P} {a : PrepareAction P} (hs : s.Inv roots)
    (h : s.step roots flags a = some s') : s'.Inv roots := by
  cases effect_of_step h with
  | number p => exact hs.number p
  | insert p reply id was executes accepts => exact hs.insert was accepts
  | found p | notFound p | exhaust p | fail p | stop p =>
      exact hs.setPhase p (by simp)

/-- No insertion is executed for a process whose root got its row between the
two queries of this process. -/
def NotOvertaken (flags : P → Int) (s : Projects P) : PrepareAction P → Prop
  | .insertNewProject p reply =>
      Executes (flags p) reply → s.overtaken p = false
  | _ => True

def NotExhausted (flags : P → Int) : PrepareAction P → Prop
  | .insertNewProject p reply =>
      Executes (flags p) reply ∨ FailsForGood (flags p) reply
  | _ => True

def Undisturbed (flags : P → Int) (s : Projects P) (a : PrepareAction P) :
    Prop :=
  s.NotOvertaken flags a ∧ NotExhausted flags a

instance (s : Projects P) (a : PrepareAction P) :
    Decidable (s.NotOvertaken flags a) :=
  match a with
  | .insertNewProject _ _ => inferInstanceAs (Decidable (_ → _))
  | .getProjectId _ _ | .maxProjectId _ | .stop _ =>
      inferInstanceAs (Decidable True)

theorem Inv.oneProject_iff {s s' : Projects P} {a : PrepareAction P}
    (hs : s.Inv roots) (hone : OneProject s.rows)
    (h : s.step roots flags a = some s') :
    OneProject s'.rows ↔ s.NotOvertaken flags a := by
  cases effect_of_step h with
  | found | notFound | number | stop => exact iff_of_true hone trivial
  | exhaust p reply id never | fail p reply never =>
      exact iff_of_true hone fun executes => absurd executes never
  | insert p reply id was executes accepts =>
      obtain ⟨rfl, -⟩ := hs.accepted was accepts
      have hovertaken := hs.overtaken p _ was rfl
      simp [hone.append_iff hs.numbered, NotOvertaken, executes, ← hovertaken]

theorem oneProject_of_step {s s' : Projects P} {a : PrepareAction P}
    (h : s.step roots flags a = some s') (hone : OneProject s'.rows) :
    OneProject s.rows := by
  cases effect_of_step h with
  | found | notFound | number | exhaust | fail | stop => exact hone
  | insert p reply id was executes accepts =>
      constructor
      · intro row hrow row' hrow'
        exact hone.oneId row (by simp [hrow]) row' (by simp [hrow'])
      · intro row hrow row' hrow'
        exact hone.oneRoot row (by simp [hrow]) row' (by simp [hrow'])

/-- The id that a process uses is the one of its root in the table. -/
def Settled (roots : P → String) (s : Projects P) : Prop :=
  ∀ p id, s.phases p = .prepared id → ∃ row ∈ s.rows,
    row.projectId = id ∧ compared row.projectRoot = compared (roots p)

theorem Settled.setPhase {s : Projects P} (h : s.Settled roots) (p : P)
    {phase : PreparePhase} (hphase : ∀ id, phase = .prepared id →
      ∃ row ∈ s.rows, row.projectId = id ∧
        compared row.projectRoot = compared (roots p)) :
    (s.setPhase p phase).Settled roots := by
  intro q id hq
  by_cases hqp : q = p
  · rw [hqp]
    exact hphase id (by simpa [hqp] using hq)
  · exact h q id (by simpa [hqp] using hq)

omit [DecidableEq P] in
theorem Inv.getInt_eq {s : Projects P} (hs : s.Inv roots) {p : P} {id : Int}
    (member : id ∈ projectIds s.rows (roots p))
    (positive : 0 < getInt (some id)) : ∃ row ∈ s.rows,
      row.projectId = getInt (some id) ∧
        compared row.projectRoot = compared (roots p) := by
  obtain ⟨row, hrow, hsame, rfl⟩ := mem_projectIds.1 member
  have hmem := hs.numbered.mem_iff.1 (List.mem_map_of_mem hrow)
  have hshort := hs.short
  refine ⟨row, hrow, ?_, hsame⟩
  simp only [getInt, Int.bmod] at positive ⊢
  split <;> omega

theorem Settled.step {s s' : Projects P} {a : PrepareAction P}
    (h : s.Settled roots) (hs : s.Inv roots) (allowed : NotExhausted flags a)
    (hstep : s.step roots flags a = some s') : s'.Settled roots := by
  cases effect_of_step hstep with
  | found p id member positive =>
      refine h.setPhase p ?_
      rintro id' ⟨⟩
      exact hs.getInt_eq member positive
  | number p => exact h.setPhase p (by simp)
  | notFound p | fail p | stop p => exact h.setPhase p (by simp)
  | exhaust p reply id never failed =>
      exact absurd allowed (not_or.mpr ⟨never, failed⟩)
  | insert p reply id was executes accepts =>
      intro q id' hq
      by_cases hqp : q = p
      · simp only [setPhase_phases, hqp, if_true,
          PreparePhase.prepared.injEq] at hq
        exact ⟨⟨id, roots p⟩, by simp, hq, by rw [hqp]⟩
      · obtain ⟨row, hrow, hrest⟩ := h q id' (by simpa [hqp] using hq)
        exact ⟨row, List.mem_append_left _ hrow, hrest⟩

theorem settled_of_reachWhere {s : Projects P}
    (h : (prepares roots flags).ReachWhere (Undisturbed flags) s) :
    s.Settled roots := by
  have hboth : s.Inv roots ∧ s.Settled roots := by
    refine System.ReachWhere.invariant (I := fun s => s.Inv roots ∧
      s.Settled roots) ⟨.empty, ?_⟩ ?_ h
    · intro p id hp
      simp [prepares, Projects.empty] at hp
    · exact fun hs allowed hstep =>
        ⟨hs.1.step hstep, hs.2.step hs.1 allowed.2 hstep⟩
  exact hboth.2

end Projects

/--
A run keeps one id for each root, and one root for each id, exactly when no
insertion is executed for a process whose root got its row between this
process's two queries.  If in addition no insertion runs out of its retries,
the processes on one root use the same id.
-/
theorem doPrepare_oneProject_iff {P : Type} [DecidableEq P]
    {roots : P → String} {flags : P → Int}
    {schedule : List (PrepareAction P)} {s : Projects P}
    (h : (prepares roots flags).run .empty schedule = some s) :
    (OneProject s.rows ↔ (prepares roots flags).Allowed
      (Projects.NotOvertaken flags) .empty schedule) ∧
    ((prepares roots flags).Allowed (Projects.Undisturbed flags) .empty
      schedule → ∀ p q id id', s.phases p = .prepared id →
        s.phases q = .prepared id' →
        compared (roots p) = compared (roots q) → id = id') := by
  have hiff : OneProject s.rows ↔ (prepares roots flags).Allowed
      (Projects.NotOvertaken flags) .empty schedule :=
    System.iff_allowed (I := Projects.Inv roots)
      (P := fun s => OneProject s.rows)
      (fun hs hstep => hs.step hstep)
      (fun hs hone hstep => hs.oneProject_iff hone hstep)
      (fun _ hstep hone => Projects.oneProject_of_step hstep hone)
      .empty ⟨by simp [Projects.empty], by simp [Projects.empty]⟩ h
  refine ⟨hiff, fun hallowed p q id id' hp hq hsame => ?_⟩
  have hone := hiff.2 (hallowed.mono fun _ _ hok => hok.1)
  have hsettled := Projects.settled_of_reachWhere
    (System.ReachWhere.init.run hallowed h)
  obtain ⟨row, hrow, rfl, hroot⟩ := hsettled p id hp
  obtain ⟨row', hrow', rfl, hroot'⟩ := hsettled q id' hq
  exact hone.oneId row hrow row' hrow' (hroot.trans (hsame.trans hroot'.symm))

/-- Two roots that are new at the same time; the second asks for the greatest
id when the first has its row. -/
theorem doPrepare_oneProject_iff_two : ∃ s : Projects Bool,
    s.rows = [⟨1, "/a"⟩, ⟨2, "/b"⟩] ∧ OneProject s.rows := by
  let reply : Reply := ⟨true, fun _ => .success⟩
  let roots : Bool → String := fun p => if p then "/a" else "/b"
  have hwork : ((prepares roots fun _ => 10).runWhere
      (Projects.NotOvertaken fun _ => 10) .empty [.getProjectId true none,
        .getProjectId false none, .maxProjectId true,
        .insertNewProject true reply, .maxProjectId false,
        .insertNewProject false reply]).map Projects.rows =
          some [⟨1, "/a"⟩, ⟨2, "/b"⟩] := by
    decide
  obtain ⟨s, hrun, hrows⟩ := Option.map_eq_some_iff.mp hwork
  obtain ⟨hrun, hallowed⟩ := System.run_of_runWhere hrun
  exact ⟨s, hrows, (doPrepare_oneProject_iff hrun).1.2 hallowed⟩

/-- The first process has its row before the second one asks for the greatest
id. -/
theorem doPrepare_registers_root_twice :
    ¬∀ (roots : Bool → String) (flags : Bool → Int) (s : Projects Bool),
      (prepares roots flags).Reachable s → OneProject s.rows := by
  intro h
  let reply : Reply := ⟨true, fun _ => .success⟩
  have hwork : ((prepares (fun _ : Bool => "/a") fun _ => 10).run .empty
      [.getProjectId true none, .getProjectId false none, .maxProjectId true,
        .insertNewProject true reply, .maxProjectId false,
        .insertNewProject false reply]).map Projects.rows =
          some [⟨1, "/a"⟩, ⟨2, "/a"⟩] := by
    decide
  obtain ⟨s, hrun, hrows⟩ := Option.map_eq_some_iff.mp hwork
  have hone := h _ _ s (.of_run hrun)
  rw [hrows] at hone
  have hid := hone.oneId ⟨1, "/a"⟩ (by simp) ⟨2, "/a"⟩ (by simp) rfl
  simp at hid

end Pview.Prepare
