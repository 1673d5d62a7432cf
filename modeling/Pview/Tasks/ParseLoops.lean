import Pview.Foundation.Tickets
import Pview.Foundation.Transition

/-!
# The loops of the parse tasks

Any number of tasks run the loop of `do_parse` over one shared counter, each
with its own copy of the compile commands.  Between drawing an index and
calling `index_translation_unit` a task may be overtaken by the others, and a
task may start when others have long finished.

Commands and tasks are objects in memory, so the counter stays below `2 ^ 64`.
-/

namespace Pview.Tasks

open Pview.Foundation

inductive LoopPhase where
  | notStarted
  /-- `init_mysql_conn` has failed. -/
  | aborted
  | fetching
  /-- Has drawn `idx` and not compared it yet. -/
  | fetched (idx : Nat)
  | indexing (idx : Nat)
  /-- Out of the loop, before `clean_up`. -/
  | left
  | returned
  deriving DecidableEq, Repr

def LoopPhase.ticket : LoopPhase → Option Nat
  | .fetched idx => some idx
  | _ => none

structure Loops (P Cmd : Type) where
  counter : Nat
  /-- `cmds_`. -/
  cmds : P → List Cmd
  phases : P → LoopPhase
  totalWork : P → Nat
  successWork : P → Nat
  /-- The arguments of `index_translation_unit`, in the order of the calls. -/
  called : List Nat

inductive LoopAction (P : Type) where
  | start (p : P) (connected : Bool)
  | fetch (p : P)
  | check (p : P)
  /-- `index_translation_unit` returns, with an error or without. -/
  | indexed (p : P) (error : Bool)
  | cleanUp (p : P)
  deriving DecidableEq, Repr

def LoopAction.task {P : Type} : LoopAction P → P
  | .start p _ => p
  | .fetch p => p
  | .check p => p
  | .indexed p _ => p
  | .cleanUp p => p

namespace Loops

variable {P Cmd : Type}

def initial (P : Type) (cmds : List Cmd) : Loops P Cmd where
  counter := 0
  cmds := fun _ => cmds
  phases := fun _ => .notStarted
  totalWork := fun _ => 0
  successWork := fun _ => 0
  called := []

def InLoop (s : Loops P Cmd) (p : P) : Prop :=
  s.phases p = .fetching ∨ (∃ idx, s.phases p = .fetched idx) ∨
    ∃ idx, s.phases p = .indexing idx

def HasLeft (s : Loops P Cmd) (p : P) : Prop :=
  s.phases p = .left ∨ s.phases p = .returned

variable [DecidableEq P]

def setPhase (s : Loops P Cmd) (p : P) (phase : LoopPhase) : Loops P Cmd :=
  { s with phases := Function.update s.phases p phase }

def step (s : Loops P Cmd) : LoopAction P → Option (Loops P Cmd)
  | .start p connected =>
      if s.phases p = .notStarted then
        some (s.setPhase p (if connected then .fetching else .aborted))
      else
        none
  | .fetch p =>
      if s.phases p = .fetching then
        some { s.setPhase p (.fetched s.counter) with
          counter := s.counter + 1 }
      else
        none
  | .check p =>
      match s.phases p with
      | .fetched idx =>
          if (s.cmds p).length ≤ idx then
            some (s.setPhase p .left)
          else
            some { s.setPhase p (.indexing idx) with
              totalWork :=
                Function.update s.totalWork p (s.totalWork p + 1)
              called := s.called ++ [idx] }
      | _ => none
  | .indexed p error =>
      match s.phases p with
      | .indexing _ =>
          some { s.setPhase p .fetching with
            successWork := Function.update s.successWork p
              (s.successWork p + if error then 0 else 1) }
      | _ => none
  | .cleanUp p =>
      if s.phases p = .left then
        some { s.setPhase p .returned with
          cmds := Function.update s.cmds p [] }
      else
        none

inductive Effect (s : Loops P Cmd) : LoopAction P → Loops P Cmd → Prop
  | start (p : P) (connected : Bool) (was : s.phases p = .notStarted) :
      Effect s (.start p connected)
        (s.setPhase p (if connected then .fetching else .aborted))
  | fetch (p : P) (was : s.phases p = .fetching) :
      Effect s (.fetch p) { s.setPhase p (.fetched s.counter) with
        counter := s.counter + 1 }
  | leave (p : P) (idx : Nat) (was : s.phases p = .fetched idx)
      (past : (s.cmds p).length ≤ idx) :
      Effect s (.check p) (s.setPhase p .left)
  | call (p : P) (idx : Nat) (was : s.phases p = .fetched idx)
      (within : idx < (s.cmds p).length) :
      Effect s (.check p) { s.setPhase p (.indexing idx) with
        totalWork := Function.update s.totalWork p (s.totalWork p + 1)
        called := s.called ++ [idx] }
  | indexed (p : P) (idx : Nat) (error : Bool)
      (was : s.phases p = .indexing idx) :
      Effect s (.indexed p error) { s.setPhase p .fetching with
        successWork := Function.update s.successWork p
          (s.successWork p + if error then 0 else 1) }
  | cleanUp (p : P) (was : s.phases p = .left) :
      Effect s (.cleanUp p) { s.setPhase p .returned with
        cmds := Function.update s.cmds p [] }

theorem effect_of_step {s s' : Loops P Cmd} {a : LoopAction P}
    (h : s.step a = some s') : s.Effect a s' := by
  cases a with
  | start p connected =>
      simp only [step, Option.ite_none_right_eq_some, Option.some.injEq] at h
      rw [← h.2]
      exact .start p connected h.1
  | fetch p =>
      simp only [step, Option.ite_none_right_eq_some, Option.some.injEq] at h
      rw [← h.2]
      exact .fetch p h.1
  | check p =>
      rw [step] at h
      split at h
      · rename_i idx hphase
        split at h
        · rename_i hpast
          cases h
          exact .leave p idx hphase hpast
        · rename_i hwithin
          cases h
          exact .call p idx hphase (by omega)
      · contradiction
  | indexed p error =>
      rw [step] at h
      split at h
      · rename_i idx hphase
        cases h
        exact .indexed p idx error hphase
      · contradiction
  | cleanUp p =>
      simp only [step, Option.ite_none_right_eq_some, Option.some.injEq] at h
      rw [← h.2]
      exact .cleanUp p h.1

end Loops

def parseLoops (P : Type) {Cmd : Type} [DecidableEq P] (cmds : List Cmd) :
    System (Loops P Cmd) (LoopAction P) where
  init := .initial P cmds
  step := Loops.step

namespace Loops

variable {P Cmd : Type} [DecidableEq P]

@[simp] theorem setPhase_phases (s : Loops P Cmd) (p q : P)
    (phase : LoopPhase) : (s.setPhase p phase).phases q =
      if q = p then phase else s.phases q := by
  simp [setPhase, Function.update_apply]

@[simp] theorem setPhase_counter (s : Loops P Cmd) (p : P)
    (phase : LoopPhase) : (s.setPhase p phase).counter = s.counter := rfl

@[simp] theorem setPhase_cmds (s : Loops P Cmd) (p : P)
    (phase : LoopPhase) : (s.setPhase p phase).cmds = s.cmds := rfl

@[simp] theorem setPhase_totalWork (s : Loops P Cmd) (p : P)
    (phase : LoopPhase) : (s.setPhase p phase).totalWork = s.totalWork := rfl

@[simp] theorem setPhase_called (s : Loops P Cmd) (p : P)
    (phase : LoopPhase) : (s.setPhase p phase).called = s.called := rfl

def hands (s : Loops P Cmd) : P → Option Nat :=
  LoopPhase.ticket ∘ s.phases

theorem hands_setPhase (s : Loops P Cmd) (p : P) (phase : LoopPhase) :
    (s.setPhase p phase).hands =
      Function.update s.hands p phase.ticket := by
  simp [hands, setPhase, Function.comp_update]

theorem hands_setPhase_same {s : Loops P Cmd} {p : P} {phase : LoopPhase}
    (h : phase.ticket = (s.phases p).ticket) :
    (s.setPhase p phase).hands = s.hands := by
  rw [hands_setPhase, h]
  exact Function.update_eq_self p s.hands

structure Inv (cmds : List Cmd) (s : Loops P Cmd) : Prop where
  copies : ∀ p, s.phases p ≠ .returned → s.cmds p = cmds
  tickets : Tickets (fun idx => idx < cmds.length) s.counter s.hands s.called
  exhausted : ∀ p, s.HasLeft p → cmds.length ≤ s.counter
  drawn : ∀ p idx, s.phases p = .fetched idx → s.totalWork p ≤ idx
  work : ∀ p, s.totalWork p ≤ s.counter ∧ s.totalWork p ≤ cmds.length

omit [DecidableEq P] in
theorem Inv.initial (cmds : List Cmd) :
    (Loops.initial P cmds).Inv cmds where
  copies := by simp [Loops.initial]
  tickets := .empty
  exhausted := by simp [Loops.initial, HasLeft]
  drawn := by simp [Loops.initial]
  work := by simp [Loops.initial]

theorem Inv.copies_setPhase {cmds : List Cmd} {s : Loops P Cmd}
    (hs : s.Inv cmds) {p : P} (was : s.phases p ≠ .returned)
    (phase : LoopPhase) :
    ∀ q, (s.setPhase p phase).phases q ≠ .returned → s.cmds q = cmds := by
  intro q hq
  by_cases hqp : q = p
  · rw [hqp]
    exact hs.copies p was
  · exact hs.copies q (by simpa [hqp] using hq)

theorem Inv.exhausted_setPhase {cmds : List Cmd} {s : Loops P Cmd}
    (hs : s.Inv cmds) {p : P} {phase : LoopPhase} (hleft : phase ≠ .left)
    (hreturned : phase ≠ .returned) :
    ∀ q, (s.setPhase p phase).HasLeft q → cmds.length ≤ s.counter := by
  intro q hq
  by_cases hqp : q = p
  · simp [HasLeft, hqp, hleft, hreturned] at hq
  · exact hs.exhausted q (by simpa [HasLeft, hqp] using hq)

theorem Inv.drawn_setPhase {cmds : List Cmd} {s : Loops P Cmd}
    (hs : s.Inv cmds) {p : P} {phase : LoopPhase}
    (hticket : phase.ticket = none) :
    ∀ q idx, (s.setPhase p phase).phases q = .fetched idx →
      q ≠ p ∧ s.totalWork q ≤ idx := by
  intro q idx hq
  by_cases hqp : q = p
  · simp only [setPhase_phases, hqp, if_true] at hq
    simp [hq, LoopPhase.ticket] at hticket
  · exact ⟨hqp, hs.drawn q idx (by simpa [hqp] using hq)⟩

omit [DecidableEq P] in
theorem Inv.held {cmds : List Cmd} {s : Loops P Cmd} (hs : s.Inv cmds)
    {p : P} {idx : Nat} (was : s.phases p = .fetched idx) :
    s.cmds p = cmds ∧ s.hands p = some idx ∧ idx < s.counter := by
  have hheld : s.hands p = some idx := by simp [hands, was, LoopPhase.ticket]
  exact ⟨hs.copies p (by simp [was]), hheld, (hs.tickets.held p idx hheld).1⟩

theorem Inv.move {cmds : List Cmd} {s s' : Loops P Cmd} (hs : s.Inv cmds)
    {p : P} {phase : LoopPhase}
    (hphases : s'.phases = (s.setPhase p phase).phases)
    (hcounter : s'.counter = s.counter) (hcalled : s'.called = s.called)
    (hwork : s'.totalWork = s.totalWork)
    (hticket : phase.ticket = none) (hwas : (s.phases p).ticket = none)
    (hleft : phase = .left ∨ phase = .returned → s.HasLeft p)
    (hcopies : ∀ q, s'.phases q ≠ .returned → s'.cmds q = cmds) :
    s'.Inv cmds := by
  have hhands : s'.hands = s.hands := by
    rw [hands, hphases]
    exact hands_setPhase_same (hticket.trans hwas.symm)
  constructor
  · exact hcopies
  · rw [hcounter, hhands, hcalled]
    exact hs.tickets
  · intro q hq
    rw [hcounter]
    rw [HasLeft, hphases] at hq
    by_cases hqp : q = p
    · exact hs.exhausted p (hleft (by simpa [hqp] using hq))
    · exact hs.exhausted q (by simpa [HasLeft, hqp] using hq)
  · intro q idx hq
    rw [hphases] at hq
    rw [hwork]
    exact (hs.drawn_setPhase hticket q idx hq).2
  · rw [hcounter, hwork]
    exact hs.work

theorem Inv.fetch {cmds : List Cmd} {s : Loops P Cmd} (hs : s.Inv cmds)
    {p : P} (was : s.phases p = .fetching) :
    Inv cmds { s.setPhase p (.fetched s.counter) with
      counter := s.counter + 1 } := by
  constructor
  · exact hs.copies_setPhase (by simp [was]) _
  · have hempty : s.hands p = none := by simp [hands, was, LoopPhase.ticket]
    have hissue := hs.tickets.issue hempty
    exact s.hands_setPhase p (.fetched s.counter) ▸ hissue
  · intro q hq
    have hdrawn := hs.exhausted_setPhase (by simp) (by simp) q hq
    exact Nat.le_succ_of_le hdrawn
  · intro q idx hq
    by_cases hqp : q = p
    · -- The new index is the old value of the counter.
      simp only [setPhase_phases, hqp, if_true, LoopPhase.fetched.injEq] at hq
      have hwork := (hs.work q).1
      simp only [setPhase_totalWork]
      omega
    · exact hs.drawn q idx (by simpa [hqp] using hq)
  · intro q
    have hwork := hs.work q
    exact ⟨Nat.le_succ_of_le hwork.1, hwork.2⟩

theorem Inv.leave {cmds : List Cmd} {s : Loops P Cmd} (hs : s.Inv cmds)
    {p : P} {idx : Nat} (was : s.phases p = .fetched idx)
    (past : (s.cmds p).length ≤ idx) : Inv cmds (s.setPhase p .left) := by
  obtain ⟨hcmds, hheld, hlt⟩ := hs.held was
  rw [hcmds] at past
  constructor
  · exact hs.copies_setPhase (by simp [was]) _
  · rw [hands_setPhase]
    exact hs.tickets.discard hheld (by omega)
  · intro q hq
    by_cases hqp : q = p
    · simp only [setPhase_counter]
      omega
    · exact hs.exhausted q (by simpa [HasLeft, hqp] using hq)
  · exact fun q i hq => (hs.drawn_setPhase rfl q i hq).2
  · exact hs.work

theorem Inv.call {cmds : List Cmd} {s : Loops P Cmd} (hs : s.Inv cmds)
    {p : P} {idx : Nat} (was : s.phases p = .fetched idx)
    (within : idx < (s.cmds p).length) :
    Inv cmds { s.setPhase p (.indexing idx) with
      totalWork := Function.update s.totalWork p (s.totalWork p + 1)
      called := s.called ++ [idx] } := by
  obtain ⟨hcmds, hheld, hlt⟩ := hs.held was
  rw [hcmds] at within
  constructor
  · exact hs.copies_setPhase (by simp [was]) _
  · have huse := hs.tickets.use hheld within
    exact s.hands_setPhase p (.indexing idx) ▸ huse
  · exact hs.exhausted_setPhase (by simp) (by simp)
  · intro q i hq
    obtain ⟨hqp, hdrawn⟩ := hs.drawn_setPhase rfl q i hq
    simpa [hqp] using hdrawn
  · intro q
    by_cases hqp : q = p
    · have hdrawn := hs.drawn p idx was
      simp only [hqp, Function.update_self, setPhase_counter]
      omega
    · simpa [hqp] using hs.work q

theorem Inv.step {cmds : List Cmd} {s s' : Loops P Cmd} {a : LoopAction P}
    (hs : s.Inv cmds) (h : s.step a = some s') : s'.Inv cmds := by
  cases effect_of_step h with
  | fetch p was => exact hs.fetch was
  | leave p idx was past => exact hs.leave was past
  | call p idx was within => exact hs.call was within
  | start p connected was =>
      refine hs.move rfl rfl rfl rfl ?_ (by simp [was, LoopPhase.ticket]) ?_ ?_
      · cases connected <;> simp [LoopPhase.ticket]
      · cases connected <;> simp
      · exact hs.copies_setPhase (by simp [was]) _
  | indexed p idx error was =>
      refine hs.move rfl rfl rfl rfl ?_ (by simp [was, LoopPhase.ticket]) ?_ ?_
      · simp [LoopPhase.ticket]
      · simp
      · exact hs.copies_setPhase (by simp [was]) _
  | cleanUp p was =>
      refine hs.move rfl rfl rfl rfl ?_ (by simp [was, LoopPhase.ticket]) ?_ ?_
      · simp [LoopPhase.ticket]
      · simp [HasLeft, was]
      · intro q hq
        have hqp : q ≠ p := by
          rintro rfl
          simp at hq
        simpa [hqp] using hs.copies q (by simpa [hqp] using hq)

theorem Inv.of_reachable {cmds : List Cmd} {s : Loops P Cmd}
    (h : (parseLoops P cmds).Reachable s) : s.Inv cmds :=
  System.ReachWhere.invariant (I := Inv cmds) (Inv.initial cmds)
    (fun hs _ => hs.step) h

omit [DecidableEq P] in
theorem Inv.called_perm {cmds : List Cmd} {s : Loops P Cmd} (hs : s.Inv cmds)
    {p : P} (hleft : s.HasLeft p) (hnone : ∀ q, ¬s.InLoop q) :
    s.called.Perm (List.range cmds.length) := by
  have hempty : ∀ q, s.hands q = none := by
    intro q
    cases hphase : s.phases q with
    | fetched idx => exact absurd (.inr (.inl ⟨idx, hphase⟩)) (hnone q)
    | _ => simp [hands, hphase, LoopPhase.ticket]
  have hdrawn := hs.exhausted p hleft
  refine hs.tickets.used_perm hempty fun idx => ?_
  omega

/-! ## The iterations of one task -/

/-- The iterations that `p` has begun: those that `total_work` counts, and the
one in which the drawn index is still to be compared or ends the loop. -/
def iterations (s : Loops P Cmd) (p : P) : Nat :=
  s.totalWork p + match s.phases p with
    | .fetched _ | .left | .returned => 1
    | _ => 0

theorem iterations_of_step {s s' : Loops P Cmd} {a : LoopAction P}
    (h : s.step a = some s') (p : P) :
    s'.iterations p = s.iterations p + if a = .fetch p then 1 else 0 := by
  unfold iterations
  cases effect_of_step h with
  | start q connected was =>
      by_cases hpq : p = q <;> cases connected <;> simp [hpq, was]
  | fetch q was =>
      by_cases hpq : p = q
      · simp [hpq, was]
      · simp [hpq, Ne.symm hpq]
  | leave q idx was =>
      by_cases hpq : p = q <;> simp [hpq, was]
  | call q idx was =>
      by_cases hpq : p = q <;> simp [hpq, was]
  | indexed q idx error was =>
      by_cases hpq : p = q <;> simp [hpq, was]
  | cleanUp q was =>
      by_cases hpq : p = q <;> simp [hpq, was]

omit [DecidableEq P] in
theorem Inv.iterations_le {cmds : List Cmd} {s : Loops P Cmd}
    (hs : s.Inv cmds) (p : P) : s.iterations p ≤ cmds.length + 1 := by
  have hwork := (hs.work p).2
  unfold iterations
  split <;> omega

theorem enabled_of_inLoop {s : Loops P Cmd} {p : P} (h : s.InLoop p) :
    ∃ a, a.task = p ∧ (s.step a).isSome = true := by
  rcases h with hphase | ⟨idx, hphase⟩ | ⟨idx, hphase⟩
  · exact ⟨.fetch p, rfl, by simp [step, hphase]⟩
  · refine ⟨.check p, rfl, ?_⟩
    simp only [step, hphase]
    split <;> rfl
  · exact ⟨.indexed p false, rfl, by simp [step, hphase]⟩

end Loops

/--
When no task is in its loop and one has left it, `index_translation_unit` has
been called once for each command and for nothing else.  A task begins at most
one iteration more than there are commands, and is never stuck in one.
-/
theorem doParse_exactly_once {P Cmd : Type} [DecidableEq P] {cmds : List Cmd}
    {schedule : List (LoopAction P)} {s : Loops P Cmd}
    (h : (parseLoops P cmds).run (.initial P cmds) schedule = some s) :
    ((∃ p, s.HasLeft p) → (∀ p, ¬s.InLoop p) →
      s.called.Perm (List.range cmds.length)) ∧
    ∀ p, schedule.count (.fetch p) ≤ cmds.length + 1 ∧
      (s.InLoop p → ∃ a, a.task = p ∧ (s.step a).isSome = true) := by
  have hinv := Loops.Inv.of_reachable (System.Reachable.of_run h)
  constructor
  · rintro ⟨p, hleft⟩ hnone
    exact hinv.called_perm hleft hnone
  · intro p
    refine ⟨?_, Loops.enabled_of_inLoop⟩
    have hcount := System.run_countP (f := fun s => s.iterations p)
      (q := fun a => a == .fetch p) (fun hstep => by
        simpa using Loops.iterations_of_step hstep p) h
    have hle := hinv.iterations_le p
    have hzero : (Loops.initial P cmds).iterations p = 0 := rfl
    rw [hcount, hzero, Nat.zero_add] at hle
    exact hle

/-- The second task starts when the first one has done all the work. -/
theorem doParse_exactly_once_late : ∃ s : Loops Bool Unit,
    s.called = [0, 1] ∧ s.called.Perm (List.range 2) := by
  let work : List (LoopAction Bool) := [.start false true, .fetch false,
    .check false, .indexed false false, .fetch false, .check false,
    .indexed false true, .fetch false, .check false, .cleanUp false,
    .start true true, .fetch true, .check true]
  have hwork : ((parseLoops Bool [(), ()]).run (.initial Bool [(), ()])
      work).map (fun s => (s.called, s.phases false, s.phases true)) =
        some ([0, 1], .returned, .left) := by
    decide
  obtain ⟨s, hrun, hs⟩ := Option.map_eq_some_iff.mp hwork
  simp only [Prod.mk.injEq] at hs
  refine ⟨s, hs.1, (doParse_exactly_once hrun).1 ⟨true, ?_⟩ ?_⟩
  · simp [Loops.HasLeft, hs.2.2]
  · simp [Loops.InLoop, hs.2]

end Pview.Tasks
