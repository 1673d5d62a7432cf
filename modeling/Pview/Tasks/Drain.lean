import Pview.Foundation.Tickets
import Pview.Tasks.ThreadPool

/-!
# Every task runs once

A task gets its ticket when it is popped and the ticket is used when the
task's function is called.  `stopped` may rise with tasks still queued; a
worker exits only after it has seen the queue empty, and nothing is added from
then on.
-/

namespace Pview.Tasks

open Pview.Foundation
open Pview.Foundation.CondVar

variable {n : Nat} {Task : Type}

def Job.ticket : Job Task → Option Nat
  | .holding _ ticket => some ticket
  | .idle | .running _ _ => none

/-- The tasks taken so far, the workers' hands and the calls made. -/
structure Calls (taken : List Task) (jobs : Fin n → Job Task)
    (invoked : List (Task × Nat)) : Prop where
  tickets : Tickets (fun _ => True) taken.length (Job.ticket ∘ jobs)
    (invoked.map Prod.snd)
  held : ∀ w task ticket, jobs w = .holding task ticket →
    (task, ticket) ∈ taken.zipIdx
  invoked : ∀ call ∈ invoked, call ∈ taken.zipIdx

namespace Calls

variable {taken : List Task} {jobs : Fin n → Job Task}
  {invoked : List (Task × Nat)}

theorem held_update (h : Calls taken jobs invoked) {w : Fin n}
    {job : Job Task} (hjob : job.ticket = none) :
    ∀ v task ticket, Function.update jobs w job v = .holding task ticket →
      (task, ticket) ∈ taken.zipIdx := by
  intro v task ticket hv
  by_cases hvw : v = w
  · simp only [hvw, Function.update_self] at hv
    simp [hv, Job.ticket] at hjob
  · exact h.held v task ticket (by simpa [hvw] using hv)

theorem take (h : Calls taken jobs invoked) {w : Fin n}
    (idle : jobs w = .idle) (task : Task) :
    Calls (taken ++ [task])
      (Function.update jobs w (.holding task taken.length)) invoked := by
  constructor
  · have hempty : (Job.ticket ∘ jobs) w = none := by simp [idle, Job.ticket]
    have hissue := h.tickets.issue hempty
    simpa [Function.comp_update, Job.ticket] using hissue
  · intro v task' ticket hv
    rw [List.zipIdx_append, List.mem_append]
    by_cases hvw : v = w
    · simp only [hvw, Function.update_self, Job.holding.injEq] at hv
      simp [hv]
    · exact .inl (h.held v task' ticket (by simpa [hvw] using hv))
  · intro call hcall
    rw [List.zipIdx_append]
    exact List.mem_append_left _ (h.invoked call hcall)

theorem invoke (h : Calls taken jobs invoked) {w : Fin n} {task : Task}
    {ticket : Nat} (was : jobs w = .holding task ticket) :
    Calls taken (Function.update jobs w (.running task ticket))
      (invoked ++ [(task, ticket)]) := by
  constructor
  · have hheld : (Job.ticket ∘ jobs) w = some ticket := by
      simp [was, Job.ticket]
    have huse := h.tickets.use hheld trivial
    simpa [Function.comp_update, Job.ticket] using huse
  · exact h.held_update rfl
  · intro call hcall
    rcases List.mem_append.mp hcall with hcall | hcall
    · exact h.invoked call hcall
    · rw [List.mem_singleton.mp hcall]
      exact h.held w task ticket was

theorem finish (h : Calls taken jobs invoked) {w : Fin n} {task : Task}
    {ticket : Nat} (was : jobs w = .running task ticket) :
    Calls taken (Function.update jobs w .idle) invoked := by
  constructor
  · have hempty : (Job.ticket ∘ jobs) w = none := by simp [was, Job.ticket]
    have hsame := Function.update_eq_self w (Job.ticket ∘ jobs)
    rw [hempty] at hsame
    simpa [Function.comp_update, Job.ticket, hsame] using h.tickets
  · exact h.held_update rfl
  · exact h.invoked

theorem nodup (h : Calls taken jobs invoked) : invoked.Nodup :=
  .of_map Prod.snd h.tickets.nodup

theorem subperm (h : Calls taken jobs invoked) :
    invoked.Subperm taken.zipIdx :=
  List.subperm_of_subset h.nodup h.invoked

theorem perm (h : Calls taken jobs invoked) (hidle : ∀ w, jobs w = .idle) :
    invoked.Perm taken.zipIdx := by
  have hempty : ∀ w, (Job.ticket ∘ jobs) w = none := by
    simp [hidle, Job.ticket]
  have hrange : (invoked.map Prod.snd).Perm (List.range taken.length) :=
    h.tickets.used_perm hempty (by simp)
  have hlength : invoked.length = taken.length := by
    simpa using hrange.length_eq
  exact h.subperm.perm_of_length_le (by simp [hlength])

end Calls

namespace ThreadPool

structure DrainInv (s : ThreadPool n Task) : Prop where
  order : s.taken ++ s.tasks = s.added
  calls : Calls s.taken s.jobs s.invoked
  working : ∀ w, s.jobs w ≠ .idle → s.workers w = .running
  exited : ∀ w, s.workers w = .finished → s.stopped = true ∧ s.tasks = []

theorem DrainInv.initial : (ThreadPool.initial n Task).DrainInv where
  order := by simp [ThreadPool.initial]
  calls := ⟨.empty, by simp [ThreadPool.initial], by simp [ThreadPool.initial]⟩
  working := by simp [ThreadPool.initial]
  exited := by simp [ThreadPool.initial]

theorem DrainInv.idle {s : ThreadPool n Task} (hs : s.DrainInv) {w : Fin n}
    (h : s.workers w ≠ .running) : s.jobs w = .idle := by
  by_contra hjob
  exact h (hs.working w hjob)

theorem DrainInv.setWorker {s : ThreadPool n Task} (hs : s.DrainInv)
    {w : Fin n} {phase : Phase} (hidle : s.jobs w = .idle)
    (hexit : phase = .finished → s.stopped = true ∧ s.tasks = []) :
    (s.setWorker w phase).DrainInv where
  order := hs.order
  calls := hs.calls
  working v hv := by
    have hvw : v ≠ w := by
      rintro rfl
      exact hv hidle
    simpa [hvw] using hs.working v hv
  exited v hv := by
    by_cases hvw : v = w
    · exact hexit (by simpa [hvw] using hv)
    · exact hs.exited v (by simpa [hvw] using hv)

theorem DrainInv.woken {s : ThreadPool n Task} (hs : s.DrainInv)
    {workers : Fin n → Phase} (hwoken : Woken s.workers workers) (adding : Nat)
    (destructor : Destructor) : DrainInv { s with
      workers := workers
      adding := adding
      destructor := destructor } where
  order := hs.order
  calls := hs.calls
  working w hw := (hwoken.eq_iff (by simp) (by simp) w).2 (hs.working w hw)
  exited w hw := hs.exited w ((hwoken.eq_iff (by simp) (by simp) w).1 hw)

theorem DrainInv.working_setJob {s : ThreadPool n Task} (hs : s.DrainInv)
    {w : Fin n} (was : s.jobs w ≠ .idle) (job : Job Task) :
    ∀ v, (s.setJob w job).jobs v ≠ .idle → s.workers v = .running := by
  intro v hv
  by_cases hvw : v = w
  · rw [hvw]
    exact hs.working w was
  · exact hs.working v (by simpa [hvw] using hv)

theorem DrainInv.step {s s' : ThreadPool n Task} {a : PoolAction n Task}
    (hs : s.DrainInv) (h : s.step a = some s') : s'.DrainInv := by
  cases effect_of_step h with
  | notifyOne wake workers woken => exact hs.woken (.of_notifyOne woken) _ _
  | notifyAll was => exact hs.woken (.of_notifyAll _) _ _
  | sleep w free idle => exact hs.setWorker idle (by simp)
  | exit w free idle empty stop =>
      exact hs.setWorker idle fun _ => ⟨stop, empty⟩
  | block w was => exact hs.setWorker (hs.idle (by simp [was])) (by simp)
  | spurious w was => exact hs.setWorker (hs.idle (by simp [was])) (by simp)
  | join => exact ⟨hs.order, hs.calls, hs.working, hs.exited⟩
  | emplace task free live =>
      refine ⟨by simp [← hs.order], hs.calls, hs.working, ?_⟩
      intro w hw
      have hstop := (hs.exited w hw).1
      simp [live] at hstop
  | storeStopped was =>
      exact ⟨hs.order, hs.calls, hs.working,
        fun w hw => ⟨rfl, (hs.exited w hw).2⟩⟩
  | take w task rest free idle was head =>
      refine ⟨by simpa [head] using hs.order, hs.calls.take idle task, ?_, ?_⟩
      · intro v hv
        by_cases hvw : v = w
        · simp [hvw]
        · simpa [hvw] using hs.working v (by simpa [hvw] using hv)
      · intro v hv
        by_cases hvw : v = w
        · simp [hvw] at hv
        · have hexited := hs.exited v (by simpa [hvw] using hv)
          simp [head] at hexited
  | invoke w task ticket was =>
      exact ⟨hs.order, hs.calls.invoke was,
        hs.working_setJob (by simp [was]) _, hs.exited⟩
  | finish w task ticket was =>
      exact ⟨hs.order, hs.calls.finish was,
        hs.working_setJob (by simp [was]) _, hs.exited⟩

theorem DrainInv.of_reachable {s : ThreadPool n Task}
    (h : (threadPool n Task).Reachable s) : s.DrainInv :=
  System.ReachWhere.invariant (I := DrainInv) .initial
    (fun hs _ => hs.step) h

theorem DrainInv.invoked_subperm {s : ThreadPool n Task} (hs : s.DrainInv) :
    s.invoked.Subperm s.added.zipIdx := by
  rw [← hs.order, List.zipIdx_append]
  exact hs.calls.subperm.trans (List.sublist_append_left _ _).subperm

theorem DrainInv.invoked_perm {s : ThreadPool n Task} (hs : s.DrainInv)
    (hsome : ∃ w, s.workers w = .finished)
    (hall : ∀ w, s.workers w = .finished) :
    s.invoked.Perm s.added.zipIdx := by
  obtain ⟨w, hw⟩ := hsome
  have htaken : s.taken = s.added := by
    simpa [(hs.exited w hw).2] using hs.order
  rw [← htaken]
  exact hs.calls.perm fun v => hs.idle (by simp [hall v])

end ThreadPool

/--
Tasks are taken in the order in which they were added, no task's function is
called twice, nobody exits with tasks in the queue, and the workers exit, all
of them, only when each task's function has been called.
-/
theorem threadPool_drains {s : ThreadPool n Task}
    (h : (threadPool n Task).Reachable s) :
    s.taken ++ s.tasks = s.added ∧
    s.invoked.Subperm s.added.zipIdx ∧
    (∀ w, s.workers w = .finished → s.tasks = []) ∧
    ((∃ w, s.workers w = .finished) → (∀ w, s.workers w = .finished) →
      s.invoked.Perm s.added.zipIdx) := by
  have hs := ThreadPool.DrainInv.of_reachable h
  exact ⟨hs.order, hs.invoked_subperm, fun w hw => (hs.exited w hw).2,
    hs.invoked_perm⟩

/-- `stopped` rises with both tasks queued. -/
theorem threadPool_drains_queued : ∃ s : ThreadPool 2 String,
    s.added = ["a", "b"] ∧ s.invoked.Perm [("a", 0), ("b", 1)] := by
  let work : List (PoolAction 2 String) := [.emplace "a", .emplace "b",
    .notifyOne none, .storeStopped, .lock 1, .lock 0, .invoke 0, .notifyAll,
    .finish 0, .lock 0, .invoke 1, .finish 1, .lock 1]
  have hwork : ((threadPool 2 String).run (.initial 2 String) work).map
      (fun s => (s.added, s.workers 0, s.workers 1)) =
        some (["a", "b"], .finished, .finished) := by
    decide
  obtain ⟨s, hrun, hs⟩ := Option.map_eq_some_iff.mp hwork
  simp only [Prod.mk.injEq] at hs
  have hall : ∀ w, s.workers w = .finished := by
    simp [Fin.forall_fin_two, hs.2]
  have hdrains := threadPool_drains (System.Reachable.of_run hrun)
  refine ⟨s, hs.1, ?_⟩
  simpa [hs.1] using hdrains.2.2.2 ⟨0, hall 0⟩ hall

end Pview.Tasks
