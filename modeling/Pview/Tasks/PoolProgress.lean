import Pview.Foundation.Termination
import Pview.Tasks.MaxDop

/-!
# Tasks get to the workers

`add_task` notifies one worker for each task, so while a worker waits there are
as many idle workers on their way to the mutex, or notifications to come, as
there are tasks in the queue.  A task stays in the queue only as long as every
worker has another one in its hands.
-/

namespace Pview.Tasks

open Pview.Foundation
open Pview.Foundation.CondVar

variable {n : Nat} {Task : Type}

/-- An idle worker that is on its way to the mutex. -/
def awakeWeight : Phase × Job Task → Nat
  | (.running, .idle) | (.notified, .idle) => 1
  | _ => 0

def Job.weight : Job Task → Nat
  | .idle => 0
  | .running _ _ => 1
  | .holding _ _ => 2

def handWeight (hand : Phase × Job Task) : Nat :=
  phaseWeight hand.1 + hand.2.weight

namespace ThreadPool

def hands (s : ThreadPool n Task) (w : Fin n) : Phase × Job Task :=
  (s.workers w, s.jobs w)

variable {s s' : ThreadPool n Task}

theorem hands_setWorker (w : Fin n) (phase : Phase) :
    (s.setWorker w phase).hands =
      Function.update s.hands w (phase, s.jobs w) := by
  funext v
  by_cases hv : v = w
  · subst hv
    simp [hands]
  · simp [hands, hv]

theorem hands_setJob (w : Fin n) (job : Job Task) :
    (s.setJob w job).hands = Function.update s.hands w (s.workers w, job) := by
  funext v
  by_cases hv : v = w
  · subst hv
    simp [hands]
  · simp [hands, hv]

theorem total_hands (weight : Phase × Job Task → Nat) {w : Fin n}
    {hand : Phase × Job Task}
    (hhands : s'.hands = Function.update s.hands w hand) :
    total weight s'.hands + weight (s.workers w, s.jobs w) =
      total weight s.hands + weight hand := by
  rw [hhands]
  exact total_update weight s.hands w hand

theorem hands_notifyOne {wake : Option (Fin n)} {workers : Fin n → Phase}
    (h : notifyOne s.workers wake = some workers) (adding : Nat) :
    (∀ w, s.workers w ≠ .waiting) ∧ workers = s.workers ∨
    ∃ w, s.workers w = .waiting ∧
      hands { s with workers := workers, adding := adding } =
        Function.update s.hands w (.notified, s.jobs w) := by
  cases wake with
  | none =>
      simp only [notifyOne, Option.ite_none_right_eq_some,
        Option.some.injEq] at h
      exact .inl ⟨h.1, h.2.symm⟩
  | some w =>
      simp only [notifyOne, Option.ite_none_right_eq_some,
        Option.some.injEq] at h
      obtain ⟨hwaiting, rfl⟩ := h
      refine .inr ⟨w, hwaiting, ?_⟩
      funext v
      by_cases hv : v = w
      · subst hv
        simp [hands]
      · simp [hands, hv]

/-! ## No wake-up by `add_task` is lost -/

def awake (s : ThreadPool n Task) : Nat := total awakeWeight s.hands

structure WakeInv (s : ThreadPool n Task) : Prop where
  blocking : ∀ w, s.workers w = .blocking → s.tasks = []
  waiting : ∀ w, s.workers w = .waiting → s.tasks.length ≤ s.adding + s.awake

theorem WakeInv.initial : (ThreadPool.initial n Task).WakeInv where
  blocking w hw := by simp [ThreadPool.initial] at hw
  waiting w hw := by simp [ThreadPool.initial] at hw

theorem WakeInv.of_tasks_nil (h : s.tasks = []) : s.WakeInv where
  blocking _ _ := h
  waiting _ _ := by simp [h]

theorem WakeInv.notifyOne (hs : s.WakeInv) (hdrain : s.DrainInv)
    {wake : Option (Fin n)} {workers : Fin n → Phase}
    (hadding : 0 < s.adding)
    (h : CondVar.notifyOne s.workers wake = some workers) :
    WakeInv { s with workers := workers, adding := s.adding - 1 } where
  blocking w hw := hs.blocking w
    (((Woken.of_notifyOne h).eq_iff (by simp) (by simp) w).1 hw)
  waiting w hw := by
    rcases hands_notifyOne h (s.adding - 1) with
      ⟨hnone, rfl⟩ | ⟨v, hv, hhands⟩
    · exact absurd hw (hnone w)
    · have hidle : s.jobs v = .idle := hdrain.idle (by simp [hv])
      have hawake := total_hands awakeWeight hhands
      have hlength := hs.waiting v hv
      simp only [hv, hidle, awakeWeight] at hawake
      simp only [awake] at hlength ⊢
      omega

theorem WakeInv.take (hs : s.WakeInv) {w : Fin n} {task : Task}
    {rest : List Task} (free : s.MutexFree) (idle : s.jobs w = .idle)
    (was : s.workers w = .running ∨ s.workers w = .notified)
    (head : s.tasks = task :: rest) :
    WakeInv { (s.setWorker w .running).setJob w
        (.holding task s.taken.length) with
      tasks := rest
      taken := s.taken ++ [task] } where
  blocking v hv := by
    by_cases hvw : v = w
    · simp [hvw] at hv
    · exact absurd (by simpa [hvw] using hv) (free v)
  waiting v hv := by
    have hvw : v ≠ w := by
      rintro rfl
      simp at hv
    have hlength := hs.waiting v (by simpa [hvw] using hv)
    have hhands : ((s.setWorker w .running).setJob w
        (.holding task s.taken.length)).hands =
        Function.update s.hands w
          (.running, .holding task s.taken.length) := by
      rw [hands_setJob, hands_setWorker, Function.update_idem,
        setWorker_workers, if_pos rfl]
    have hawake := total_hands awakeWeight hhands
    have hone : awakeWeight (s.workers w, s.jobs w) = 1 := by
      rcases was with was | was <;> simp [was, idle, awakeWeight]
    rw [hone] at hawake
    simp only [head, List.length_cons, awake] at hlength
    simp only [awakeWeight] at hawake
    change rest.length ≤ s.adding + total awakeWeight
      ((s.setWorker w .running).setJob w
        (.holding task s.taken.length)).hands
    omega

theorem WakeInv.step {a : PoolAction n Task} (hs : s.WakeInv)
    (hdrain : s.DrainInv) (h : s.step a = some s') : s'.WakeInv := by
  cases effect_of_step h with
  | emplace task free live =>
      refine ⟨fun w hw => absurd hw (free w), fun w hw => ?_⟩
      have hlength := hs.waiting w hw
      simp only [List.length_append, List.length_singleton]
      change s.tasks.length + 1 ≤ s.adding + 1 + s.awake
      omega
  | notifyOne wake workers woken =>
      obtain ⟨hadding, -⟩ := Option.ite_none_right_eq_some.mp h
      exact hs.notifyOne hdrain hadding woken
  | sleep w free idle empty live => exact .of_tasks_nil empty
  | exit w free idle empty stop => exact .of_tasks_nil empty
  | take w task rest free idle was head => exact hs.take free idle was head
  | block w was => exact .of_tasks_nil (hs.blocking w was)
  | spurious w was =>
      have hidle : s.jobs w = .idle := hdrain.idle (by simp [was])
      have hawake := total_hands awakeWeight (hands_setWorker (s := s) w
        .notified)
      simp only [was, hidle, awakeWeight] at hawake
      constructor
      · intro v hv
        by_cases hvw : v = w
        · simp [hvw] at hv
        · exact hs.blocking v (by simpa [hvw] using hv)
      · intro v hv
        have hlength := hs.waiting w was
        simp only [awake] at hlength ⊢
        change s.tasks.length ≤ s.adding + _
        omega
  | invoke w task ticket was =>
      have hawake := total_hands awakeWeight (hands_setJob (s := s) w
        (.running task ticket))
      have hrunning := hdrain.working w (by simp [was])
      simp only [was, hrunning, awakeWeight] at hawake
      refine ⟨hs.blocking, fun v hv => ?_⟩
      have hlength := hs.waiting v hv
      simp only [awake] at hlength ⊢
      change s.tasks.length ≤ s.adding +
        total awakeWeight (s.setJob w (.running task ticket)).hands
      omega
  | finish w task ticket was =>
      have hawake := total_hands awakeWeight (hands_setJob (s := s) w .idle)
      have hrunning := hdrain.working w (by simp [was])
      simp only [was, hrunning, awakeWeight] at hawake
      refine ⟨hs.blocking, fun v hv => ?_⟩
      have hlength := hs.waiting v hv
      simp only [awake] at hlength ⊢
      change s.tasks.length ≤ s.adding + _
      omega
  | storeStopped was => exact ⟨hs.blocking, hs.waiting⟩
  | notifyAll was =>
      refine ⟨fun w hw => hs.blocking w ?_, fun w hw => ?_⟩
      · exact ((Woken.of_notifyAll _).eq_iff (by simp) (by simp) w).1 hw
      · exact absurd hw (notifyAll_ne_waiting _ w)
  | join next was exited => exact ⟨hs.blocking, hs.waiting⟩

theorem WakeInv.of_reachable (h : (threadPool n Task).Reachable s) :
    s.WakeInv := by
  have hboth : s.WakeInv ∧ s.DrainInv := by
    apply System.ReachWhere.invariant (I := fun s => WakeInv s ∧ DrainInv s)
      _ _ h
    · exact ⟨.initial, .initial⟩
    · exact fun hs _ hstep => ⟨hs.1.step hs.2 hstep, hs.2.step hstep⟩
  exact hboth.1

/-! ## The pool comes to rest -/

/-- The steps that the pool makes by itself, but for spurious wake-ups. -/
def poolWork (s : ThreadPool n Task) : Nat :=
  5 * s.tasks.length + 4 * s.adding + total handWeight s.hands

theorem poolWork_setWorker {w : Fin n} {phase : Phase}
    (hlt : phaseWeight phase < phaseWeight (s.workers w)) :
    (s.setWorker w phase).poolWork < s.poolWork := by
  have htotal := total_hands handWeight (hands_setWorker (s := s) w phase)
  simp only [handWeight] at htotal
  unfold poolWork
  change 5 * s.tasks.length + 4 * s.adding + _ < _
  omega

theorem poolWork_setJob {w : Fin n} {job : Job Task}
    (hlt : job.weight < (s.jobs w).weight) :
    (s.setJob w job).poolWork < s.poolWork := by
  have htotal := total_hands handWeight (hands_setJob (s := s) w job)
  simp only [handWeight] at htotal
  unfold poolWork
  change 5 * s.tasks.length + 4 * s.adding + _ < _
  omega

theorem poolWork_notifyOne {wake : Option (Fin n)}
    (h : s.step (.notifyOne wake) = some s') : s'.poolWork < s.poolWork := by
  obtain ⟨hadding, h⟩ := Option.ite_none_right_eq_some.mp h
  obtain ⟨workers, hwoken, rfl⟩ := Option.map_eq_some_iff.mp h
  rcases hands_notifyOne hwoken (s.adding - 1) with
    ⟨-, rfl⟩ | ⟨w, hw, hhands⟩
  · unfold poolWork
    change 5 * s.tasks.length + 4 * (s.adding - 1) + total handWeight s.hands <
      _
    omega
  · have htotal := total_hands handWeight hhands
    simp only [handWeight, hw, phaseWeight] at htotal
    unfold poolWork
    dsimp only
    omega

theorem poolWork_lock {w : Fin n} (h : s.step (.lock w) = some s') :
    s'.poolWork < s.poolWork := by
  have hfrom : s.workers w = .running ∨ s.workers w = .notified :=
    (Option.ite_none_right_eq_some.mp h).1.2.2
  have hphase : 2 ≤ phaseWeight (s.workers w) := by
    rcases hfrom with hfrom | hfrom <;> simp [hfrom, phaseWeight]
  cases effect_of_step h with
  | sleep =>
      exact poolWork_setWorker (Nat.lt_of_lt_of_le (by decide) hphase)
  | exit =>
      exact poolWork_setWorker (Nat.lt_of_lt_of_le (by decide) hphase)
  | take _ task rest free idle was head =>
      have hworker := total_hands handWeight
        (hands_setWorker (s := s) w .running)
      have hjob := total_hands handWeight (hands_setJob
        (s := s.setWorker w .running) w (.holding task s.taken.length))
      simp only [handWeight, setWorker_workers, setWorker_jobs, if_true, idle,
        Job.weight, phaseWeight] at hworker hjob
      unfold poolWork
      simp only [head, List.length_cons]
      change 5 * rest.length + 4 * s.adding + total handWeight
        ((s.setWorker w .running).setJob w
          (.holding task s.taken.length)).hands < _
      omega

theorem poolWork_block {w : Fin n} (h : s.step (.block w) = some s') :
    s'.poolWork < s.poolWork := by
  obtain ⟨was, h⟩ := Option.ite_none_right_eq_some.mp h
  cases h
  exact poolWork_setWorker (by simp [was, phaseWeight])

theorem poolWork_finish {w : Fin n} (h : s.step (.finish w) = some s') :
    s'.poolWork < s.poolWork := by
  cases effect_of_step h with
  | finish _ task ticket was =>
      exact poolWork_setJob (by simp [was, Job.weight])

/-! ## A queued task -/

theorem exists_awake (h : 0 < s.awake) :
    ∃ w, s.jobs w = .idle ∧
      (s.workers w = .running ∨ s.workers w = .notified) := by
  have hne : ∑ w, awakeWeight (s.hands w) ≠ 0 := Nat.pos_iff_ne_zero.mp h
  obtain ⟨w, -, hw⟩ := Finset.exists_ne_zero_of_sum_ne_zero hne
  refine ⟨w, ?_⟩
  cases hphase : s.workers w <;> cases hjob : s.jobs w <;>
    simp_all [hands, awakeWeight]

/-- A task in the queue of a live pool is on its way to a worker, unless all of
them have other ones. -/
theorem exists_lock_or_busy (h : (threadPool n Task).Reachable s)
    (hlive : s.stopped = false) (free : s.MutexFree) (hadding : s.adding = 0)
    (htasks : s.tasks ≠ []) :
    (∃ w, (s.step (.lock w)).isSome) ∨ ∀ w, s.jobs w ≠ .idle := by
  have hwake := WakeInv.of_reachable h
  have hdrain := DrainInv.of_reachable h
  have hlock : ∀ {w}, s.jobs w = .idle →
      s.workers w = .running ∨ s.workers w = .notified →
      (s.step (.lock w)).isSome := by
    intro w hidle hfrom
    simp only [step, lock, free, hidle, hfrom, and_self, if_true]
    split
    · split <;> rfl
    · rfl
  by_contra hnone
  simp only [not_or, not_exists, not_forall, not_not] at hnone
  obtain ⟨hstuck, w, hidle⟩ := hnone
  cases hphase : s.workers w with
  | running => exact hstuck w (hlock hidle (.inl hphase))
  | notified => exact hstuck w (hlock hidle (.inr hphase))
  | blocking => exact free w hphase
  | finished =>
      have hstopped := (hdrain.exited w hphase).1
      simp [hlive] at hstopped
  | waiting =>
      have hlength := hwake.waiting w hphase
      have hpos : 0 < s.tasks.length := List.length_pos_iff.mpr htasks
      obtain ⟨v, hv, hfrom⟩ := exists_awake (s := s) (by omega)
      exact hstuck v (hlock hv hfrom)

end ThreadPool

end Pview.Tasks
