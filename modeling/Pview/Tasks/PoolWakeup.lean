import Pview.Tasks.Drain

/-!
# The destructor's wake-up

`~ThreadPool` notifies without `queue_mutex`, so its `notify_all` may come
after a worker has found the wait predicate false and before it blocks; nobody
wakes this worker again.  A `notify_all` that comes while no worker is in
between wakes everybody for good.
-/

namespace Pview.Tasks

open Pview.Foundation
open Pview.Foundation.CondVar

variable {n : Nat} {Task : Type}

/-- How many steps a worker with this job takes to come back to the mutex and
lock it. -/
def Job.remaining : Job Task → Nat
  | .idle => 1
  | .running _ _ => 2
  | .holding _ _ => 3

namespace ThreadPool

/-- The destructor has notified and a worker is blocked all the same. -/
def LostWakeup (s : ThreadPool n Task) : Prop :=
  s.stopped = true ∧ s.destructor = .joining ∧ ∃ w, s.workers w = .waiting

/-- `notify_all` is called while nobody is between a false predicate and the
blocking, as it would be under the mutex. -/
def NotifiesFree (s : ThreadPool n Task) : PoolAction n Task → Prop
  | .notifyAll => s.MutexFree
  | _ => True

instance (s : ThreadPool n Task) (a : PoolAction n Task) :
    Decidable (s.NotifiesFree a) :=
  match a with
  | .notifyAll => inferInstanceAs (Decidable s.MutexFree)
  | .emplace _ | .notifyOne _ | .lock _ | .block _ | .spurious _ | .invoke _
  | .finish _ | .storeStopped | .join => inferInstanceAs (Decidable True)

structure StopInv (s : ThreadPool n Task) : Prop where
  stored : s.destructor ≠ .notCalled → s.stopped = true
  released : s.destructor = .joining → Awake s.workers
  joined : s.joined ≤ n

theorem StopInv.initial : (ThreadPool.initial n Task).StopInv where
  stored := by simp [ThreadPool.initial]
  released := by simp [ThreadPool.initial]
  joined := by simp [ThreadPool.initial]

theorem StopInv.not_lostWakeup {s : ThreadPool n Task} (hs : s.StopInv) :
    ¬s.LostWakeup := by
  rintro ⟨-, hjoining, w, hw⟩
  exact (hs.released hjoining w).1 hw

theorem StopInv.live {s : ThreadPool n Task} (hs : s.StopInv)
    (hlive : s.stopped = false) : s.destructor ≠ .joining := by
  intro hjoining
  have hstopped := hs.stored (by simp [hjoining])
  simp [hlive] at hstopped

theorem StopInv.step {s s' : ThreadPool n Task} {a : PoolAction n Task}
    (hs : s.StopInv) (allowed : s.NotifiesFree a) (h : s.step a = some s') :
    s'.StopInv := by
  cases effect_of_step h with
  | emplace | invoke | finish => exact ⟨hs.stored, hs.released, hs.joined⟩
  | notifyOne wake workers woken =>
      exact ⟨hs.stored, fun hjoining =>
        (hs.released hjoining).woken (.of_notifyOne woken), hs.joined⟩
  | sleep w free idle empty live =>
      exact ⟨hs.stored, fun hjoining => absurd hjoining (hs.live live),
        hs.joined⟩
  | exit w free idle empty stop =>
      exact ⟨hs.stored, fun hjoining =>
        (hs.released hjoining).update (by simp) (by simp), hs.joined⟩
  | take w task rest free idle was head =>
      exact ⟨hs.stored, fun hjoining =>
        (hs.released hjoining).update (by simp) (by simp), hs.joined⟩
  | block w was =>
      exact ⟨hs.stored, fun hjoining =>
        absurd was (hs.released hjoining w).2, hs.joined⟩
  | spurious w was =>
      exact ⟨hs.stored, fun hjoining =>
        absurd was (hs.released hjoining w).1, hs.joined⟩
  | storeStopped was =>
      exact ⟨by simp, by simp, hs.joined⟩
  | notifyAll was =>
      exact ⟨fun _ => hs.stored (by simp [was]),
        fun _ => awake_notifyAll allowed, hs.joined⟩
  | join next was exited =>
      exact ⟨hs.stored, hs.released, next⟩

theorem StopInv.of_reachWhere {s : ThreadPool n Task}
    (h : (threadPool n Task).ReachWhere NotifiesFree s) : s.StopInv :=
  System.ReachWhere.invariant (I := StopInv) .initial
    (fun hs allowed => hs.step allowed) h

/-- A `notify_all` between a failed check and the blocking is lost. -/
theorem exists_lostWakeup {s : ThreadPool n Task} {w : Fin n}
    (hstop : s.stopped = true) (hstored : s.destructor = .stored)
    (hw : s.workers w = .blocking) :
    ∃ s', (threadPool n Task).run s [.notifyAll, .block w] = some s' ∧
      s'.LostWakeup := by
  have hblocking : CondVar.notifyAll s.workers w = .blocking := by
    simp [CondVar.notifyAll, hw]
  refine ⟨setWorker { s with
    workers := CondVar.notifyAll s.workers
    destructor := .joining } w .waiting, ?_, hstop, rfl, w, by simp⟩
  simp [System.run, threadPool, step, hstored, hblocking]

/-! ## The joins -/

def remaining (s : ThreadPool n Task) (w : Fin n) : Nat :=
  if s.workers w = .finished then 0 else (s.jobs w).remaining

theorem remaining_le (s : ThreadPool n Task) (w : Fin n) :
    s.remaining w ≤ 3 := by
  unfold remaining Job.remaining
  split
  · omega
  · split <;> omega

def pending (s : ThreadPool n Task) : Nat :=
  if h : s.joined < n then s.remaining ⟨s.joined, h⟩ else 0

/-- The joins to come weigh more than what a worker may have in its hands, and
a queued task as much as a task just popped. -/
def joinMeasure (s : ThreadPool n Task) : Nat :=
  4 * (n - s.joined) + 3 * s.tasks.length + s.pending

theorem pending_le (s : ThreadPool n Task) : s.pending ≤ 3 := by
  unfold pending
  split
  · exact s.remaining_le _
  · omega

theorem pending_eq {s : ThreadPool n Task} {w : Fin n} (hw : s.joined = w) :
    s.pending = s.remaining w := by
  have hlt : s.joined < n := by omega
  simp [pending, hw]

structure Joining (s : ThreadPool n Task) : Prop where
  drain : s.DrainInv
  stop : s.StopInv
  joining : s.destructor = .joining

theorem Joining.advance {s : ThreadPool n Task} (hs : s.Joining) {w : Fin n}
    (hw : s.joined = w) (hrunning : s.workers w ≠ .finished) :
    ∃ a s', (∀ v, a ≠ .spurious v) ∧ s.step a = some s' ∧
      s'.joined = w ∧ s'.destructor = .joining ∧
      3 * s'.tasks.length + s'.remaining w <
        3 * s.tasks.length + s.remaining w := by
  have hawake := hs.stop.released hs.joining
  cases hjob : s.jobs w with
  | holding task ticket =>
      refine ⟨.invoke w, { s.setJob w (.running task ticket) with
        invoked := s.invoked ++ [(task, ticket)] }, by simp,
        by simp [step, hjob], hw, hs.joining, ?_⟩
      simp [remaining, setJob, hrunning, hjob, Job.remaining]
  | running task ticket =>
      refine ⟨.finish w, s.setJob w .idle, by simp, by simp [step, hjob], hw,
        hs.joining, ?_⟩
      simp [remaining, setJob, hrunning, hjob, Job.remaining]
  | idle =>
      have hphase : s.workers w = .running ∨ s.workers w = .notified := by
        have hw := hawake w
        cases hphase : s.workers w <;> simp_all
      have hfree : s.MutexFree := fun v => (hawake v).2
      have hstop := hs.stop.stored (by simp [hs.joining])
      cases htasks : s.tasks with
      | nil =>
          refine ⟨.lock w, s.setWorker w .finished, by simp, ?_, hw,
            hs.joining, ?_⟩
          · simp [step, lock, waitPredicate, hfree, hjob, hphase, hstop,
              htasks]
          · simp [remaining, hrunning, hjob, Job.remaining, htasks]
      | cons task rest =>
          refine ⟨.lock w, { (s.setWorker w .running).setJob w
              (.holding task s.taken.length) with
            tasks := rest
            taken := s.taken ++ [task] }, by simp, ?_, hw, hs.joining, ?_⟩
          · simp [step, lock, waitPredicate, hfree, hjob, hphase, htasks]
          · simp [remaining, hrunning, hjob, Job.remaining]
            omega

theorem Joining.step {s s' : ThreadPool n Task} {a : PoolAction n Task}
    (hs : s.Joining) (h : s.step a = some s')
    (hjoining : s'.destructor = .joining) : s'.Joining where
  drain := hs.drain.step h
  stop := by
    refine hs.stop.step ?_ h
    cases a with
    | notifyAll => simp [ThreadPool.step, hs.joining] at h
    | _ => trivial
  joining := hjoining

theorem Joining.exists_step {s : ThreadPool n Task} (hs : s.Joining)
    (hmore : s.joined ≠ n) : ∃ a s', (∀ v, a ≠ .spurious v) ∧
      (threadPool n Task).step s a = some s' ∧ s'.Joining ∧
      s'.joinMeasure < s.joinMeasure := by
  have hlt : s.joined < n := by
    have hle := hs.stop.joined
    omega
  by_cases hexited : s.workers ⟨s.joined, hlt⟩ = .finished
  · have hjoin : s.step .join = some { s with joined := s.joined + 1 } := by
      simp [ThreadPool.step, join, hlt, hs.joining, hexited]
    refine ⟨.join, _, by simp, hjoin, hs.step hjoin hs.joining, ?_⟩
    have hle := pending_le { s with joined := s.joined + 1 }
    simp only [joinMeasure]
    omega
  · obtain ⟨a, s', ha, htaken, hjoined, hjoining, hless⟩ :=
      hs.advance (w := ⟨s.joined, hlt⟩) rfl hexited
    refine ⟨a, s', ha, htaken, hs.step htaken hjoining, ?_⟩
    have hbefore := pending_eq (s := s) (w := ⟨s.joined, hlt⟩) rfl
    have hafter := pending_eq (s := s') (w := ⟨s.joined, hlt⟩) hjoined
    simp only [joinMeasure, hbefore, hafter, hjoined]
    omega

end ThreadPool

/--
In a run whose `notify_all` comes while no worker is between a false wait
predicate and the blocking, no worker is ever blocked after it, and the
destructor can complete its joins without any spurious wake-up.
-/
theorem notifiesFree_joins {s : ThreadPool n Task}
    (h : (threadPool n Task).ReachWhere ThreadPool.NotifiesFree s) :
    ¬s.LostWakeup ∧ (s.destructor = .joining → ∃ schedule s',
      (∀ a ∈ schedule, ∀ w, a ≠ .spurious w) ∧
      (threadPool n Task).run s schedule = some s' ∧ s'.joined = n) := by
  have hstop := ThreadPool.StopInv.of_reachWhere h
  refine ⟨hstop.not_lostWakeup, fun hjoining => ?_⟩
  have hs : s.Joining := ⟨.of_reachable h.reachable, hstop, hjoining⟩
  exact System.exists_run_of_measure ThreadPool.joinMeasure
    (fun _ hs hmore => hs.exists_step hmore) hs

/-- One worker waits and one has not looked yet when `notify_all` comes. -/
theorem notifiesFree_joins_two : ∃ s : ThreadPool 2 Unit,
    s.destructor = .joining ∧ ∃ schedule s',
      (∀ a ∈ schedule, ∀ w, a ≠ .spurious w) ∧
      (threadPool 2 Unit).run s schedule = some s' ∧ s'.joined = 2 := by
  have hwork : ((threadPool 2 Unit).runWhere ThreadPool.NotifiesFree
      (.initial 2 Unit) [.lock 0, .block 0, .storeStopped, .notifyAll]).map
      (fun s => s.destructor) = some .joining := by
    decide
  obtain ⟨s, hrun, hs⟩ := Option.map_eq_some_iff.mp hwork
  have hreach := System.ReachWhere.init.runWhere hrun
  exact ⟨s, hs, (notifiesFree_joins hreach).2 hs⟩

/-- The destructor stores and notifies while the worker is about to block. -/
theorem threadPool_loses_wakeup : ¬∀ (n : Nat) (s : ThreadPool n Unit),
    (threadPool n Unit).Reachable s → ¬s.LostWakeup := by
  intro h
  have hwork : ((threadPool 1 Unit).run (.initial 1 Unit)
      [.lock 0, .storeStopped, .notifyAll, .block 0]).map
      (fun s => (s.stopped, s.destructor, s.workers 0)) =
        some (true, .joining, .waiting) := by
    decide
  obtain ⟨s, hrun, hs⟩ := Option.map_eq_some_iff.mp hwork
  simp only [Prod.mk.injEq] at hs
  exact h 1 s (.of_run hrun) ⟨hs.1, hs.2.1, 0, hs.2.2⟩

end Pview.Tasks
