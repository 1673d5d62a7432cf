import Pview.Foundation.CondVar
import Pview.Foundation.Transition

/-!
# The thread pool

Any number of workers take tasks from one queue.  The stretch from locking
`queue_mutex` to unlocking it is one action, except that a worker which has
found its wait predicate false is in the phase `blocking` before it releases
the mutex: the destructor stores `stopped` and notifies without the mutex.

The components `added`, `taken` and `invoked` record history.  The ticket of a
task that is popped is its position in `taken`.
-/

namespace Pview.Tasks

open Pview.Foundation
open Pview.Foundation.CondVar

inductive Job (Task : Type) where
  | idle
  /-- Popped, and `task.func` not called yet. -/
  | holding (task : Task) (ticket : Nat)
  | running (task : Task) (ticket : Nat)
  deriving Repr

instance {Task : Type} (job : Job Task) : Decidable (job = .idle) :=
  match job with
  | .idle => .isTrue rfl
  | .holding _ _ => .isFalse nofun
  | .running _ _ => .isFalse nofun

inductive Destructor where
  | notCalled
  | stored
  /-- Past its `notify_all`. -/
  | joining
  deriving DecidableEq, Repr

structure ThreadPool (n : Nat) (Task : Type) where
  tasks : List Task
  stopped : Bool
  workers : Fin n → Phase
  jobs : Fin n → Job Task
  /-- Calls of `add_task` between the unlock and `notify_one`. -/
  adding : Nat
  destructor : Destructor
  joined : Nat
  added : List Task
  taken : List Task
  /-- The calls of `task.func`, in their order. -/
  invoked : List (Task × Nat)

inductive PoolAction (n : Nat) (Task : Type) where
  | emplace (task : Task)
  | notifyOne (wake : Option (Fin n))
  | lock (w : Fin n)
  | block (w : Fin n)
  | spurious (w : Fin n)
  | invoke (w : Fin n)
  | finish (w : Fin n)
  | storeStopped
  | notifyAll
  | join
  deriving DecidableEq, Repr

namespace ThreadPool

variable {n : Nat} {Task : Type}

def initial (n : Nat) (Task : Type) : ThreadPool n Task where
  tasks := []
  stopped := false
  workers := fun _ => .running
  jobs := fun _ => .idle
  adding := 0
  destructor := .notCalled
  joined := 0
  added := []
  taken := []
  invoked := []

/-- Nobody is between a false predicate and the blocking. -/
def MutexFree (s : ThreadPool n Task) : Prop :=
  ∀ w, s.workers w ≠ .blocking

instance (s : ThreadPool n Task) : Decidable s.MutexFree :=
  inferInstanceAs (Decidable (∀ _, _))

def waitPredicate (s : ThreadPool n Task) : Bool :=
  s.stopped || !s.tasks.isEmpty

def setWorker (s : ThreadPool n Task) (w : Fin n) (phase : Phase) :
    ThreadPool n Task :=
  { s with workers := Function.update s.workers w phase }

def setJob (s : ThreadPool n Task) (w : Fin n) (job : Job Task) :
    ThreadPool n Task :=
  { s with jobs := Function.update s.jobs w job }

/-- The locked part of `add_task`; the assertion fails on a stopped pool. -/
def emplace (s : ThreadPool n Task) (task : Task) :
    Option (ThreadPool n Task) :=
  if s.MutexFree ∧ s.stopped = false then
    some { s with
      tasks := s.tasks ++ [task]
      adding := s.adding + 1
      added := s.added ++ [task] }
  else
    none

/-- A worker locks the mutex, at the top of its loop or after a wake-up.  Once
the predicate holds, an empty queue means that `stopped` is set. -/
def lock (s : ThreadPool n Task) (w : Fin n) : Option (ThreadPool n Task) :=
  if s.MutexFree ∧ s.jobs w = .idle ∧
      (s.workers w = .running ∨ s.workers w = .notified) then
    if s.waitPredicate then
      match s.tasks with
      | [] => some (s.setWorker w .finished)
      | task :: rest =>
          some { (s.setWorker w .running).setJob w
              (.holding task s.taken.length) with
            tasks := rest
            taken := s.taken ++ [task] }
    else
      some (s.setWorker w .blocking)
  else
    none

def join (s : ThreadPool n Task) : Option (ThreadPool n Task) :=
  if h : s.joined < n then
    if s.destructor = .joining ∧ s.workers ⟨s.joined, h⟩ = .finished then
      some { s with joined := s.joined + 1 }
    else
      none
  else
    none

def step (s : ThreadPool n Task) :
    PoolAction n Task → Option (ThreadPool n Task)
  | .emplace task => s.emplace task
  | .notifyOne wake =>
      if 0 < s.adding then
        (notifyOne s.workers wake).map fun workers =>
          { s with workers := workers, adding := s.adding - 1 }
      else
        none
  | .lock w => s.lock w
  | .block w =>
      if s.workers w = .blocking then some (s.setWorker w .waiting) else none
  | .spurious w =>
      if s.workers w = .waiting then some (s.setWorker w .notified) else none
  | .invoke w =>
      match s.jobs w with
      | .holding task ticket =>
          some { s.setJob w (.running task ticket) with
            invoked := s.invoked ++ [(task, ticket)] }
      | _ => none
  | .finish w =>
      match s.jobs w with
      | .running _ _ => some (s.setJob w .idle)
      | _ => none
  | .storeStopped =>
      if s.destructor = .notCalled then
        some { s with stopped := true, destructor := .stored }
      else
        none
  | .notifyAll =>
      if s.destructor = .stored then
        some { s with
          workers := notifyAll s.workers
          destructor := .joining }
      else
        none
  | .join => s.join

/-! ## What one step can do -/

inductive Effect (s : ThreadPool n Task) :
    PoolAction n Task → ThreadPool n Task → Prop
  | emplace (task : Task) (free : s.MutexFree) (live : s.stopped = false) :
      Effect s (.emplace task) { s with
        tasks := s.tasks ++ [task]
        adding := s.adding + 1
        added := s.added ++ [task] }
  | notifyOne (wake : Option (Fin n)) (workers : Fin n → Phase)
      (woken : notifyOne s.workers wake = some workers) :
      Effect s (.notifyOne wake) { s with
        workers := workers
        adding := s.adding - 1 }
  | sleep (w : Fin n) (free : s.MutexFree) (idle : s.jobs w = .idle)
      (empty : s.tasks = []) (live : s.stopped = false) :
      Effect s (.lock w) (s.setWorker w .blocking)
  | exit (w : Fin n) (free : s.MutexFree) (idle : s.jobs w = .idle)
      (empty : s.tasks = []) (stop : s.stopped = true) :
      Effect s (.lock w) (s.setWorker w .finished)
  | take (w : Fin n) (task : Task) (rest : List Task) (free : s.MutexFree)
      (idle : s.jobs w = .idle)
      (was : s.workers w = .running ∨ s.workers w = .notified)
      (head : s.tasks = task :: rest) :
      Effect s (.lock w) { (s.setWorker w .running).setJob w
          (.holding task s.taken.length) with
        tasks := rest
        taken := s.taken ++ [task] }
  | block (w : Fin n) (was : s.workers w = .blocking) :
      Effect s (.block w) (s.setWorker w .waiting)
  | spurious (w : Fin n) (was : s.workers w = .waiting) :
      Effect s (.spurious w) (s.setWorker w .notified)
  | invoke (w : Fin n) (task : Task) (ticket : Nat)
      (was : s.jobs w = .holding task ticket) :
      Effect s (.invoke w) { s.setJob w (.running task ticket) with
        invoked := s.invoked ++ [(task, ticket)] }
  | finish (w : Fin n) (task : Task) (ticket : Nat)
      (was : s.jobs w = .running task ticket) :
      Effect s (.finish w) (s.setJob w .idle)
  | storeStopped (was : s.destructor = .notCalled) :
      Effect s .storeStopped { s with
        stopped := true
        destructor := .stored }
  | notifyAll (was : s.destructor = .stored) :
      Effect s .notifyAll { s with
        workers := CondVar.notifyAll s.workers
        destructor := .joining }
  | join (next : s.joined < n) (was : s.destructor = .joining)
      (exited : s.workers ⟨s.joined, next⟩ = .finished) :
      Effect s .join { s with joined := s.joined + 1 }

private theorem effect_of_lock {s s' : ThreadPool n Task} {w : Fin n}
    (h : s.lock w = some s') : s.Effect (.lock w) s' := by
  simp only [lock, Option.ite_none_right_eq_some] at h
  obtain ⟨⟨hfree, hidle, hwas⟩, h⟩ := h
  cases htasks : s.tasks with
  | nil =>
      cases hstopped : s.stopped with
      | true =>
          simp only [waitPredicate, htasks, hstopped, Bool.true_or, if_true,
            Option.some.injEq] at h
          rw [← h]
          exact .exit w hfree hidle htasks hstopped
      | false =>
          simp only [waitPredicate, htasks, hstopped, List.isEmpty_nil,
            Bool.not_true, Bool.or_self, Bool.false_eq_true, if_false,
            Option.some.injEq] at h
          rw [← h]
          exact .sleep w hfree hidle htasks hstopped
  | cons task rest =>
      simp only [waitPredicate, htasks, List.isEmpty_cons, Bool.not_false,
        Bool.or_true, if_true, Option.some.injEq] at h
      rw [← h]
      exact .take w task rest hfree hidle hwas htasks

theorem effect_of_step {s s' : ThreadPool n Task} {a : PoolAction n Task}
    (h : s.step a = some s') : s.Effect a s' := by
  cases a with
  | lock w => exact effect_of_lock h
  | emplace task =>
      simp only [step, emplace, Option.ite_none_right_eq_some,
        Option.some.injEq] at h
      rw [← h.2]
      exact .emplace task h.1.1 h.1.2
  | notifyOne wake =>
      simp only [step, Option.ite_none_right_eq_some,
        Option.map_eq_some_iff] at h
      obtain ⟨-, workers, hwoken, rfl⟩ := h
      exact .notifyOne wake workers hwoken
  | block w =>
      simp only [step, Option.ite_none_right_eq_some, Option.some.injEq] at h
      rw [← h.2]
      exact .block w h.1
  | spurious w =>
      simp only [step, Option.ite_none_right_eq_some, Option.some.injEq] at h
      rw [← h.2]
      exact .spurious w h.1
  | invoke w =>
      rw [step] at h
      split at h
      · rename_i task ticket hjob
        cases h
        exact .invoke w task ticket hjob
      · contradiction
  | finish w =>
      rw [step] at h
      split at h
      · rename_i task ticket hjob
        cases h
        exact .finish w task ticket hjob
      · contradiction
  | storeStopped =>
      simp only [step, Option.ite_none_right_eq_some, Option.some.injEq] at h
      rw [← h.2]
      exact .storeStopped h.1
  | notifyAll =>
      simp only [step, Option.ite_none_right_eq_some, Option.some.injEq] at h
      rw [← h.2]
      exact .notifyAll h.1
  | join =>
      simp only [step, join] at h
      split at h
      · rename_i hnext
        simp only [Option.ite_none_right_eq_some, Option.some.injEq] at h
        rw [← h.2]
        exact .join hnext h.1.1 h.1.2
      · contradiction

end ThreadPool

def threadPool (n : Nat) (Task : Type) :
    System (ThreadPool n Task) (PoolAction n Task) where
  init := .initial n Task
  step := ThreadPool.step

namespace ThreadPool

variable {n : Nat} {Task : Type}

@[simp] theorem setWorker_workers (s : ThreadPool n Task) (w v : Fin n)
    (phase : Phase) : (s.setWorker w phase).workers v =
      if v = w then phase else s.workers v := by
  simp [setWorker, Function.update_apply]

@[simp] theorem setJob_jobs (s : ThreadPool n Task) (w v : Fin n)
    (job : Job Task) : (s.setJob w job).jobs v =
      if v = w then job else s.jobs v := by
  simp [setJob, Function.update_apply]

@[simp] theorem setWorker_jobs (s : ThreadPool n Task) (w : Fin n)
    (phase : Phase) : (s.setWorker w phase).jobs = s.jobs := rfl

@[simp] theorem setJob_workers (s : ThreadPool n Task) (w : Fin n)
    (job : Job Task) : (s.setJob w job).workers = s.workers := rfl

@[simp] theorem setWorker_tasks (s : ThreadPool n Task) (w : Fin n)
    (phase : Phase) : (s.setWorker w phase).tasks = s.tasks := rfl

@[simp] theorem setWorker_added (s : ThreadPool n Task) (w : Fin n)
    (phase : Phase) : (s.setWorker w phase).added = s.added := rfl

@[simp] theorem setJob_added (s : ThreadPool n Task) (w : Fin n)
    (job : Job Task) : (s.setJob w job).added = s.added := rfl

@[simp] theorem setJob_invoked (s : ThreadPool n Task) (w : Fin n)
    (job : Job Task) : (s.setJob w job).invoked = s.invoked := rfl

end ThreadPool

end Pview.Tasks
