import Mathlib.Algebra.Order.Ring.Nat
import Mathlib.Data.Fintype.Card
import Pview.Tasks.Drain

/-!
# The degree of parallelism

`do_main` splits the degree of parallelism into parse and store tasks, all of
which run on the global thread pool.  A store task occupies its worker until
the parse tasks have finished, so there have to be workers left for them.
-/

namespace Pview.Tasks

open Pview.Foundation

/-- The workers of the global pool; the product is an `unsigned int`. -/
def globalPoolSize (hardwareConcurrency : UInt32) : Nat :=
  hardwareConcurrency.toNat * 3 % 2 ^ 32

def sizeSub (a b : Nat) : Nat := (a + 2 ^ 64 - b) % 2 ^ 64

structure Dop where
  maxDop : Nat
  numParseTasks : Nat
  numStoreTasks : Nat
  deriving DecidableEq, Repr

/-- The part of `do_main` that determines the actual dop.  A count of 32 bits
times 0.8, rounded to a `double` and truncated, is four fifths of it. -/
def determineDop (hardwareConcurrency : UInt32) (flagsMaxDop : UInt64) : Dop :=
  let cpus := hardwareConcurrency.toNat
  let defaultDop := max 1 (cpus * 4 / 5)
  let maxDop := if flagsMaxDop = 0 then defaultDop else flagsMaxDop.toNat
  let cpusUpperbound := min (cpus * 3) (globalPoolSize hardwareConcurrency)
  let maxDop := max 3 (min maxDop cpusUpperbound)
  let numStoreTasks := max 2 (maxDop / 8)
  { maxDop := maxDop
    numParseTasks := sizeSub maxDop numStoreTasks
    numStoreTasks := numStoreTasks }

inductive IndexTask where
  | doStore (i : Nat)
  | doParse (i : Nat)
  deriving DecidableEq, Repr

/-- What `do_indexing` adds to the pool before it waits for the parse tasks. -/
def indexTasks (numStoreTasks numParseTasks : Nat) : List IndexTask :=
  (List.range numStoreTasks).map .doStore ++
    (List.range numParseTasks).map .doParse

/-! ## Store tasks on the pool -/

variable {n : Nat} {Task : Type}

def Job.task : Job Task → Option (Task × Nat)
  | .idle => none
  | .holding task ticket | .running task ticket => some (task, ticket)

/-- The steps before the parse tasks have finished: tasks are added in their
order, and no store task returns. -/
def BeforeParsed (tasks : List IndexTask) (s : ThreadPool n IndexTask) :
    PoolAction n IndexTask → Prop
  | .emplace task => s.added ++ [task] <+: tasks
  | .finish w => ∀ i ticket, s.jobs w ≠ .running (.doStore i) ticket
  | _ => True

def HasStoreTask (s : ThreadPool n IndexTask) (w : Fin n) : Prop :=
  ∃ i ticket, (s.jobs w).task = some (.doStore i, ticket)

def NeverStarved (n : Nat) (tasks : List IndexTask) : Prop :=
  ∀ s, (threadPool n IndexTask).ReachWhere (BeforeParsed tasks) s →
    ∃ w, ¬HasStoreTask s w

namespace ThreadPool

structure HandsInv (s : ThreadPool n Task) : Prop where
  taken : ∀ w task ticket, (s.jobs w).task = some (task, ticket) →
    s.taken[ticket]? = some task
  apart : ∀ v w task task' ticket, (s.jobs v).task = some (task, ticket) →
    (s.jobs w).task = some (task', ticket) → v = w

variable {s s' : ThreadPool n Task}

theorem HandsInv.initial : (ThreadPool.initial n Task).HandsInv where
  taken := nofun
  apart := nofun

theorem HandsInv.keep (hs : s.HandsInv) (htaken : s'.taken = s.taken)
    (hjobs : ∀ w, (s'.jobs w).task = none ∨
      (s'.jobs w).task = (s.jobs w).task) : s'.HandsInv := by
  have hsame : ∀ {w call}, (s'.jobs w).task = some call →
      (s.jobs w).task = some call := by
    intro w call hw
    rcases hjobs w with hnone | heq
    · simp [hnone] at hw
    · rwa [← heq]
  constructor
  · intro w task ticket hw
    rw [htaken]
    exact hs.taken w task ticket (hsame hw)
  · intro v w task task' ticket hv hw
    exact hs.apart v w task task' ticket (hsame hv) (hsame hw)

theorem HandsInv.update (hs : s.HandsInv) (htaken : s'.taken = s.taken)
    {w : Fin n} {job : Job Task} (hjobs : s'.jobs = (s.setJob w job).jobs)
    (hjob : job.task = none ∨ job.task = (s.jobs w).task) : s'.HandsInv := by
  apply hs.keep htaken
  intro v
  rw [hjobs, setJob_jobs]
  split
  · rename_i hv
    rwa [hv]
  · exact .inr rfl

theorem HandsInv.take (hs : s.HandsInv) {w : Fin n} {task : Task}
    (htaken : s'.taken = s.taken ++ [task])
    (hjobs : s'.jobs = (s.setJob w (.holding task s.taken.length)).jobs) :
    s'.HandsInv := by
  have hticket : ∀ v task' ticket, (s.jobs v).task = some (task', ticket) →
      ticket < s.taken.length := by
    intro v task' ticket hv
    exact (List.getElem?_eq_some_iff.mp (hs.taken v task' ticket hv)).1
  constructor
  · intro v task' ticket hv
    rw [hjobs, setJob_jobs] at hv
    split at hv
    · cases hv
      simp [htaken]
    · rw [htaken, List.getElem?_append_left (hticket v task' ticket hv)]
      exact hs.taken v task' ticket hv
  · intro u v task' task'' ticket hu hv
    rw [hjobs, setJob_jobs] at hu hv
    split at hu <;> split at hv
    · simp_all
    · cases hu
      exact absurd (hticket v task'' _ hv) (by omega)
    · cases hv
      exact absurd (hticket u task' _ hu) (by omega)
    · exact hs.apart u v task' task'' ticket hu hv

theorem HandsInv.step {a : PoolAction n Task} (hs : s.HandsInv)
    (h : (threadPool n Task).step s a = some s') : s'.HandsInv := by
  cases effect_of_step h with
  | emplace task free live => exact hs.keep rfl fun _ => .inr rfl
  | notifyOne wake workers woken => exact hs.keep rfl fun _ => .inr rfl
  | sleep w free idle empty live => exact hs.keep rfl fun _ => .inr rfl
  | exit w free idle empty stop => exact hs.keep rfl fun _ => .inr rfl
  | block w was => exact hs.keep rfl fun _ => .inr rfl
  | spurious w was => exact hs.keep rfl fun _ => .inr rfl
  | storeStopped was => exact hs.keep rfl fun _ => .inr rfl
  | notifyAll was => exact hs.keep rfl fun _ => .inr rfl
  | join next was exited => exact hs.keep rfl fun _ => .inr rfl
  | take w task rest free idle was head => exact hs.take rfl rfl
  | invoke w task ticket was =>
      exact hs.update (w := w) rfl rfl (.inr (by rw [was]; rfl))
  | finish w task ticket was => exact hs.update (w := w) rfl rfl (.inl rfl)

theorem HandsInv.of_reachable (h : (threadPool n Task).Reachable s) :
    s.HandsInv :=
  System.ReachWhere.invariant (I := HandsInv) .initial
    (fun hs _ => hs.step) h

theorem added_of_job (h : (threadPool n Task).Reachable s) {w : Fin n}
    {task : Task} {ticket : Nat}
    (hjob : (s.jobs w).task = some (task, ticket)) :
    s.added[ticket]? = some task := by
  have htaken := (HandsInv.of_reachable h).taken w task ticket hjob
  rw [← (DrainInv.of_reachable h).order, List.getElem?_append_left
    (List.getElem?_eq_some_iff.mp htaken).1, htaken]

/-- Workers with tasks have different tickets. -/
theorem HandsInv.le_of_tickets_lt (hs : s.HandsInv) {task : Fin n → Task}
    {ticket : Fin n → Nat}
    (hjobs : ∀ w, (s.jobs w).task = some (task w, ticket w)) {m : Nat}
    (hlt : ∀ w, ticket w < m) : n ≤ m := by
  have hinjective : Function.Injective fun w =>
      (⟨ticket w, hlt w⟩ : Fin m) := by
    intro v w hvw
    have hsame : ticket v = ticket w := congrArg Fin.val hvw
    exact hs.apart v w _ _ _ (hjobs v) (hsame ▸ hjobs w)
  simpa using Fintype.card_le_of_injective _ hinjective

end ThreadPool

theorem added_isPrefix {tasks : List IndexTask} {s : ThreadPool n IndexTask}
    (h : (threadPool n IndexTask).ReachWhere (BeforeParsed tasks) s) :
    s.added <+: tasks := by
  refine h.invariant (I := fun s => s.added <+: tasks) List.nil_prefix ?_
  intro s s' a hs hallowed hstep
  cases ThreadPool.effect_of_step hstep with
  | emplace task free live => exact hallowed
  | notifyOne | sleep | exit | take | block | spurious | invoke | finish
  | storeStopped | notifyAll | join => exact hs

theorem ticket_lt_of_doStore {numStoreTasks numParseTasks i ticket : Nat}
    (h : (indexTasks numStoreTasks numParseTasks)[ticket]? =
      some (.doStore i)) : ticket < numStoreTasks := by
  by_contra hge
  rw [indexTasks, List.getElem?_append_right (by simpa using hge),
    List.getElem?_map] at h
  obtain ⟨j, -, hj⟩ := Option.map_eq_some_iff.mp h
  contradiction

theorem neverStarved_of_lt {numStoreTasks numParseTasks : Nat}
    (h : numStoreTasks < n) :
    NeverStarved n (indexTasks numStoreTasks numParseTasks) := by
  intro s hs
  by_contra hall
  simp only [not_exists, not_not] at hall
  choose i ticket htask using hall
  have hlt : ∀ w, ticket w < numStoreTasks := by
    intro w
    have hadded := ThreadPool.added_of_job hs.reachable (htask w)
    obtain ⟨rest, hrest⟩ := added_isPrefix hs
    have hstore : (indexTasks numStoreTasks numParseTasks)[ticket w]? =
        some (.doStore (i w)) := by
      rw [← hrest, List.getElem?_append_left
        (List.getElem?_eq_some_iff.mp hadded).1, hadded]
    exact ticket_lt_of_doStore hstore
  have hle :=
    (ThreadPool.HandsInv.of_reachable hs.reachable).le_of_tickets_lt htask hlt
  omega

/-! ## The split -/

/-- What the comment in `do_main` and the pipeline rely on. -/
structure Dop.Suits (dop : Dop) (poolSize : Nat) : Prop where
  parse : 1 ≤ dop.numParseTasks
  store : 2 ≤ dop.numStoreTasks
  noUnderflow : dop.numStoreTasks ≤ dop.maxDop
  fits : dop.numParseTasks + dop.numStoreTasks ≤ poolSize
  notStarved : ∀ numCmds, NeverStarved poolSize
    (indexTasks dop.numStoreTasks (min dop.numParseTasks numCmds))

theorem sizeSub_of_le {a b : Nat} (ha : a < 2 ^ 64) (hle : b ≤ a) :
    sizeSub a b = a - b := by
  rw [sizeSub]
  omega

/-- The pool is too small for want of a core count, or because three times the
count is only just above a multiple of 2 ^ 32. -/
theorem three_le_globalPoolSize_iff (hardwareConcurrency : UInt32) :
    3 ≤ globalPoolSize hardwareConcurrency ↔
      hardwareConcurrency.toNat ≠ 0 ∧
        hardwareConcurrency.toNat ≠ 1431655766 ∧
        hardwareConcurrency.toNat ≠ 2863311531 := by
  have hlt := hardwareConcurrency.toNat_lt
  have hwraps : hardwareConcurrency.toNat * 3 / 2 ^ 32 = 0 ∨
      hardwareConcurrency.toNat * 3 / 2 ^ 32 = 1 ∨
      hardwareConcurrency.toNat * 3 / 2 ^ 32 = 2 := by omega
  rw [globalPoolSize]
  rcases hwraps with hnone | hone | htwo
  · omega
  · omega
  · omega

theorem determineDop_bounds (hardwareConcurrency : UInt32)
    (flagsMaxDop : UInt64) :
    let dop := determineDop hardwareConcurrency flagsMaxDop
    3 ≤ dop.maxDop ∧
      dop.maxDop ≤ max 3 (globalPoolSize hardwareConcurrency) ∧
      dop.numStoreTasks = max 2 (dop.maxDop / 8) ∧
      dop.numParseTasks + dop.numStoreTasks = dop.maxDop := by
  intro dop
  have hpool : globalPoolSize hardwareConcurrency < 2 ^ 32 :=
    Nat.mod_lt _ (by decide)
  have hmin : 3 ≤ dop.maxDop := le_max_left _ _
  have hmax : dop.maxDop ≤ max 3 (globalPoolSize hardwareConcurrency) :=
    max_le_max le_rfl ((min_le_right _ _).trans (min_le_right _ _))
  have hstore : dop.numStoreTasks = max 2 (dop.maxDop / 8) := rfl
  have hparse : dop.numParseTasks = sizeSub dop.maxDop dop.numStoreTasks := rfl
  refine ⟨hmin, hmax, hstore, ?_⟩
  rw [hparse, sizeSub_of_le (by omega) (by omega)]
  omega

theorem determineDop_suits_iff (hardwareConcurrency : UInt32)
    (flagsMaxDop : UInt64) :
    (determineDop hardwareConcurrency flagsMaxDop).Suits
        (globalPoolSize hardwareConcurrency) ↔
      3 ≤ globalPoolSize hardwareConcurrency := by
  obtain ⟨hmin, hmax, hstore, hsum⟩ :=
    determineDop_bounds hardwareConcurrency flagsMaxDop
  constructor
  · intro h
    have hparse := h.parse
    have hstore := h.store
    have hfits := h.fits
    omega
  · intro hpool
    rw [Nat.max_eq_right hpool] at hmax
    exact
      { parse := by omega
        store := by omega
        noUnderflow := by omega
        fits := by omega
        notStarved := fun numCmds => neverStarved_of_lt (by omega) }

/-- A core count that is not computable is given as zero. -/
theorem determineDop_without_cores :
    ¬∀ (hardwareConcurrency : UInt32) (flagsMaxDop : UInt64),
      (determineDop hardwareConcurrency flagsMaxDop).Suits
        (globalPoolSize hardwareConcurrency) := by
  intro h
  exact absurd (h 0 0).fits (by decide)

end Pview.Tasks
