import Pview.Queue.Wakeup
import Pview.Shutdown.Delivered
import Pview.Shutdown.Serving

/-!
# A run that is under way

What the main thread has done so far, from where it stands: how many tasks it
has added and whether it has stopped the queue.  With where the tasks stand and
what the queue keeps this is all that a run needs to go on.
-/

namespace Pview.Shutdown

open Pview.Foundation
open Pview.Foundation.CondVar
open Pview.Indexer
open Pview.Queue

variable {conf : Config} {connects : conf.Connects}

namespace State

variable {s s' : State conf}

theorem queue_of_step {a : Action conf}
    (hstep : s.step connects a = some s') :
    s'.queue = s.queue ∨ ∃ act, s.queue.step act = some s'.queue ∧
      NonemptyBatches s.queue act := by
  have hmove : ∀ {queue : IndexQueue conf.Parser conf.Storer}
      {act : Queue.Action conf.Parser conf.Storer},
      (∀ p input wake, act ≠ .addStmts p input wake) →
        s.queue.step act = some queue → queue = s.queue ∨
          ∃ act, s.queue.step act = some queue ∧ NonemptyBatches s.queue act :=
    fun hne hmoves => .inr ⟨_, hmoves, fun p input wake hact =>
      absurd hact (hne p input wake)⟩
  cases effect_of_step hstep with
  | main s' moves =>
      cases moves with
      | storeStop was queue moves => exact hmove (by simp) moves
      | notifyStop was queue moves => exact hmove (by simp) moves
      | _ => exact .inl rfl
  | addStmts p task after fuel wake stmts queue was batch moves =>
      refine .inr ⟨_, moves, ?_⟩
      rintro _ _ _ ⟨⟩
      exact ParseTask.stmts_ne_nil batch
  | waits c wake queue was moves same => exact hmove (by simp) moves
  | gets c wake queue res was moves result => exact hmove (by simp) moves
  | wait w queue moves =>
      exact hmove (by cases w <;> simp [Wait.action]) moves
  | _ => exact .inl rfl

/-! ## How far the main thread is -/

structure Underway (s : State conf) : Prop where
  storeTasks : s.main.rank ≤ 9 → conf.numStoreTasks ≤ s.storeTasks
  parseTasks : s.main.rank ≤ 8 → conf.numParseTasks ≤ s.parseTasks
  stopping : s.main = .notifyStop → 0 < s.queue.stopping
  stopped : s.main.rank ≤ 5 → s.queue.stopped = true

namespace Underway

theorem initial : (State.initial conf).Underway := by
  constructor <;> simp [State.initial, MainPhase.rank]

theorem task (h : s.Underway) (hmain : s'.main = s.main)
    (hstoreTasks : s'.storeTasks = s.storeTasks)
    (hparseTasks : s'.parseTasks = s.parseTasks)
    (hstopping : s'.queue.stopping = s.queue.stopping)
    (hstopped : s'.queue.stopped = s.queue.stopped) : s'.Underway := by
  refine ⟨?_, ?_, ?_, ?_⟩
  · rw [hmain, hstoreTasks]
    exact h.storeTasks
  · rw [hmain, hparseTasks]
    exact h.parseTasks
  · rw [hmain, hstopping]
    exact h.stopping
  · rw [hmain, hstopped]
    exact h.stopped

theorem main (h : s.Underway) (hstep : s.stepMain = some s') :
    s'.Underway := by
  obtain ⟨hstoreTasks, hparseTasks, hstopping, hstopped⟩ := h
  unfold stepMain at hstep
  split at hstep
  all_goals
    rename_i was
    simp only [was, MainPhase.rank] at hstoreTasks hparseTasks hstopping hstopped
  · obtain ⟨-, hstep⟩ := Option.ite_none_right_eq_some.mp hstep
    cases hstep
    constructor <;> simp [MainPhase.rank]
  · split_ifs at hstep with hmore <;> cases hstep
    · constructor <;> simp [MainPhase.rank, was]
    · constructor <;> simp [MainPhase.rank, Nat.not_lt.mp hmore]
  · split_ifs at hstep with hmore <;> cases hstep
    · constructor <;> simp [MainPhase.rank, was, hstoreTasks]
    · constructor <;>
        simp [MainPhase.rank, hstoreTasks, Nat.not_lt.mp hmore]
  · obtain ⟨-, hstep⟩ := Option.ite_none_right_eq_some.mp hstep
    cases hstep
    constructor <;> simp [MainPhase.rank, hstoreTasks, hparseTasks]
  · obtain ⟨queue, hmoves, rfl⟩ := Option.map_eq_some_iff.mp hstep
    cases hmoves
    constructor <;> simp [MainPhase.rank, hstoreTasks, hparseTasks]
  · obtain ⟨queue, hmoves, rfl⟩ := Option.map_eq_some_iff.mp hstep
    obtain ⟨-, hmoves⟩ := Option.ite_none_right_eq_some.mp hmoves
    cases hmoves
    constructor <;> simp [MainPhase.rank, hstoreTasks, hparseTasks]
  · split_ifs at hstep <;> cases hstep <;> constructor <;>
      simp [MainPhase.rank, hstoreTasks, hparseTasks, hstopped]
  · split_ifs at hstep <;> cases hstep <;> constructor <;>
      simp [MainPhase.rank, was, hstoreTasks, hparseTasks, hstopped]
  · split_ifs at hstep <;> cases hstep <;> constructor <;>
      simp [MainPhase.rank, was, hstoreTasks, hparseTasks, hstopped]
  · obtain ⟨-, hstep⟩ := Option.ite_none_right_eq_some.mp hstep
    cases hstep
    constructor <;> simp [MainPhase.rank, hstoreTasks, hparseTasks, hstopped]
  · obtain ⟨-, hstep⟩ := Option.ite_none_right_eq_some.mp hstep
    cases hstep
    constructor <;> simp [MainPhase.rank, hstoreTasks, hparseTasks, hstopped]
  · contradiction

theorem step {a : Action conf} (h : s.Underway)
    (hstep : s.step connects a = some s') : s'.Underway := by
  cases effect_of_step hstep with
  | main s' moves => exact h.main hstep
  | addStmts p task after fuel wake stmts queue was batch moves =>
      obtain ⟨-, consumers, phase, -, -, rfl⟩ := IndexQueue.of_addStmts moves
      exact h.task rfl rfl rfl rfl rfl
  | waits c wake queue was moves same =>
      cases (IndexQueue.of_getStmts moves).2 <;> exact h.task rfl rfl rfl rfl rfl
  | gets c wake queue res was moves result =>
      cases (IndexQueue.of_getStmts moves).2 <;> exact h.task rfl rfl rfl rfl rfl
  | wait w queue moves =>
      cases Wait.effect_of_step moves <;> exact h.task rfl rfl rfl rfl rfl
  | _ => exact h.task rfl rfl rfl rfl rfl

end Underway

/-! ## Runs -/

structure Going (connects : conf.Connects) (s : State conf) : Prop where
  placed : s.Placed connects
  served : s.Served
  joined : s.Joined
  underway : s.Underway
  filled : (queueSystem conf.Parser conf.Storer).ReachWhere NonemptyBatches
    s.queue
  stopped : (queueSystem conf.Parser conf.Storer).ReachWhere
    NothingAddedAfterStop s.queue

namespace Going

theorem wake [Nonempty conf.Storer] (h : s.Going connects) :
    s.queue.WakeInv :=
  .of_reachWhere h.filled

theorem step [Nonempty conf.Storer] {a : Action conf} (h : s.Going connects)
    (hstep : s.step connects a = some s') : s'.Going connects where
  placed := h.placed.step hstep
  served := h.served.step h.placed h.wake.consumers.blocking hstep
  joined := h.joined.step hstep
  underway := h.underway.step hstep
  filled := by
    rcases queue_of_step hstep with hsame | ⟨act, hmoves, hnonempty⟩
    · rw [hsame]
      exact h.filled
    · exact .step h.filled hnonempty hmoves
  stopped := queue_step h.joined h.stopped hstep

theorem of_reachable [Nonempty conf.Storer]
    (h : (doIndexing conf connects).Reachable s) : s.Going connects := by
  apply System.ReachWhere.invariant (I := State.Going connects) _ _ h
  · refine ⟨.initial, ?_, .initial, .initial, .init, .init⟩
    exact fun hne => absurd rfl hne
  · exact fun hs _ hstep => hs.step hstep

end Going

end State

end Pview.Shutdown
