import Pview.Foundation.Transaction
import Pview.MySQL.Connection

/-!
# Several statements in one transaction

`MYSQLConn::multi_dml` sends "start transaction", the statements, and then
"COMMIT" or "ROLLBACK", each through `execute_dml_impl`.  The outcomes of all
attempts are in a `MultiReply`; outcomes of calls that are never made are not
looked at.
-/

namespace Pview.MySQL

open Pview.Foundation
open Pview.Foundation.Transaction

structure MultiReply where
  created : Bool
  start : Nat → Attempt
  /-- By the statement's position in the list and the counter. -/
  stmt : Nat → Nat → Attempt
  /-- The final "ROLLBACK" or "COMMIT". -/
  finish : Nat → Attempt

structure MultiRun where
  ret : Int
  sent : List (Command String × Attempt)
  deriving DecidableEq, Repr

def sentAs (flag : Int) (command : Command String) (attempt : Nat → Attempt) :
    List (Command String × Attempt) :=
  (executeDmlImpl flag attempt).tried.map fun outcome => (command, outcome)

/-- The `for` loop over the statements: `should_rollback`, and what was sent. -/
def multiDmlLoop (flag : Int) :
    (Nat → Nat → Attempt) → List String →
      Bool × List (Command String × Attempt)
  | _, [] => (false, [])
  | attempt, sql :: stmts =>
      let sent := sentAs flag (.dml sql) (attempt 0)
      if (executeDmlImpl flag (attempt 0)).ret ≠ 0 then
        (true, sent)
      else
        let rest := multiDmlLoop flag (fun k => attempt (k + 1)) stmts
        (rest.1, sent ++ rest.2)

def multiDml (flag : Int) (reply : MultiReply) (stmts : List String) :
    MultiRun :=
  if reply.created then
    let started := sentAs flag .startTransaction reply.start
    if (executeDmlImpl flag reply.start).ret ≠ 0 then
      ⟨1, started⟩
    else
      let loop := multiDmlLoop flag reply.stmt stmts
      let shouldRollback := loop.1
      let command := if shouldRollback then .rollback else .commit
      let err := (executeDmlImpl flag reply.finish).ret
      ⟨if !shouldRollback && err == 0 then 1 else 0,
        started ++ loop.2 ++ sentAs flag command reply.finish⟩
  else
    ⟨1, []⟩

/-! ## One call -/

abbrev CallExecutes (flag : Int) (attempt : Nat → Attempt) : Prop :=
  Executes flag ⟨true, attempt⟩

abbrev CallFails (flag : Int) (attempt : Nat → Attempt) : Prop :=
  FailsForGood flag ⟨true, attempt⟩

theorem call_ret_ne_zero_iff (flag : Int) (attempt : Nat → Attempt) :
    (executeDmlImpl flag attempt).ret ≠ 0 ↔ CallFails flag attempt :=
  dml_ret_ne_zero_iff flag ⟨true, attempt⟩

theorem not_callFails_of_executes {flag : Int} {attempt : Nat → Attempt}
    (h : CallExecutes flag attempt) : ¬CallFails flag attempt :=
  not_failsForGood_of_executes h

def executedCommands (sent : List (Command String × Attempt)) :
    List (Command String) :=
  (sent.filter fun entry => entry.2 == .success).map Prod.fst

theorem executedCommands_append (sent after : List (Command String × Attempt)) :
    executedCommands (sent ++ after) =
      executedCommands sent ++ executedCommands after := by
  simp [executedCommands]

theorem executedCommands_sentAs (flag : Int) (command : Command String)
    (attempt : Nat → Attempt) :
    executedCommands (sentAs flag command attempt) =
      if CallExecutes flag attempt then [command] else [] := by
  have hexecuted : executedCommands (sentAs flag command attempt) =
      executed flag ⟨true, attempt⟩ command := by
    simp [executedCommands, sentAs, executed, dml, executeDml,
      List.filter_map, List.map_const', Function.comp_def,
      List.count_eq_length_filter]
  rw [hexecuted]
  split
  · rename_i h
    exact executed_of_executes h command
  · rename_i h
    exact executed_of_not_executes h command

/-! ## The loop over the statements -/

/-- No statement before number `k` fails for good, so number `k` is sent. -/
def Reached (flag : Int) (attempt : Nat → Nat → Attempt) (k : Nat) : Prop :=
  ∀ j < k, ¬CallFails flag (attempt j)

instance (flag : Int) (attempt : Nat → Nat → Attempt) (k : Nat) :
    Decidable (Reached flag attempt k) :=
  inferInstanceAs (Decidable (∀ j < k, ¬CallFails flag (attempt j)))

theorem reached_zero (flag : Int) (attempt : Nat → Nat → Attempt) :
    Reached flag attempt 0 := by
  simp [Reached]

theorem reached_succ (flag : Int) (attempt : Nat → Nat → Attempt) (k : Nat) :
    Reached flag attempt (k + 1) ↔ ¬CallFails flag (attempt 0) ∧
      Reached flag (fun k => attempt (k + 1)) k :=
  Nat.forall_lt_succ_left

def executesAt (flag : Int) (attempt : Nat → Nat → Attempt) (k : Nat) : Bool :=
  decide (Reached flag attempt k ∧ CallExecutes flag (attempt k))

theorem executesAt_zero (flag : Int) (attempt : Nat → Nat → Attempt) :
    executesAt flag attempt 0 = decide (CallExecutes flag (attempt 0)) := by
  simp [executesAt, reached_zero]

theorem executesAt_succ (flag : Int) (attempt : Nat → Nat → Attempt) (k : Nat) :
    executesAt flag attempt (k + 1) = (!decide (CallFails flag (attempt 0)) &&
      executesAt flag (fun k => attempt (k + 1)) k) := by
  simp [executesAt, reached_succ, Bool.and_assoc]

theorem multiDmlLoop_rollback (flag : Int) (attempt : Nat → Nat → Attempt)
    (stmts : List String) :
    (multiDmlLoop flag attempt stmts).1 = true ↔
      ∃ k < stmts.length, CallFails flag (attempt k) := by
  induction stmts generalizing attempt with
  | nil => simp [multiDmlLoop]
  | cons sql stmts ih =>
      rw [multiDmlLoop, List.length_cons, Nat.exists_lt_succ_left]
      by_cases hfails : CallFails flag (attempt 0)
      · rw [if_pos ((call_ret_ne_zero_iff flag _).mpr hfails)]
        simp [hfails]
      · rw [if_neg (mt (call_ret_ne_zero_iff flag _).mp hfails)]
        simp [hfails, ih]

theorem multiDmlLoop_executed (flag : Int) (attempt : Nat → Nat → Attempt)
    (stmts : List String) :
    executedCommands (multiDmlLoop flag attempt stmts).2 =
      (pick (executesAt flag attempt) stmts).map .dml := by
  induction stmts generalizing attempt with
  | nil => simp [multiDmlLoop, pick, executedCommands]
  | cons sql stmts ih =>
      rw [multiDmlLoop, pick, executesAt_zero]
      simp only [executesAt_succ]
      by_cases hfails : CallFails flag (attempt 0)
      · rw [if_pos ((call_ret_ne_zero_iff flag _).mpr hfails)]
        have hexecutes : ¬CallExecutes flag (attempt 0) :=
          fun h => not_callFails_of_executes h hfails
        simp [executedCommands_sentAs, hfails, hexecutes]
      · rw [if_neg (mt (call_ret_ne_zero_iff flag _).mp hfails)]
        simp only [executedCommands_append, executedCommands_sentAs, ih,
          hfails, decide_false, Bool.not_false, Bool.true_and]
        by_cases hexecutes : CallExecutes flag (attempt 0)
        · simp [hexecutes]
        · simp [hexecutes]

/-! ## What `multi_dml` returns -/

/-- Every statement of the list and the final "COMMIT" have been executed. -/
def MultiRun.Complete (run : MultiRun) (stmts : List String) : Prop :=
  (executedCommands run.sent).filter (· ≠ .startTransaction) =
    stmts.map .dml ++ [.commit]

def AllExecute (flag : Int) (reply : MultiReply) (stmts : List String) : Prop :=
  (∀ k < stmts.length, CallExecutes flag (reply.stmt k)) ∧
    CallExecutes flag reply.finish

theorem pick_executesAt_eq_self_iff (flag : Int)
    (attempt : Nat → Nat → Attempt) (stmts : List String) :
    pick (executesAt flag attempt) stmts = stmts ↔
      ∀ k < stmts.length, CallExecutes flag (attempt k) := by
  simp only [pick_eq_self_iff, executesAt, decide_eq_true_eq]
  constructor
  · exact fun h k hk => (h k hk).2
  · intro h k hk
    refine ⟨fun j hj => ?_, h k hk⟩
    exact not_callFails_of_executes (h j (by omega))

theorem multiDml_started {flag : Int} {reply : MultiReply}
    (hcreated : reply.created = true) (hstart : ¬CallFails flag reply.start)
    (stmts : List String) :
    let loop := multiDmlLoop flag reply.stmt stmts
    multiDml flag reply stmts =
      ⟨if !loop.1 && (executeDmlImpl flag reply.finish).ret == 0 then 1 else 0,
        sentAs flag .startTransaction reply.start ++ loop.2 ++
          sentAs flag (if loop.1 then .rollback else .commit) reply.finish⟩ := by
  have hret := mt (call_ret_ne_zero_iff flag _).mp hstart
  simp [multiDml, hcreated, if_neg hret]

theorem multiDml_complete_iff {flag : Int} {reply : MultiReply}
    (hcreated : reply.created = true) (hstart : ¬CallFails flag reply.start)
    (stmts : List String) :
    (multiDml flag reply stmts).Complete stmts ↔
      AllExecute flag reply stmts := by
  have hmap : Function.Injective (List.map (Command.dml (α := String))) :=
    List.map_injective_iff.mpr fun _ _ h => Command.dml.inj h
  have hdml : ∀ sqls : List String,
      (sqls.map Command.dml).filter (· ≠ .startTransaction) =
        sqls.map Command.dml := by
    intro sqls
    simp [List.filter_eq_self]
  have hstarted : (if CallExecutes flag reply.start then
      [Command.startTransaction (α := String)] else []).filter
        (· ≠ .startTransaction) = [] := by
    split <;> simp
  unfold MultiRun.Complete AllExecute
  rw [multiDml_started hcreated hstart, ← pick_executesAt_eq_self_iff]
  simp only [executedCommands_append, executedCommands_sentAs,
    multiDmlLoop_executed, List.filter_append, hdml, hstarted, List.nil_append]
  by_cases hfinish : CallExecutes flag reply.finish
  · simp only [hfinish, and_true]
    cases hrollback : (multiDmlLoop flag reply.stmt stmts).1 with
    | false => simp [hmap.eq_iff]
    | true =>
        obtain ⟨k, hk, hfails⟩ := (multiDmlLoop_rollback flag _ _).mp hrollback
        have hsome : pick (executesAt flag reply.stmt) stmts ≠ stmts := by
          rw [Ne, pick_executesAt_eq_self_iff]
          exact fun hall => not_callFails_of_executes (hall k hk) hfails
        simp only [hsome, iff_false]
        intro heq
        have hlast := (List.append_inj' heq (by simp)).2
        simp at hlast
  · simp only [hfinish, and_false, iff_false]
    intro heq
    have hmem : Command.commit ∈
        (pick (executesAt flag reply.stmt) stmts).map Command.dml := by
      simpa using congrArg (Command.commit ∈ ·) heq
    simp at hmem

theorem multiDml_ret_eq_zero_iff {flag : Int} {reply : MultiReply}
    (hcreated : reply.created = true) (hstart : ¬CallFails flag reply.start)
    (stmts : List String) :
    (multiDml flag reply stmts).ret = 0 ↔
      (∃ k < stmts.length, CallFails flag (reply.stmt k)) ∨
        CallFails flag reply.finish := by
  rw [multiDml_started hcreated hstart, ← multiDmlLoop_rollback,
    ← call_ret_ne_zero_iff]
  cases (multiDmlLoop flag reply.stmt stmts).1 with
  | true => simp
  | false => simp

/-- `multi_dml` returns zero exactly when the list was executed and committed:
what the header promises. -/
def ReturnsZeroIffComplete (flag : Int) (reply : MultiReply)
    (stmts : List String) : Prop :=
  (multiDml flag reply stmts).ret = 0 ↔
    (multiDml flag reply stmts).Complete stmts

/--
The value is right when the call ends before the first statement.  From then on
it is inverted, and right only when no call fails for good and yet some
statement or the "COMMIT" is never executed.
-/
theorem multiDml_returnsZero_iff (flag : Int) (reply : MultiReply)
    (stmts : List String) :
    ReturnsZeroIffComplete flag reply stmts ↔
      reply.created = false ∨ CallFails flag reply.start ∨
      (∀ k < stmts.length, ¬CallFails flag (reply.stmt k)) ∧
        ¬CallFails flag reply.finish ∧
        ((∃ k < stmts.length, ¬CallExecutes flag (reply.stmt k)) ∨
          ¬CallExecutes flag reply.finish) := by
  unfold ReturnsZeroIffComplete
  cases hcreated : reply.created with
  | false => simp [multiDml, hcreated, MultiRun.Complete, executedCommands]
  | true =>
      by_cases hstart : CallFails flag reply.start
      · have hret := (call_ret_ne_zero_iff flag _).mpr hstart
        have hexecutes : ¬CallExecutes flag reply.start :=
          fun h => not_callFails_of_executes h hstart
        simp [multiDml, hcreated, hret, MultiRun.Complete,
          executedCommands_sentAs, hexecutes, hstart]
      · rw [multiDml_ret_eq_zero_iff hcreated hstart,
          multiDml_complete_iff hcreated hstart]
        have hstmts : (∀ k < stmts.length, CallExecutes flag (reply.stmt k)) →
            ∀ k < stmts.length, ¬CallFails flag (reply.stmt k) :=
          fun h k hk => not_callFails_of_executes (h k hk)
        have hfinish : CallExecutes flag reply.finish →
            ¬CallFails flag reply.finish := not_callFails_of_executes
        simp only [Bool.true_eq_false, hstart, false_or, AllExecute]
        grind

/-- A list that is executed and committed, and the value 1. -/
theorem multiDml_reports_success_as_failure :
    ¬∀ (flag : Int) (reply : MultiReply) (stmts : List String),
      ReturnsZeroIffComplete flag reply stmts := by
  intro h
  have hiff := h 10 ⟨true, fun _ => .success, fun _ _ => .success,
    fun _ => .success⟩ ["insert"]
  have hcomplete : (multiDml 10 ⟨true, fun _ => .success, fun _ _ => .success,
      fun _ => .success⟩ ["insert"]).Complete ["insert"] := by
    unfold MultiRun.Complete
    decide
  exact absurd (hiff.mpr hcomplete) (by decide)

end Pview.MySQL
