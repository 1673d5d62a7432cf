import Mathlib.Algebra.Order.Ring.Int
import Pview.Foundation.Retry

/-!
# Statement execution

`MYSQLConn::execute_dml_impl` and `MYSQLPS::execute` send one statement and
retry it on recoverable errors.  The server's side of one call is a
`Reply`: whether a statement object could be created, and the outcome of every
attempt by its counter, so that all sequences of outcomes are covered.

An exception that is not an `sql::SQLException` aborts the process through
`ASSERT`, and is not an outcome here.
-/

namespace Pview.MySQL

open Pview.Foundation

inductive Attempt where
  | success
  | sqlException (errorCode : Int)
  deriving DecidableEq, Repr

structure Reply where
  created : Bool
  attempt : Nat → Attempt

def isRecoverable (errorCode : Int) : Bool :=
  let isDeadlock := errorCode == 1213
  let isLockWaitTimeout := errorCode == 1205
  let isMysqlGoneAway := errorCode == 2006
  isDeadlock || isLockWaitTimeout || isMysqlGoneAway

/-- `FLAGS_mysql_insert_dead_lock_retry_count` as the comparison with the
`size_t` counter reads it. -/
def retryBound (flag : Int) : Nat :=
  (flag % 2 ^ 64).toNat

structure DmlRun where
  ret : Int
  tried : List Attempt
  deriving DecidableEq, Repr

/-- The `for` loop from counter value `cnt` on; `left` is
`retryBound flag - cnt`, the iterations before the loop condition fails. -/
def retryLoop (flag : Int) (attempt : Nat → Attempt) : Nat → Nat → DmlRun
  | 0, _ => ⟨0, []⟩
  | left + 1, cnt =>
      match attempt cnt with
      | .success => ⟨0, [.success]⟩
      | .sqlException errorCode =>
          if isRecoverable errorCode && decide (cnt < retryBound flag) then
            let rest := retryLoop flag attempt left (cnt + 1)
            ⟨rest.ret, .sqlException errorCode :: rest.tried⟩
          else
            ⟨1, [.sqlException errorCode]⟩

def executeDmlImpl (flag : Int) (attempt : Nat → Attempt) : DmlRun :=
  retryLoop flag attempt (retryBound flag - 1) 1

def MYSQLPS.execute (flag : Int) (attempt : Nat → Attempt) : DmlRun :=
  retryLoop flag attempt (retryBound flag - 1) 1

def executeDml (flag : Int) (reply : Reply) : DmlRun :=
  if reply.created then executeDmlImpl flag reply.attempt else ⟨1, []⟩

def ddl (flag : Int) (reply : Reply) : DmlRun := executeDml flag reply

def dml (flag : Int) (reply : Reply) : DmlRun := executeDml flag reply

/-! ## The loop as a bounded retry -/

def Attempt.retried : Attempt → Bool
  | .success => false
  | .sqlException errorCode => isRecoverable errorCode

/-- The outcome that ends the loop, if one does before the counter runs out. -/
def settledAttempt (flag : Int) (attempt : Nat → Attempt) : Option Attempt :=
  Retry.settled Attempt.retried attempt (retryBound flag - 1) 1

/-- The code for the outcome that ended the loop.  A loop that ran out returns
the same code as a success. -/
def retOf : Option Attempt → Int
  | some (.sqlException _) => 1
  | some .success | none => 0

private theorem retryLoop_eq (flag : Int) (attempt : Nat → Attempt)
    (left cnt : Nat) (hleft : left + cnt ≤ retryBound flag) :
    retryLoop flag attempt left cnt =
      ⟨retOf (Retry.settled Attempt.retried attempt left cnt),
        Retry.attempts Attempt.retried attempt left cnt⟩ := by
  induction left generalizing cnt with
  | zero => rfl
  | succ left ih =>
      have hlt : cnt < retryBound flag := by omega
      cases hattempt : attempt cnt with
      | success =>
          simp [retryLoop, Retry.settled, Retry.attempts, hattempt,
            Attempt.retried, retOf]
      | sqlException errorCode =>
          by_cases hrec : isRecoverable errorCode = true
          · have hrest := ih (cnt + 1) (by omega)
            simp [retryLoop, Retry.settled, Retry.attempts, hattempt,
              Attempt.retried, hrec, hlt, hrest]
          · simp [retryLoop, Retry.settled, Retry.attempts, hattempt,
              Attempt.retried, hrec, retOf]

theorem executeDmlImpl_eq (flag : Int) (attempt : Nat → Attempt) :
    executeDmlImpl flag attempt =
      ⟨retOf (settledAttempt flag attempt),
        Retry.attempts Attempt.retried attempt (retryBound flag - 1) 1⟩ := by
  unfold executeDmlImpl settledAttempt
  by_cases hbound : 1 ≤ retryBound flag
  · exact retryLoop_eq flag attempt _ 1 (by omega)
  · have hzero : retryBound flag - 1 = 0 := by omega
    rw [hzero]
    rfl

/-! ## What a call reports -/

/-- Zero is returned exactly for one successful attempt, and nothing is sent
after a success. -/
structure DmlRun.Truthful (run : DmlRun) : Prop where
  zero_iff : run.ret = 0 ↔ run.tried.count .success = 1
  nonzero : Attempt.success ∉ run.tried → run.ret ≠ 0
  last : ∀ before after, run.tried = before ++ .success :: after → after = []

def Settles (flag : Int) (attempt : Nat → Attempt) : Prop :=
  ∃ cnt, 1 ≤ cnt ∧ cnt < retryBound flag ∧ (attempt cnt).retried = false

theorem settledAttempt_eq_none_iff (flag : Int) (attempt : Nat → Attempt) :
    settledAttempt flag attempt = none ↔ ¬Settles flag attempt := by
  unfold settledAttempt Settles
  rw [Retry.settled_eq_none_iff]
  constructor
  · rintro h ⟨cnt, hle, hlt, hcnt⟩
    simp [h cnt hle (by omega)] at hcnt
  · intro h cnt hle hlt
    by_contra hcnt
    exact h ⟨cnt, hle, by omega, by simpa using hcnt⟩

theorem executeDmlImpl_count_success (flag : Int) (attempt : Nat → Attempt) :
    (executeDmlImpl flag attempt).tried.count .success =
      (settledAttempt flag attempt).toList.count .success := by
  obtain ⟨retried, hall, heq⟩ :=
    @Retry.attempts_eq_append_settled _ Attempt.retried attempt
      (retryBound flag - 1) 1
  have hsuccess : Attempt.success ∉ retried := by
    intro hmem
    simpa [Attempt.retried] using hall _ hmem
  rw [executeDmlImpl_eq, heq, List.count_append,
    List.count_eq_zero_of_not_mem hsuccess, Nat.zero_add]
  rfl

theorem executeDmlImpl_last (flag : Int) (attempt : Nat → Attempt)
    (before after : List Attempt)
    (h : (executeDmlImpl flag attempt).tried = before ++ .success :: after) :
    after = [] := by
  rw [executeDmlImpl_eq] at h
  exact Retry.attempts_end rfl h

theorem executeDmlImpl_truthful_iff (flag : Int) (attempt : Nat → Attempt) :
    (executeDmlImpl flag attempt).Truthful ↔ Settles flag attempt := by
  have hcount := executeDmlImpl_count_success flag attempt
  have hret : (executeDmlImpl flag attempt).ret =
      retOf (settledAttempt flag attempt) := by
    rw [executeDmlImpl_eq]
  constructor
  · intro htruthful
    by_contra hexhausted
    rw [← settledAttempt_eq_none_iff] at hexhausted
    have hzero := htruthful.zero_iff
    simp [hret, hcount, hexhausted, retOf] at hzero
  · intro hsettles
    have hzero : (executeDmlImpl flag attempt).ret = 0 ↔
        (executeDmlImpl flag attempt).tried.count .success = 1 := by
      rw [hret, hcount]
      cases hsettled : settledAttempt flag attempt with
      | none =>
          rw [settledAttempt_eq_none_iff] at hsettled
          contradiction
      | some a => cases a <;> simp [retOf]
    refine ⟨hzero, ?_, executeDmlImpl_last flag attempt⟩
    intro hnone
    rw [Ne, hzero, List.count_eq_zero_of_not_mem hnone]
    omega

theorem executeDml_truthful_iff (flag : Int) (reply : Reply) :
    (executeDml flag reply).Truthful ↔
      (reply.created = true → Settles flag reply.attempt) := by
  unfold executeDml
  cases reply.created with
  | true => simp [executeDmlImpl_truthful_iff]
  | false =>
      simp only [Bool.false_eq_true, if_false, false_implies, iff_true]
      exact ⟨by simp, by simp, by simp⟩

/--
The call is truthful exactly when it settles within the retry count.  When all
attempts below the count are recoverable errors, and when the count leaves no
attempt at all, the loop is left through its condition and zero is returned.
-/
theorem execute_truthful_iff (flag : Int) (reply : Reply) :
    ((executeDmlImpl flag reply.attempt).Truthful ↔
      Settles flag reply.attempt) ∧
    ((MYSQLPS.execute flag reply.attempt).Truthful ↔
      Settles flag reply.attempt) ∧
    ((dml flag reply).Truthful ↔
      (reply.created = true → Settles flag reply.attempt)) ∧
    ((ddl flag reply).Truthful ↔
      (reply.created = true → Settles flag reply.attempt)) :=
  ⟨executeDmlImpl_truthful_iff flag reply.attempt,
    executeDmlImpl_truthful_iff flag reply.attempt,
    executeDml_truthful_iff flag reply,
    executeDml_truthful_iff flag reply⟩

/-- Nine deadlocks use up the default retry count of ten. -/
theorem execute_reports_lost_statement :
    ¬(executeDmlImpl 10 fun _ => .sqlException 1213).Truthful ∧
      ¬(MYSQLPS.execute 10 fun _ => .sqlException 1213).Truthful := by
  have hret : (executeDmlImpl 10 fun _ => .sqlException 1213).ret = 0 := by
    decide
  have hnone : Attempt.success ∉
      (executeDmlImpl 10 fun _ => .sqlException 1213).tried := by
    decide
  exact ⟨fun htruthful => htruthful.nonzero hnone hret,
    fun htruthful => htruthful.nonzero hnone hret⟩

/-- A retry count of 0 or 1 sends nothing and reports success. -/
example : executeDmlImpl 1 (fun _ => .success) = ⟨0, []⟩ ∧
    executeDmlImpl 0 (fun _ => .success) = ⟨0, []⟩ := by decide

/-! ## What a call does to the database -/

/-- The statement is attempted until it succeeds, within the retry count. -/
def Executes (flag : Int) (reply : Reply) : Prop :=
  reply.created = true ∧ ∃ cnt, 1 ≤ cnt ∧ cnt < retryBound flag ∧
    reply.attempt cnt = .success ∧
    ∀ k, 1 ≤ k → k < cnt → (reply.attempt k).retried = true

def FailsForGood (flag : Int) (reply : Reply) : Prop :=
  reply.created = false ∨ ∃ cnt errorCode, 1 ≤ cnt ∧ cnt < retryBound flag ∧
    reply.attempt cnt = .sqlException errorCode ∧
    isRecoverable errorCode = false ∧
    ∀ k, 1 ≤ k → k < cnt → (reply.attempt k).retried = true

theorem settledAttempt_eq_some_iff (flag : Int)
    (attempt : Nat → Attempt) (a : Attempt) :
    settledAttempt flag attempt = some a ↔
      ∃ cnt, 1 ≤ cnt ∧ cnt < retryBound flag ∧ attempt cnt = a ∧
        a.retried = false ∧
        ∀ k, 1 ≤ k → k < cnt → (attempt k).retried = true := by
  unfold settledAttempt
  rw [Retry.settled_eq_some_iff]
  constructor
  · rintro ⟨cnt, hle, hlt, hrest⟩
    exact ⟨cnt, hle, by omega, hrest⟩
  · rintro ⟨cnt, hle, hlt, hrest⟩
    exact ⟨cnt, hle, by omega, hrest⟩

theorem executes_iff (flag : Int) (reply : Reply) :
    Executes flag reply ↔ reply.created = true ∧
      settledAttempt flag reply.attempt = some .success := by
  unfold Executes
  rw [settledAttempt_eq_some_iff]
  simp [Attempt.retried]

instance (flag : Int) (reply : Reply) : Decidable (Executes flag reply) :=
  decidable_of_iff _ (executes_iff flag reply).symm

theorem failsForGood_iff (flag : Int) (reply : Reply) :
    FailsForGood flag reply ↔ reply.created = false ∨
      ∃ errorCode, settledAttempt flag reply.attempt =
        some (.sqlException errorCode) := by
  unfold FailsForGood
  simp only [settledAttempt_eq_some_iff, Attempt.retried]
  rw [exists_comm]

theorem not_failsForGood_of_executes {flag : Int} {reply : Reply}
    (h : Executes flag reply) : ¬FailsForGood flag reply := by
  rw [failsForGood_iff]
  obtain ⟨hcreated, hsettled⟩ := (executes_iff flag reply).1 h
  simp [hcreated, hsettled]

def executed {Stmt : Type*} (flag : Int) (reply : Reply) (stmt : Stmt) :
    List Stmt :=
  List.replicate ((dml flag reply).tried.count .success) stmt

theorem executed_of_executes {Stmt : Type*} {flag : Int} {reply : Reply}
    (h : Executes flag reply) (stmt : Stmt) :
    executed flag reply stmt = [stmt] := by
  obtain ⟨hcreated, hsettled⟩ := (executes_iff flag reply).1 h
  simp [executed, dml, executeDml, hcreated, hsettled,
    executeDmlImpl_count_success]

theorem executed_of_not_executes {Stmt : Type*} {flag : Int} {reply : Reply}
    (h : ¬Executes flag reply) (stmt : Stmt) :
    executed flag reply stmt = [] := by
  rw [executes_iff] at h
  cases hcreated : reply.created with
  | false => simp [executed, dml, executeDml, hcreated]
  | true =>
      simp only [hcreated, true_and] at h
      cases hsettled : settledAttempt flag reply.attempt with
      | none =>
          simp [executed, dml, executeDml, hcreated, hsettled,
            executeDmlImpl_count_success]
      | some a =>
          have hne : a ≠ .success := by
            rintro rfl
            exact h hsettled
          simp [executed, dml, executeDml, hcreated, hsettled, hne,
            executeDmlImpl_count_success]

theorem dml_ret_ne_zero_iff (flag : Int) (reply : Reply) :
    (dml flag reply).ret ≠ 0 ↔ FailsForGood flag reply := by
  rw [failsForGood_iff]
  unfold dml executeDml
  cases reply.created with
  | false => simp
  | true =>
      rw [if_pos rfl, executeDmlImpl_eq]
      cases settledAttempt flag reply.attempt with
      | none => simp [retOf]
      | some a => cases a <;> simp [retOf]

instance (flag : Int) (reply : Reply) : Decidable (FailsForGood flag reply) :=
  decidable_of_iff _ (dml_ret_ne_zero_iff flag reply)

def Attempts (flag : Int) (reply : Reply) : Prop :=
  reply.created = true ∧ 1 < retryBound flag

instance (flag : Int) (reply : Reply) : Decidable (Attempts flag reply) :=
  inferInstanceAs (Decidable (_ ∧ _))

theorem dml_tried_ne_nil_iff (flag : Int) (reply : Reply) :
    (dml flag reply).tried ≠ [] ↔ Attempts flag reply := by
  unfold dml executeDml Attempts
  cases reply.created with
  | false => simp
  | true =>
      rw [if_pos rfl, executeDmlImpl_eq, Ne, Retry.attempts_eq_nil_iff,
        eq_self_iff_true, true_and]
      omega

theorem eq_of_mem_executed {Stmt : Type*} {flag : Int} {reply : Reply}
    {stmt sent : Stmt} (h : sent ∈ executed flag reply stmt) : sent = stmt := by
  by_cases hexecutes : Executes flag reply
  · rw [executed_of_executes hexecutes] at h
    exact List.mem_singleton.mp h
  · rw [executed_of_not_executes hexecutes] at h
    contradiction

end Pview.MySQL
