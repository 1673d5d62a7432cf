import Pview.MySQL.MultiDml

/-!
# Whether a list of statements takes effect as a whole

The server rolls back the open transaction on a deadlock (1213) and when the
connection is gone (2006); on a lock wait timeout (1205), as on the errors that
are not retried, it undoes only the statement that failed.  `execute_dml_impl`
repeats the single statement in each case, and outside a transaction the
repeated statement is committed by itself.
-/

namespace Pview.MySQL

open Pview.Foundation
open Pview.Foundation.Transaction

def Attempt.losesTransaction : Attempt → Bool
  | .success => false
  | .sqlException errorCode => errorCode == 1213 || errorCode == 2006

theorem Attempt.retried_of_losesTransaction {a : Attempt}
    (h : a.losesTransaction = true) : a.retried = true := by
  cases a with
  | success => simp [losesTransaction] at h
  | sqlException errorCode =>
      simp only [losesTransaction, Bool.or_eq_true, beq_iff_eq] at h
      rcases h with rfl | rfl <;> decide

def receive (s : Session String) (entry : Command String × Attempt) :
    Session String :=
  match entry.2 with
  | .success => s.execute entry.1
  | .sqlException _ => s.loseIf entry.2.losesTransaction

/-- The statements that have taken effect when a call on an idle connection has
returned.  An open transaction counts for nothing. -/
def MultiRun.takenEffect (run : MultiRun) : List String :=
  (run.sent.foldl receive .idle).committed

def MultiRun.Atomic (run : MultiRun) (stmts : List String) : Prop :=
  run.takenEffect = [] ∨ run.takenEffect = stmts

instance (run : MultiRun) (stmts : List String) :
    Decidable (run.Atomic stmts) :=
  inferInstanceAs (Decidable (_ ∨ _))

/-! ## One call -/

def CallLoses (flag : Int) (attempt : Nat → Attempt) : Prop :=
  ∃ cnt, 1 ≤ cnt ∧ cnt < retryBound flag ∧
    (attempt cnt).losesTransaction = true ∧
    ∀ k, 1 ≤ k → k < cnt → (attempt k).retried = true

theorem callLoses_iff (flag : Int) (attempt : Nat → Attempt) :
    CallLoses flag attempt ↔
      (executeDmlImpl flag attempt).tried.any Attempt.losesTransaction = true := by
  simp only [CallLoses, executeDmlImpl_eq, List.any_eq_true,
    Retry.mem_attempts_iff]
  constructor
  · rintro ⟨cnt, hle, hlt, hloses, hbefore⟩
    exact ⟨attempt cnt, ⟨cnt, hle, by omega, rfl, hbefore⟩, hloses⟩
  · rintro ⟨a, ⟨cnt, hle, hlt, rfl, hbefore⟩, hloses⟩
    exact ⟨cnt, hle, by omega, hloses, hbefore⟩

instance (flag : Int) (attempt : Nat → Attempt) :
    Decidable (CallLoses flag attempt) :=
  decidable_of_iff _ (callLoses_iff flag attempt).symm

private theorem foldl_receive_retried (command : Command String)
    {retried : List Attempt} (hall : ∀ a ∈ retried, a.retried = true)
    (s : Session String) :
    (retried.map fun outcome => (command, outcome)).foldl receive s =
      s.loseIf (retried.any Attempt.losesTransaction) := by
  induction retried generalizing s with
  | nil => simp
  | cons a retried ih =>
      have htail := ih (fun b hb => hall b (by simp [hb]))
      cases a with
      | success => simpa [Attempt.retried] using hall .success (by simp)
      | sqlException errorCode =>
          rw [List.map_cons, List.foldl_cons, htail, List.any_cons, receive]
          cases Attempt.losesTransaction (.sqlException errorCode) with
          | false => simp
          | true => cases retried.any Attempt.losesTransaction <;> rfl

theorem foldl_receive_sentAs (flag : Int) (command : Command String)
    (attempt : Nat → Attempt) (s : Session String) :
    (sentAs flag command attempt).foldl receive s =
      (s.loseIf (decide (CallLoses flag attempt))).executeIf
        (decide (CallExecutes flag attempt)) command := by
  obtain ⟨retried, hall, heq⟩ : ∃ retried : List Attempt,
      (∀ a ∈ retried, a.retried = true) ∧
        (executeDmlImpl flag attempt).tried =
          retried ++ (settledAttempt flag attempt).toList := by
    rw [executeDmlImpl_eq]
    exact Retry.attempts_eq_append_settled _ _
  have hexecutes : CallExecutes flag attempt ↔
      settledAttempt flag attempt = some .success := by
    simpa using executes_iff flag ⟨true, attempt⟩
  simp only [callLoses_iff, hexecutes, sentAs, heq, List.map_append,
    List.foldl_append, foldl_receive_retried command hall, List.any_append,
    Bool.decide_eq_true]
  cases hsettled : settledAttempt flag attempt with
  | none => simp
  | some a =>
      cases a with
      | success => simp [Attempt.losesTransaction, receive]
      | sqlException errorCode =>
          -- The error that ends a call is not one that loses the transaction.
          have hkeeps : Attempt.losesTransaction (.sqlException errorCode) =
              false := by
            obtain ⟨-, -, -, -, hlast, -⟩ :=
              (settledAttempt_eq_some_iff flag attempt _).mp hsettled
            by_contra hloses
            rw [Bool.not_eq_false] at hloses
            rw [Attempt.retried_of_losesTransaction hloses] at hlast
            contradiction
          simp [receive, hkeeps]

/-! ## The whole run -/

def losesAt (flag : Int) (attempt : Nat → Nat → Attempt) (k : Nat) : Bool :=
  decide (Reached flag attempt k ∧ CallLoses flag (attempt k))

theorem losesAt_zero (flag : Int) (attempt : Nat → Nat → Attempt) :
    losesAt flag attempt 0 = decide (CallLoses flag (attempt 0)) := by
  simp [losesAt, reached_zero]

theorem losesAt_succ (flag : Int) (attempt : Nat → Nat → Attempt) (k : Nat) :
    losesAt flag attempt (k + 1) = (!decide (CallFails flag (attempt 0)) &&
      losesAt flag (fun k => attempt (k + 1)) k) := by
  simp [losesAt, reached_succ, Bool.and_assoc]

theorem foldl_receive_loop (flag : Int) (attempt : Nat → Nat → Attempt)
    (stmts : List String) (s : Session String) :
    (multiDmlLoop flag attempt stmts).2.foldl receive s =
      s.applyAll (losesAt flag attempt) (executesAt flag attempt) stmts := by
  induction stmts generalizing attempt s with
  | nil => simp [multiDmlLoop, Session.applyAll]
  | cons sql stmts ih =>
      rw [multiDmlLoop, Session.applyAll, losesAt_zero, executesAt_zero]
      simp only [losesAt_succ, executesAt_succ]
      by_cases hfails : CallFails flag (attempt 0)
      · rw [if_pos ((call_ret_ne_zero_iff flag _).mpr hfails)]
        simp [foldl_receive_sentAs, hfails]
      · rw [if_neg (mt (call_ret_ne_zero_iff flag _).mp hfails)]
        simp [List.foldl_append, foldl_receive_sentAs, hfails, ih]

/-- No transaction is open when statement `k` is executed: none was started, or
it was lost on the way. -/
def Outside (flag : Int) (reply : MultiReply) (k : Nat) : Prop :=
  ¬CallExecutes flag reply.start ∨ ∃ j ≤ k, CallLoses flag (reply.stmt j)

instance (flag : Int) (reply : MultiReply) (k : Nat) :
    Decidable (Outside flag reply k) :=
  inferInstanceAs (Decidable (_ ∨ ∃ j ≤ k, _))

/-- The transaction is started, is never lost, and is committed. -/
def Commits (flag : Int) (reply : MultiReply) (stmts : List String) : Prop :=
  CallExecutes flag reply.start ∧
    (∀ k < stmts.length, ¬CallFails flag (reply.stmt k) ∧
      ¬CallLoses flag (reply.stmt k)) ∧
    CallExecutes flag reply.finish ∧ ¬CallLoses flag reply.finish

instance (flag : Int) (reply : MultiReply) (stmts : List String) :
    Decidable (Commits flag reply stmts) :=
  inferInstanceAs (Decidable (_ ∧ (∀ k < stmts.length, _) ∧ _ ∧ _))

theorem outside_iff {flag : Int} {reply : MultiReply} {k : Nat}
    (hstart : CallExecutes flag reply.start)
    (hreached : Reached flag reply.stmt k) :
    Outside flag reply k ↔ ∃ j ≤ k, losesAt flag reply.stmt j = true := by
  have hprior : ∀ j ≤ k, Reached flag reply.stmt j :=
    fun j hj i hi => hreached i (by omega)
  simp only [Outside, hstart, not_true, false_or, losesAt, decide_eq_true_eq]
  constructor
  · rintro ⟨j, hj, hloses⟩
    exact ⟨j, hj, hprior j hj, hloses⟩
  · rintro ⟨j, hj, -, hloses⟩
    exact ⟨j, hj, hloses⟩

theorem reached_of_executesAt {flag : Int} {attempt : Nat → Nat → Attempt}
    {k : Nat} (h : executesAt flag attempt k = true) :
    Reached flag attempt k := by
  simp only [executesAt, decide_eq_true_eq] at h
  exact h.1

/-- Which of its statements `multi_dml` leaves in the database: those executed
outside the transaction, and the others if it is committed. -/
def survivesAt (flag : Int) (reply : MultiReply) (stmts : List String)
    (k : Nat) : Bool :=
  executesAt flag reply.stmt k &&
    (decide (Outside flag reply k) || decide (Commits flag reply stmts))

private theorem takenEffect_lost {flag : Int} {reply : MultiReply}
    {stmts : List String} (hstart : CallExecutes flag reply.start)
    (hlost : ∃ k < stmts.length, losesAt flag reply.stmt k = true) :
    pick (fun k => executesAt flag reply.stmt k &&
        decide (∃ j ≤ k, losesAt flag reply.stmt j = true)) stmts =
      pick (survivesAt flag reply stmts) stmts := by
  have hcommits : ¬Commits flag reply stmts := by
    rintro ⟨-, hstmts, -⟩
    obtain ⟨k, hk, hloses⟩ := hlost
    simp only [losesAt, decide_eq_true_eq] at hloses
    exact (hstmts k hk).2 hloses.2
  refine pick_congr fun k _ => ?_
  unfold survivesAt
  cases hexecutes : executesAt flag reply.stmt k with
  | false => simp
  | true =>
      have houtside := outside_iff hstart (reached_of_executesAt hexecutes)
      simp [houtside, hcommits]

private theorem takenEffect_kept {flag : Int} {reply : MultiReply}
    {stmts : List String} (hstart : CallExecutes flag reply.start)
    (hkept : ∀ k < stmts.length, losesAt flag reply.stmt k = false) :
    pick (survivesAt flag reply stmts) stmts =
      if Commits flag reply stmts then
        pick (executesAt flag reply.stmt) stmts
      else [] := by
  have hinside : ∀ k < stmts.length, survivesAt flag reply stmts k =
      (executesAt flag reply.stmt k &&
        decide (Commits flag reply stmts)) := by
    intro k hk
    unfold survivesAt
    cases hexecutes : executesAt flag reply.stmt k with
    | false => simp
    | true =>
        have houtside : ¬Outside flag reply k := by
          rw [outside_iff hstart (reached_of_executesAt hexecutes)]
          rintro ⟨j, hj, hloses⟩
          simp [hkept j (by omega)] at hloses
        simp [houtside]
  rw [pick_congr hinside]
  split
  · rename_i hcommits
    simp [hcommits]
  · rename_i hcommits
    simp [hcommits]

private theorem commits_iff {flag : Int} {reply : MultiReply}
    {stmts : List String} (hstart : CallExecutes flag reply.start)
    (hkept : ∀ k < stmts.length, losesAt flag reply.stmt k = false) :
    Commits flag reply stmts ↔
      (multiDmlLoop flag reply.stmt stmts).1 = false ∧
        CallExecutes flag reply.finish ∧ ¬CallLoses flag reply.finish := by
  rw [← Bool.not_eq_true, multiDmlLoop_rollback]
  constructor
  · rintro ⟨-, hstmts, hfinish⟩
    refine ⟨?_, hfinish⟩
    rintro ⟨k, hk, hfails⟩
    exact (hstmts k hk).1 hfails
  · rintro ⟨hnone, hfinish⟩
    refine ⟨hstart, fun k hk => ?_, hfinish⟩
    have hreached : Reached flag reply.stmt k :=
      fun j hj hfails => hnone ⟨j, by omega, hfails⟩
    have hloses := hkept k hk
    simp only [losesAt, hreached, true_and, decide_eq_false_iff_not] at hloses
    exact ⟨fun hfails => hnone ⟨k, hk, hfails⟩, hloses⟩

theorem takenEffect_multiDml {flag : Int} {reply : MultiReply}
    (hcreated : reply.created = true) (hstart : ¬CallFails flag reply.start)
    (stmts : List String) :
    (multiDml flag reply stmts).takenEffect =
      pick (survivesAt flag reply stmts) stmts := by
  have hcommand : (if (multiDmlLoop flag reply.stmt stmts).1 = true then
      Command.rollback else Command.commit) = Command.rollback (α := String) ∨
    (if (multiDmlLoop flag reply.stmt stmts).1 = true then
      Command.rollback else Command.commit) = Command.commit (α := String) := by
    split <;> simp
  rw [MultiRun.takenEffect, multiDml_started hcreated hstart]
  simp only [List.foldl_append, foldl_receive_sentAs, foldl_receive_loop,
    Session.idle, Session.loseIf_outside]
  by_cases hexecutes : CallExecutes flag reply.start
  · simp only [hexecutes, decide_true, Session.executeIf_true, Session.execute,
      Option.getD_none, List.append_nil]
    by_cases hlost : ∃ k < stmts.length, losesAt flag reply.stmt k = true
    · rw [Session.applyAll_lost _ hlost, Session.loseIf_outside,
        Session.executeIf_outside hcommand, List.nil_append]
      exact takenEffect_lost hexecutes hlost
    · have hkept : ∀ k < stmts.length,
          losesAt flag reply.stmt k = false := by
        simpa using hlost
      rw [Session.applyAll_kept _ hkept, takenEffect_kept hexecutes hkept]
      simp only [commits_iff hexecutes hkept]
      by_cases hloses : CallLoses flag reply.finish
      · simp [hloses, Session.lose, Session.executeIf_outside hcommand]
      · cases (multiDmlLoop flag reply.stmt stmts).1 with
        | true =>
            by_cases hfinish : CallExecutes flag reply.finish
            · simp [hloses, hfinish, Session.execute]
            · simp [hloses, hfinish]
        | false =>
            by_cases hfinish : CallExecutes flag reply.finish
            · simp [hloses, hfinish, Session.execute]
            · simp [hloses, hfinish]
  · simp only [hexecutes, decide_false, Session.executeIf_false,
      Session.applyAll_outside, Session.loseIf_outside,
      Session.executeIf_outside hcommand, List.nil_append]
    refine pick_congr fun k _ => ?_
    simp [survivesAt, Outside, hexecutes]

private theorem pick_survivesAt_eq_nil_iff (flag : Int) (reply : MultiReply)
    (stmts : List String) :
    pick (survivesAt flag reply stmts) stmts = [] ↔
      ∀ k < stmts.length, Reached flag reply.stmt k →
        CallExecutes flag (reply.stmt k) →
        ¬Outside flag reply k ∧ ¬Commits flag reply stmts := by
  simp [pick_eq_nil_iff, survivesAt, executesAt]

private theorem pick_survivesAt_eq_self_iff {flag : Int} {reply : MultiReply}
    {stmts : List String} (hpos : 0 < stmts.length) :
    pick (survivesAt flag reply stmts) stmts = stmts ↔
      (∀ k < stmts.length, CallExecutes flag (reply.stmt k)) ∧
        (Outside flag reply 0 ∨ Commits flag reply stmts) := by
  simp only [pick_eq_self_iff, survivesAt, executesAt, Bool.and_eq_true,
    Bool.or_eq_true, decide_eq_true_eq]
  constructor
  · intro h
    exact ⟨fun k hk => (h k hk).1.2, (h 0 hpos).2⟩
  · rintro ⟨hexecute, hfirst⟩ k hk
    refine ⟨⟨fun j hj => ?_, hexecute k hk⟩, ?_⟩
    · exact not_callFails_of_executes (hexecute j (by omega))
    · -- What is outside at the first statement is outside at the others too.
      refine hfirst.imp_left fun houtside => houtside.imp_right ?_
      rintro ⟨j, hj, hloses⟩
      exact ⟨j, by omega, hloses⟩

/--
All or none of the statements take effect exactly when the call ends before the
first of them, or all are executed, inside the transaction and committed or
every one outside it, or none is executed outside the transaction and it is not
committed with any of them.
-/
theorem multiDml_atomic_iff (flag : Int) (reply : MultiReply)
    (stmts : List String) :
    (multiDml flag reply stmts).Atomic stmts ↔
      reply.created = false ∨ CallFails flag reply.start ∨
      (∀ k < stmts.length, CallExecutes flag (reply.stmt k)) ∧
        (Outside flag reply 0 ∨ Commits flag reply stmts) ∨
      ∀ k < stmts.length, Reached flag reply.stmt k →
        CallExecutes flag (reply.stmt k) →
        ¬Outside flag reply k ∧ ¬Commits flag reply stmts := by
  unfold MultiRun.Atomic
  cases hcreated : reply.created with
  | false => simp [multiDml, hcreated, MultiRun.takenEffect, Session.idle]
  | true =>
      by_cases hstart : CallFails flag reply.start
      · have hret := (call_ret_ne_zero_iff flag _).mpr hstart
        have hexecutes : ¬CallExecutes flag reply.start :=
          fun h => not_callFails_of_executes h hstart
        simp [multiDml, hcreated, hret, MultiRun.takenEffect,
          foldl_receive_sentAs, hexecutes, Session.idle, hstart]
      · rw [takenEffect_multiDml hcreated hstart, pick_survivesAt_eq_nil_iff]
        simp only [Bool.true_eq_false, hstart, false_or]
        by_cases hpos : 0 < stmts.length
        · rw [pick_survivesAt_eq_self_iff hpos, or_comm]
        · simp [Nat.eq_zero_of_not_pos hpos]

/-- A deadlock at the second statement: the first one is rolled back with the
transaction, and the second one, repeated, is committed by itself. -/
theorem multiDml_splits_statements :
    ¬∀ (flag : Int) (reply : MultiReply) (stmts : List String),
      (multiDml flag reply stmts).Atomic stmts := by
  intro h
  have hatomic := h 10 ⟨true, fun _ => .success,
    fun k cnt => if k = 1 ∧ cnt = 1 then .sqlException 1213 else .success,
    fun _ => .success⟩ ["first", "second"]
  revert hatomic
  decide

end Pview.MySQL
