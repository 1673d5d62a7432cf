import Pview.MySQL.Connection

/-!
# Storing a batch

`ParseTask::do_store` sends the statements of a batch one by one through
`MYSQLConn::dml`.  No statement opens a transaction, so each one the server
executes is committed by itself.  The server is a function from the number of
the batch and the offset of the statement in it to the reply to that call;
statements are opaque here.
-/

namespace Pview.Indexer

open Pview.MySQL

variable {Stmt : Type*}

def storeStmts (flag : Int) (server : Nat → Reply) :
    Nat → List Stmt → List Stmt
  | _, [] => []
  | n, stmt :: rest =>
      executed flag (server n) stmt ++
        if (dml flag (server n)).ret ≠ 0 then
          []
        else
          storeStmts flag server (n + 1) rest

/-- The `while` loop: what is executed of each batch, given what `get_stmts`
returns; `b` counts the batches. -/
def doStoreLoop (flag : Int) (server : Nat → Nat → Reply) :
    Nat → List (Option (List Stmt)) → List (List Stmt)
  | _, [] => []
  | _, none :: _ => []
  | b, some stmts :: returned =>
      if stmts.isEmpty then
        []
      else
        storeStmts flag (server b) 0 stmts ::
          doStoreLoop flag server (b + 1) returned

/-- `connected` tells whether `init_mysql_conn` succeeds. -/
def doStore (connected : Bool) (flag : Int) (server : Nat → Nat → Reply)
    (returned : List (Option (List Stmt))) : List (List Stmt) :=
  if connected then doStoreLoop flag server 0 returned else []

/-! ## All or nothing -/

def StoppedBefore (flag : Int) (server : Nat → Reply) (i : Nat) : Prop :=
  ∃ j < i, FailsForGood flag (server j)

private theorem stoppedBefore_succ (flag : Int) (server : Nat → Reply)
    (i : Nat) :
    StoppedBefore flag server (i + 1) ↔
      FailsForGood flag (server 0) ∨
        StoppedBefore flag (fun k => server (k + 1)) i := by
  unfold StoppedBefore
  constructor
  · rintro ⟨j, hlt, hfails⟩
    cases j with
    | zero => exact .inl hfails
    | succ j => exact .inr ⟨j, by omega, hfails⟩
  · rintro (hfails | ⟨j, hlt, hfails⟩)
    · exact ⟨0, by omega, hfails⟩
    · exact ⟨j + 1, by omega, hfails⟩

private theorem storeStmts_shift (flag : Int) (server : Nat → Reply) (n : Nat)
    (stmts : List Stmt) :
    storeStmts flag server n stmts =
      storeStmts flag (fun k => server (n + k)) 0 stmts := by
  have hgeneral : ∀ m, storeStmts flag server (n + m) stmts =
      storeStmts flag (fun k => server (n + k)) m stmts := by
    induction stmts with
    | nil => simp [storeStmts]
    | cons stmt rest ih =>
        intro m
        simp only [storeStmts, Nat.add_assoc, ih]
  exact hgeneral 0

private theorem storeStmts_cons (flag : Int) (server : Nat → Reply)
    (stmt : Stmt) (rest : List Stmt) :
    storeStmts flag server 0 (stmt :: rest) =
      executed flag (server 0) stmt ++
        if (dml flag (server 0)).ret ≠ 0 then
          []
        else
          storeStmts flag (fun k => server (k + 1)) 0 rest := by
  rw [storeStmts, storeStmts_shift flag server (0 + 1)]
  simp only [Nat.zero_add, Nat.add_comm 1]

private theorem storeTail_sublist (ret : Int) {tail rest : List Stmt}
    (h : tail.Sublist rest) :
    (if ret ≠ 0 then [] else tail).Sublist rest := by
  split
  · simp
  · exact h

theorem storeStmts_sublist (flag : Int) (server : Nat → Reply)
    (stmts : List Stmt) : (storeStmts flag server 0 stmts).Sublist stmts := by
  induction stmts generalizing server with
  | nil => simp [storeStmts]
  | cons stmt rest ih =>
      rw [storeStmts_cons]
      have htail := storeTail_sublist (dml flag (server 0)).ret
        (ih fun k => server (k + 1))
      by_cases hexecutes : Executes flag (server 0)
      · rw [executed_of_executes hexecutes]
        exact List.Sublist.cons_cons stmt htail
      · rw [executed_of_not_executes hexecutes]
        exact List.Sublist.cons stmt htail

theorem storeStmts_eq_self_iff (flag : Int) (server : Nat → Reply)
    (stmts : List Stmt) :
    storeStmts flag server 0 stmts = stmts ↔
      ∀ i < stmts.length, Executes flag (server i) := by
  induction stmts generalizing server with
  | nil => simp [storeStmts]
  | cons stmt rest ih =>
      rw [storeStmts_cons, List.length_cons, Nat.forall_lt_succ_left]
      by_cases hexecutes : Executes flag (server 0)
      · have hret := not_failsForGood_of_executes hexecutes
        rw [← dml_ret_ne_zero_iff] at hret
        rw [executed_of_executes hexecutes, if_neg hret]
        simp [hexecutes, ih]
      · rw [executed_of_not_executes hexecutes]
        simp only [hexecutes, false_and, iff_false]
        intro heq
        have htail := storeTail_sublist (dml flag (server 0)).ret
          (storeStmts_sublist flag (fun k => server (k + 1)) rest)
        rw [List.nil_append] at heq
        rw [heq] at htail
        have hlength := htail.length_le
        rw [List.length_cons] at hlength
        omega

theorem storeStmts_eq_nil_iff (flag : Int) (server : Nat → Reply)
    (stmts : List Stmt) :
    storeStmts flag server 0 stmts = [] ↔
      ∀ i < stmts.length, Executes flag (server i) →
        StoppedBefore flag server i := by
  induction stmts generalizing server with
  | nil => simp [storeStmts]
  | cons stmt rest ih =>
      rw [storeStmts_cons, List.length_cons, Nat.forall_lt_succ_left]
      simp only [stoppedBefore_succ]
      by_cases hexecutes : Executes flag (server 0)
      · rw [executed_of_executes hexecutes]
        simp [StoppedBefore, hexecutes]
      · rw [executed_of_not_executes hexecutes]
        by_cases hfails : FailsForGood flag (server 0)
        · simp [hexecutes, hfails, dml_ret_ne_zero_iff]
        · simp [hexecutes, hfails, dml_ret_ne_zero_iff, ih]

def AllOrNothing (stmts applied : List Stmt) : Prop :=
  applied = stmts ∨ applied = []

instance [DecidableEq Stmt] (stmts applied : List Stmt) :
    Decidable (AllOrNothing stmts applied) :=
  inferInstanceAs (Decidable (applied = stmts ∨ applied = []))

/-- Every one of `count` statements executes, or none that is reached. -/
def Uniform (flag : Int) (server : Nat → Reply) (count : Nat) : Prop :=
  (∀ i < count, Executes flag (server i)) ∨
    ∀ i < count, Executes flag (server i) → StoppedBefore flag server i

theorem storeStmts_atomic_iff (flag : Int) (server : Nat → Reply)
    (stmts : List Stmt) :
    AllOrNothing stmts (storeStmts flag server 0 stmts) ↔
      Uniform flag server stmts.length := by
  unfold AllOrNothing Uniform
  rw [storeStmts_eq_self_iff, storeStmts_eq_nil_iff]

private theorem doStoreLoop_getElem (flag : Int)
    (server : Nat → Nat → Reply) {returned : List (Option (List Stmt))}
    {first b : Nat} {stmts applied : List Stmt}
    (hreturned : returned[b]? = some (some stmts))
    (happlied : (doStoreLoop flag server first returned)[b]? =
      some applied) :
    applied = storeStmts flag (server (first + b)) 0 stmts := by
  induction returned generalizing first b with
  | nil => simp at hreturned
  | cons head returned ih =>
      cases head with
      | none => simp [doStoreLoop] at happlied
      | some batch =>
          cases hempty : batch.isEmpty with
          | true => simp [doStoreLoop, hempty] at happlied
          | false =>
              cases b with
              | zero =>
                  simp [doStoreLoop, hempty] at hreturned happlied
                  simp [← happlied, hreturned]
              | succ b =>
                  simp [doStoreLoop, hempty] at hreturned happlied
                  have hrest := ih hreturned happlied
                  rwa [Nat.add_assoc, Nat.add_comm 1] at hrest

/--
A batch that `do_store` has processed took effect as a whole or not at all
exactly when its statements fared alike.  A failure discards the statements
after it and keeps those before it; a statement that ran out of attempts is
taken for executed and the loop goes on.
-/
theorem doStore_atomic_iff (flag : Int) (server : Nat → Nat → Reply)
    (returned : List (Option (List Stmt))) (b : Nat)
    (stmts applied : List Stmt)
    (hreturned : returned[b]? = some (some stmts))
    (happlied : (doStore true flag server returned)[b]? = some applied) :
    AllOrNothing stmts applied ↔ Uniform flag (server b) stmts.length := by
  rw [doStore, if_pos rfl] at happlied
  rw [doStoreLoop_getElem flag server hreturned happlied, Nat.zero_add]
  exact storeStmts_atomic_iff flag (server b) stmts

/-- One definition and the marker of its file, both executed. -/
theorem doStore_atomic_iff_stored :
    AllOrNothing ["func_definitions", "filepaths"]
        ["func_definitions", "filepaths"] ↔
      Uniform 10 (fun _ => ⟨true, fun _ => .success⟩) 2 :=
  doStore_atomic_iff 10 (fun _ _ => ⟨true, fun _ => .success⟩)
    [some ["func_definitions", "filepaths"], none] 0 _ _ rfl (by decide)

/-- The second statement is refused with a syntax error; the first one stays
in the database. -/
theorem doStore_keeps_prefix :
    ¬∀ applied ∈ doStore true 10
        (fun _ n => ⟨true, fun _ =>
          if n = 1 then .sqlException 1064 else .success⟩)
        [some ["func_definitions", "filepaths"], none],
      AllOrNothing ["func_definitions", "filepaths"] applied := by
  decide

end Pview.Indexer
