import Mathlib.Data.List.Basic

/-!
# Sessions with transactions

The server's side of one connection: the statements that have taken effect and,
while a transaction is open, those that wait for its commit.  `lose` is the
server rolling the open transaction back of its own accord.

`applyAll` is the fate of a list of statements sent one after another: number
`k` may lose the transaction on the way (`loses k`) and may be executed
(`done k`).
-/

namespace Pview.Foundation.Transaction

inductive Command (α : Type*) where
  | startTransaction
  | dml (stmt : α)
  | rollback
  | commit
  deriving DecidableEq, Repr

structure Session (α : Type*) where
  committed : List α
  /-- `none` when no transaction is open. -/
  pending : Option (List α)
  deriving DecidableEq, Repr

variable {α : Type*}

namespace Session

def idle : Session α := ⟨[], none⟩

def execute (s : Session α) : Command α → Session α
  | .startTransaction => ⟨s.committed ++ s.pending.getD [], some []⟩
  | .dml stmt =>
      match s.pending with
      | some stmts => { s with pending := some (stmts ++ [stmt]) }
      | none => { s with committed := s.committed ++ [stmt] }
  | .rollback => { s with pending := none }
  | .commit => ⟨s.committed ++ s.pending.getD [], none⟩

def lose (s : Session α) : Session α := { s with pending := none }

def loseIf (s : Session α) (loses : Bool) : Session α :=
  if loses then s.lose else s

def executeIf (s : Session α) (done : Bool) (command : Command α) : Session α :=
  if done then s.execute command else s

@[simp] theorem loseIf_true (s : Session α) : s.loseIf true = s.lose := rfl

@[simp] theorem loseIf_false (s : Session α) : s.loseIf false = s := rfl

@[simp] theorem executeIf_true (s : Session α) (command : Command α) :
    s.executeIf true command = s.execute command := rfl

@[simp] theorem executeIf_false (s : Session α) (command : Command α) :
    s.executeIf false command = s := rfl

@[simp] theorem loseIf_outside (committed : List α) (loses : Bool) :
    (Session.mk committed none).loseIf loses = ⟨committed, none⟩ := by
  cases loses <;> rfl

theorem executeIf_outside {command : Command α}
    (h : command = .rollback ∨ command = .commit) (committed : List α)
    (done : Bool) :
    (Session.mk committed none).executeIf done command =
      ⟨committed, none⟩ := by
  cases done with
  | false => simp
  | true => rcases h with rfl | rfl <;> simp [execute]

def applyAll : (Nat → Bool) → (Nat → Bool) → List α → Session α → Session α
  | _, _, [], s => s
  | loses, done, stmt :: stmts, s =>
      applyAll (fun k => loses (k + 1)) (fun k => done (k + 1)) stmts
        ((s.loseIf (loses 0)).executeIf (done 0) (.dml stmt))

end Session

/-! ## Elements at chosen positions -/

def pick : (Nat → Bool) → List α → List α
  | _, [] => []
  | p, x :: xs =>
      if p 0 then x :: pick (fun k => p (k + 1)) xs
      else pick (fun k => p (k + 1)) xs

theorem pick_congr {p q : Nat → Bool} {xs : List α}
    (h : ∀ k < xs.length, p k = q k) : pick p xs = pick q xs := by
  induction xs generalizing p q with
  | nil => rfl
  | cons x xs ih =>
      have hzero : p 0 = q 0 := h 0 (by simp)
      have htail := ih (p := fun k => p (k + 1)) (q := fun k => q (k + 1))
        (fun k hk => h (k + 1) (by simpa using hk))
      rw [pick, pick, hzero, htail]

theorem pick_sublist (p : Nat → Bool) (xs : List α) :
    (pick p xs).Sublist xs := by
  induction xs generalizing p with
  | nil => simp [pick]
  | cons x xs ih =>
      unfold pick
      split
      · exact (ih _).cons_cons x
      · exact (ih _).cons x

theorem pick_eq_nil_iff {p : Nat → Bool} {xs : List α} :
    pick p xs = [] ↔ ∀ k < xs.length, p k = false := by
  induction xs generalizing p with
  | nil => simp [pick]
  | cons x xs ih =>
      rw [List.length_cons, Nat.forall_lt_succ_left, ← ih, pick]
      cases p 0 <;> simp

theorem pick_eq_self_iff {p : Nat → Bool} {xs : List α} :
    pick p xs = xs ↔ ∀ k < xs.length, p k = true := by
  induction xs generalizing p with
  | nil => simp [pick]
  | cons x xs ih =>
      rw [List.length_cons, Nat.forall_lt_succ_left, ← ih, pick]
      cases p 0 with
      | true => simp
      | false =>
          simp only [Bool.false_eq_true, if_false, false_and, iff_false]
          intro heq
          have hle := (pick_sublist (fun k => p (k + 1)) xs).length_le
          rw [heq, List.length_cons] at hle
          omega

@[simp] theorem pick_none (xs : List α) : pick (fun _ => false) xs = [] := by
  simp [pick_eq_nil_iff]

/-! ## The fate of a list of statements -/

namespace Session

@[simp] theorem applyAll_none (stmts : List α) (s : Session α) :
    applyAll (fun _ => false) (fun _ => false) stmts s = s := by
  induction stmts generalizing s with
  | nil => simp [applyAll]
  | cons stmt stmts ih => simp [applyAll, ih]

theorem applyAll_outside (loses done : Nat → Bool) (stmts committed : List α) :
    applyAll loses done stmts ⟨committed, none⟩ =
      ⟨committed ++ pick done stmts, none⟩ := by
  induction stmts generalizing loses done committed with
  | nil => simp [applyAll, pick]
  | cons stmt stmts ih =>
      rw [applyAll, loseIf_outside, pick]
      cases done 0 with
      | false => simp [ih]
      | true => simp [ih, execute]

theorem applyAll_kept {loses : Nat → Bool} (done : Nat → Bool)
    {stmts : List α} (h : ∀ k < stmts.length, loses k = false)
    (committed waiting : List α) :
    applyAll loses done stmts ⟨committed, some waiting⟩ =
      ⟨committed, some (waiting ++ pick done stmts)⟩ := by
  induction stmts generalizing loses done waiting with
  | nil => simp [applyAll, pick]
  | cons stmt stmts ih =>
      have hzero : loses 0 = false := h 0 (by simp)
      have htail := @ih (fun k => loses (k + 1)) (fun k => done (k + 1))
        (fun k hk => h (k + 1) (by simpa using hk))
      rw [applyAll, hzero, loseIf_false, pick]
      cases done 0 with
      | false => simp [htail]
      | true => simp [htail, execute]

/-- Of a transaction that is lost on the way only the statements from the first
loss on remain, each committed by itself. -/
theorem applyAll_lost {loses : Nat → Bool} (done : Nat → Bool)
    {stmts : List α} (h : ∃ k < stmts.length, loses k = true)
    (committed waiting : List α) :
    applyAll loses done stmts ⟨committed, some waiting⟩ =
      ⟨committed ++ pick
        (fun k => done k && decide (∃ j ≤ k, loses j = true)) stmts, none⟩ := by
  induction stmts generalizing loses done waiting with
  | nil => simp at h
  | cons stmt stmts ih =>
      rw [applyAll]
      cases hzero : loses 0 with
      | true =>
          have hall : ∀ k, ∃ j ≤ k, loses j = true :=
            fun k => ⟨0, Nat.zero_le k, hzero⟩
          simp only [loseIf_true, lose, hall, decide_true, Bool.and_true]
          rw [pick]
          cases done 0 with
          | false => simp [applyAll_outside]
          | true => simp [applyAll_outside, execute]
      | false =>
          have hlater : ∀ k, (∃ j ≤ k + 1, loses j = true) ↔
              ∃ j ≤ k, loses (j + 1) = true := by
            intro k
            constructor
            · rintro ⟨_ | j, hj, hloses⟩
              · simp [hzero] at hloses
              · exact ⟨j, by omega, hloses⟩
            · rintro ⟨j, hj, hloses⟩
              exact ⟨j + 1, by omega, hloses⟩
          have hsome : ∃ k < stmts.length, loses (k + 1) = true := by
            obtain ⟨_ | k, hk, hloses⟩ := h
            · simp [hzero] at hloses
            · exact ⟨k, by simpa using hk, hloses⟩
          have htail := @ih (fun k => loses (k + 1)) (fun k => done (k + 1))
            hsome
          rw [loseIf_false, pick]
          cases done 0 with
          | false => simp [htail, hlater, hzero]
          | true => simp [htail, hlater, hzero, execute]

end Session

end Pview.Foundation.Transaction
