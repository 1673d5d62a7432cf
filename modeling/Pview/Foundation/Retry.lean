import Mathlib.Data.List.Basic

/-!
# Bounded retries

An operation is attempted under the numbers `cnt, cnt + 1, …` until an attempt
gives an outcome that is not retried, and at most `budget` times.  `attempts`
lists the outcomes seen, `settled` is the one that ended the operation; it is
`none` when every attempt within the budget asked for another one.
-/

namespace Pview.Foundation.Retry

variable {α : Type*} (retry : α → Bool) (outcome : Nat → α)

def attempts : Nat → Nat → List α
  | 0, _ => []
  | budget + 1, cnt =>
      if retry (outcome cnt) then
        outcome cnt :: attempts budget (cnt + 1)
      else
        [outcome cnt]

def settled : Nat → Nat → Option α
  | 0, _ => none
  | budget + 1, cnt =>
      if retry (outcome cnt) then
        settled budget (cnt + 1)
      else
        some (outcome cnt)

variable {retry outcome}

theorem attempts_eq_nil_iff (budget cnt : Nat) :
    attempts retry outcome budget cnt = [] ↔ budget = 0 := by
  cases budget with
  | zero => simp [attempts]
  | succ budget =>
      unfold attempts
      split <;> simp

theorem mem_attempts_iff {budget cnt : Nat} {a : α} :
    a ∈ attempts retry outcome budget cnt ↔
      ∃ k, cnt ≤ k ∧ k < cnt + budget ∧ outcome k = a ∧
        ∀ j, cnt ≤ j → j < k → retry (outcome j) = true := by
  induction budget generalizing cnt with
  | zero =>
      simp only [attempts, List.not_mem_nil, false_iff, not_exists]
      omega
  | succ budget ih =>
      by_cases hretry : retry (outcome cnt) = true
      · rw [attempts, if_pos hretry, List.mem_cons, ih]
        constructor
        · rintro (rfl | ⟨k, hle, hlt, hk, hbefore⟩)
          · exact ⟨cnt, by omega, by omega, rfl, by omega⟩
          · refine ⟨k, by omega, by omega, hk, fun j hj hjk => ?_⟩
            by_cases hcnt : j = cnt
            · rwa [hcnt]
            · exact hbefore j (by omega) hjk
        · rintro ⟨k, hle, hlt, hk, hbefore⟩
          by_cases hcnt : k = cnt
          · exact .inl (by rw [← hk, hcnt])
          · exact .inr ⟨k, by omega, by omega, hk,
              fun j hj => hbefore j (by omega)⟩
      · rw [attempts, if_neg hretry, List.mem_singleton]
        constructor
        · rintro rfl
          exact ⟨cnt, by omega, by omega, rfl, by omega⟩
        · rintro ⟨k, hle, hlt, hk, hbefore⟩
          have hcnt : k = cnt := by
            by_contra hne
            exact hretry (hbefore cnt (by omega) (by omega))
          rw [← hk, hcnt]

theorem attempts_eq_append_settled (budget cnt : Nat) :
    ∃ retried, (∀ a ∈ retried, retry a = true) ∧
      attempts retry outcome budget cnt =
        retried ++ (settled retry outcome budget cnt).toList := by
  induction budget generalizing cnt with
  | zero => exact ⟨[], by simp, by simp [attempts, settled]⟩
  | succ budget ih =>
      by_cases hretry : retry (outcome cnt) = true
      · obtain ⟨retried, hall, heq⟩ := ih (cnt + 1)
        refine ⟨outcome cnt :: retried, ?_, ?_⟩
        · simpa [hretry] using hall
        · simp [attempts, settled, hretry, heq]
      · exact ⟨[], by simp, by simp [attempts, settled, hretry]⟩

theorem attempts_end {budget cnt : Nat} {a : α} (ha : retry a = false)
    {before after : List α}
    (h : attempts retry outcome budget cnt = before ++ a :: after) :
    after = [] := by
  induction budget generalizing cnt before with
  | zero => simp [attempts] at h
  | succ budget ih =>
      by_cases hretry : retry (outcome cnt) = true
      · rw [attempts, if_pos hretry] at h
        cases before with
        | nil =>
            rw [List.nil_append, List.cons.injEq] at h
            rw [h.1, ha] at hretry
            contradiction
        | cons first before =>
            rw [List.cons_append, List.cons.injEq] at h
            exact ih h.2
      · rw [attempts, if_neg hretry] at h
        cases before with
        | nil =>
            rw [List.nil_append, List.cons.injEq] at h
            exact h.2.symm
        | cons first before => simp at h

theorem settled_eq_some_iff {budget cnt : Nat} {a : α} :
    settled retry outcome budget cnt = some a ↔
      ∃ k, cnt ≤ k ∧ k < cnt + budget ∧ outcome k = a ∧ retry a = false ∧
        ∀ j, cnt ≤ j → j < k → retry (outcome j) = true := by
  induction budget generalizing cnt with
  | zero =>
      simp only [settled, reduceCtorEq, false_iff, not_exists]
      omega
  | succ budget ih =>
      by_cases hretry : retry (outcome cnt) = true
      · rw [settled, if_pos hretry, ih]
        constructor
        · rintro ⟨k, hle, hlt, hk, ha, hbefore⟩
          refine ⟨k, by omega, by omega, hk, ha, fun j hj hjk => ?_⟩
          by_cases hcnt : j = cnt
          · rwa [hcnt]
          · exact hbefore j (by omega) hjk
        · rintro ⟨k, hle, hlt, hk, ha, hbefore⟩
          have hne : k ≠ cnt := by
            rintro rfl
            simp [hk, ha] at hretry
          exact ⟨k, by omega, by omega, hk, ha,
            fun j hj => hbefore j (by omega)⟩
      · rw [settled, if_neg hretry]
        constructor
        · intro h
          cases h
          exact ⟨cnt, by omega, by omega, rfl, by simpa using hretry,
            by omega⟩
        · rintro ⟨k, hle, hlt, hk, ha, hbefore⟩
          have hcnt : k = cnt := by
            by_contra hne
            exact hretry (hbefore cnt (by omega) (by omega))
          rw [← hk, hcnt]

theorem settled_eq_none_iff {budget cnt : Nat} :
    settled retry outcome budget cnt = none ↔
      ∀ k, cnt ≤ k → k < cnt + budget → retry (outcome k) = true := by
  induction budget generalizing cnt with
  | zero =>
      simp only [settled, true_iff]
      omega
  | succ budget ih =>
      by_cases hretry : retry (outcome cnt) = true
      · rw [settled, if_pos hretry, ih]
        constructor
        · intro h k hle hlt
          by_cases hcnt : k = cnt
          · rwa [hcnt]
          · exact h k (by omega) (by omega)
        · intro h k hle hlt
          exact h k (by omega) (by omega)
      · rw [settled, if_neg hretry]
        simp only [reduceCtorEq, false_iff]
        intro h
        exact hretry (h cnt (by omega) (by omega))

end Pview.Foundation.Retry
