import Mathlib.Data.List.Basic

/-!
# Cutting a list into groups

`CutInto limit rows groups` says that `groups` are consecutive stretches of
`rows`, none of them empty and all but the last one of length `limit`.
-/

namespace Pview.Foundation

variable {α : Type*}

structure CutInto (limit : Nat) (rows : List α) (groups : List (List α)) :
    Prop where
  flatten : groups.flatten = rows
  nonempty : ∀ group ∈ groups, group ≠ []
  bounded : ∀ group ∈ groups, group.length ≤ limit
  full : ∀ group ∈ groups.dropLast, group.length = limit

instance [DecidableEq α] (limit : Nat) (rows : List α)
    (groups : List (List α)) : Decidable (CutInto limit rows groups) :=
  decidable_of_iff
    (groups.flatten = rows ∧ (∀ group ∈ groups, group ≠ []) ∧
      (∀ group ∈ groups, group.length ≤ limit) ∧
      ∀ group ∈ groups.dropLast, group.length = limit)
    ⟨fun ⟨hflatten, hnonempty, hbounded, hfull⟩ =>
        ⟨hflatten, hnonempty, hbounded, hfull⟩,
      fun h => ⟨h.flatten, h.nonempty, h.bounded, h.full⟩⟩

theorem CutInto.nil (limit : Nat) : CutInto limit ([] : List α) [] := by
  constructor <;> simp

theorem CutInto.cons {limit : Nat} {group rows : List α}
    {groups : List (List α)} (h : CutInto limit rows groups)
    (hne : group ≠ []) (hbounded : group.length ≤ limit)
    (hfull : rows ≠ [] → group.length = limit) :
    CutInto limit (group ++ rows) (group :: groups) := by
  constructor
  · simp [h.flatten]
  · simpa [hne] using h.nonempty
  · simpa [hbounded] using h.bounded
  · cases groups with
    | nil => simp
    | cons next groups =>
        have hrows : rows ≠ [] := by
          rw [← h.flatten]
          simp [h.nonempty next (by simp)]
        simpa [hfull hrows] using h.full

theorem CutInto.exists {limit : Nat} (hlimit : 0 < limit) (rows : List α) :
    ∃ groups, CutInto limit rows groups := by
  induction hlength : rows.length using Nat.strongRecOn
    generalizing rows with
  | ind length ih =>
      by_cases hrows : rows = []
      · exact ⟨[], hrows ▸ .nil limit⟩
      · have hpos : 0 < rows.length := List.length_pos_iff.mpr hrows
        obtain ⟨groups, hgroups⟩ := ih (rows.drop limit).length
          (by rw [List.length_drop]; omega) (rows.drop limit) rfl
        refine ⟨rows.take limit :: groups, ?_⟩
        have hcut : CutInto limit (rows.take limit ++ rows.drop limit)
            (rows.take limit :: groups) := by
          apply hgroups.cons
          · rw [← List.length_pos_iff, List.length_take]
            omega
          · rw [List.length_take]
            omega
          · intro hmore
            rw [← List.length_pos_iff, List.length_drop] at hmore
            rw [List.length_take]
            omega
        rwa [List.take_append_drop] at hcut

theorem CutInto.tail {limit : Nat} {group rows : List α}
    {groups : List (List α)} (h : CutInto limit rows (group :: groups)) :
    CutInto limit groups.flatten groups where
  flatten := rfl
  nonempty := fun g hg => h.nonempty g (List.mem_cons_of_mem _ hg)
  bounded := fun g hg => h.bounded g (List.mem_cons_of_mem _ hg)
  full := by
    cases groups with
    | nil => simp
    | cons next groups => exact fun g hg => h.full g (List.mem_cons_of_mem _ hg)

theorem CutInto.head {limit : Nat} {group rows : List α}
    {groups : List (List α)} (h : CutInto limit rows (group :: groups)) :
    group = rows.take limit := by
  have hrows : group ++ groups.flatten = rows := by
    rw [← h.flatten, List.flatten_cons]
  have hbounded := h.bounded group List.mem_cons_self
  cases groups with
  | nil =>
      rw [← hrows, List.flatten_nil, List.append_nil,
        List.take_of_length_le hbounded]
  | cons next groups =>
      have hfull := h.full group List.mem_cons_self
      rw [← hrows, List.take_left' hfull]

theorem CutInto.unique {limit : Nat} {rows : List α}
    {groups groups' : List (List α)} (h : CutInto limit rows groups)
    (h' : CutInto limit rows groups') : groups = groups' := by
  induction groups generalizing rows groups' with
  | nil =>
      cases groups' with
      | nil => rfl
      | cons group' groups' =>
          have hflatten := h'.flatten
          rw [← h.flatten, List.flatten_nil, List.flatten_cons,
            List.append_eq_nil_iff] at hflatten
          exact absurd hflatten.1 (h'.nonempty group' List.mem_cons_self)
  | cons group groups ih =>
      cases groups' with
      | nil =>
          have hflatten := h.flatten
          rw [← h'.flatten, List.flatten_nil, List.flatten_cons,
            List.append_eq_nil_iff] at hflatten
          exact absurd hflatten.1 (h.nonempty group List.mem_cons_self)
      | cons group' groups' =>
          have hhead : group = group' := h.head.trans h'.head.symm
          subst hhead
          have hflatten := h.flatten.trans h'.flatten.symm
          rw [List.flatten_cons, List.flatten_cons,
            List.append_cancel_left_eq] at hflatten
          have htail := h'.tail
          rw [← hflatten] at htail
          rw [ih h.tail htail]

end Pview.Foundation
