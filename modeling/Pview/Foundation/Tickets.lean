import Mathlib.Data.List.Nodup
import Mathlib.Data.List.Range
import Mathlib.Logic.Function.Basic

/-!
# Tickets

Tickets are issued in order and each goes into one hand, where it stays until
it is used or discarded.  A ticket that is not `due` may be discarded, a ticket
that is due may only be used.
-/

namespace Pview.Foundation

structure Tickets {ι : Type*} (due : Nat → Prop) (issued : Nat)
    (hands : ι → Option Nat) (used : List Nat) : Prop where
  held : ∀ i t, hands i = some t → t < issued ∧ t ∉ used
  alone : ∀ i j t, hands i = some t → hands j = some t → i = j
  spent : ∀ t ∈ used, t < issued ∧ due t
  nodup : used.Nodup
  covered : ∀ t < issued, due t → t ∈ used ∨ ∃ i, hands i = some t

namespace Tickets

variable {ι : Type*} {due : Nat → Prop} {issued : Nat}
  {hands : ι → Option Nat} {used : List Nat}

theorem empty : Tickets due 0 (fun _ : ι => none) [] := by
  constructor <;> simp

theorem mem_used_iff (h : Tickets due issued hands used)
    (hempty : ∀ i, hands i = none) (t : Nat) :
    t ∈ used ↔ t < issued ∧ due t := by
  constructor
  · exact h.spent t
  · rintro ⟨hissued, hdue⟩
    rcases h.covered t hissued hdue with hused | ⟨i, hi⟩
    · exact hused
    · simp [hempty] at hi

theorem used_perm (h : Tickets due issued hands used)
    (hempty : ∀ i, hands i = none) {total : Nat}
    (htotal : ∀ t, t < issued ∧ due t ↔ t < total) :
    used.Perm (List.range total) := by
  rw [List.perm_ext_iff_of_nodup h.nodup List.nodup_range]
  intro t
  rw [h.mem_used_iff hempty, htotal, List.mem_range]

variable [DecidableEq ι]

theorem issue (h : Tickets due issued hands used) {i : ι}
    (hi : hands i = none) :
    Tickets due (issued + 1) (Function.update hands i (some issued)) used := by
  have hlt : ∀ j t, hands j = some t → t < issued :=
    fun j t hj => (h.held j t hj).1
  constructor
  · intro j t hj
    by_cases hji : j = i
    · simp only [hji, Function.update_self, Option.some.injEq] at hj
      refine ⟨by omega, fun hused => ?_⟩
      have := (h.spent t hused).1
      omega
    · have hheld := h.held j t (by simpa [hji] using hj)
      exact ⟨by omega, hheld.2⟩
  · intro j k t hj hk
    by_cases hji : j = i <;> by_cases hki : k = i
    · rw [hji, hki]
    · simp only [hji, hki, Function.update_self, ne_eq, not_false_iff,
        Function.update_of_ne, Option.some.injEq] at hj hk
      have := hlt k t hk
      omega
    · simp only [hji, hki, Function.update_self, ne_eq, not_false_iff,
        Function.update_of_ne, Option.some.injEq] at hj hk
      have := hlt j t hj
      omega
    · exact h.alone j k t (by simpa [hji] using hj) (by simpa [hki] using hk)
  · intro t ht
    have hspent := h.spent t ht
    exact ⟨by omega, hspent.2⟩
  · exact h.nodup
  · intro t ht hdue
    by_cases hlast : t = issued
    · exact .inr ⟨i, by simp [hlast]⟩
    · refine (h.covered t (by omega) hdue).imp_right ?_
      rintro ⟨j, hj⟩
      have hji : j ≠ i := by
        rintro rfl
        simp [hi] at hj
      exact ⟨j, by simpa [hji] using hj⟩

private theorem other {i j : ι} {t : Nat}
    (hj : Function.update hands i none j = some t) :
    j ≠ i ∧ hands j = some t := by
  by_cases hji : j = i
  · simp [hji] at hj
  · exact ⟨hji, by simpa [hji] using hj⟩

theorem use (h : Tickets due issued hands used) {i : ι} {t : Nat}
    (hi : hands i = some t) (hdue : due t) :
    Tickets due issued (Function.update hands i none) (used ++ [t]) := by
  have hheld := h.held i t hi
  constructor
  · intro j u hj
    have hother := other hj
    have hu := h.held j u hother.2
    have hne : u ≠ t := by
      rintro rfl
      exact hother.1 (h.alone j i u hother.2 hi)
    simp [hu, hne]
  · exact fun j k u hj hk => h.alone j k u (other hj).2 (other hk).2
  · intro u hu
    rcases List.mem_append.mp hu with hu | hu
    · exact h.spent u hu
    · rw [List.mem_singleton.mp hu]
      exact ⟨hheld.1, hdue⟩
  · rw [List.nodup_append_comm]
    exact List.nodup_cons.mpr ⟨hheld.2, h.nodup⟩
  · intro u hu hudue
    by_cases hut : u = t
    · simp [hut]
    · refine (h.covered u hu hudue).imp (List.mem_append_left _) ?_
      rintro ⟨j, hj⟩
      have hji : j ≠ i := by
        rintro rfl
        simp only [hi, Option.some.injEq] at hj
        omega
      exact ⟨j, by simpa [hji] using hj⟩

theorem discard (h : Tickets due issued hands used) {i : ι} {t : Nat}
    (hi : hands i = some t) (hdue : ¬due t) :
    Tickets due issued (Function.update hands i none) used := by
  constructor
  · exact fun j u hj => h.held j u (other hj).2
  · exact fun j k u hj hk => h.alone j k u (other hj).2 (other hk).2
  · exact h.spent
  · exact h.nodup
  · intro u hu hudue
    refine (h.covered u hu hudue).imp_right ?_
    rintro ⟨j, hj⟩
    have hji : j ≠ i := by
      rintro rfl
      simp only [hi, Option.some.injEq] at hj
      exact hdue (hj ▸ hudue)
    exact ⟨j, by simpa [hji] using hj⟩

end Tickets

end Pview.Foundation
