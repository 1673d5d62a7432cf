import Mathlib.Data.List.Nodup
import Pview.Foundation.Allocation

/-!
# Numbered things in many places

`held place` lists the numbers of the things at a place.  Things are made with
numbers from a counter, moved from place to place and thrown away, but never
copied: so no number is ever found twice.
-/

namespace Pview.Foundation

variable {π : Type*} {held held' : π → List Int} {next next' : Int}

structure Inventory (held : π → List Int) (next : Int) : Prop extends
    Allocated (fun place id => id ∈ held place) next where
  nodup : ∀ place, (held place).Nodup

namespace Inventory

theorem restart (h : Inventory held next)
    (hsub : ∀ place, (held' place).Sublist (held place))
    (hbelow : ∀ place, ∀ id ∈ held' place, id < next') :
    Inventory held' next' where
  toAllocated := h.toAllocated.restart
    (fun place _ hid => (hsub place).subset hid) hbelow
  nodup place := (h.nodup place).sublist (hsub place)

theorem mono (h : Inventory held next)
    (hsub : ∀ place, (held' place).Sublist (held place)) :
    Inventory held' next :=
  h.restart hsub fun place id hid => h.below place id ((hsub place).subset hid)

theorem make [DecidableEq π] (h : Inventory held next) {a : π}
    (ha : held' a = held a ++ [next])
    (hother : ∀ place, place ≠ a → held' place = held place) :
    Inventory held' (next + 1) where
  toAllocated := by
    refine h.toAllocated.draw a fun place id hid => ?_
    by_cases hplace : place = a
    · rw [hplace, ha, List.mem_append, List.mem_singleton] at hid
      exact hid.imp (fun hold => hplace ▸ hold) fun hnext => ⟨hplace, hnext⟩
    · rw [hother place hplace] at hid
      exact .inl hid
  nodup place := by
    by_cases hplace : place = a
    · rw [hplace, ha, List.nodup_append]
      refine ⟨h.nodup a, List.nodup_singleton next, ?_⟩
      intro id hid id' hid' heq
      rw [List.mem_singleton] at hid'
      have hlt := h.below a id hid
      omega
    · rw [hother place hplace]
      exact h.nodup place

theorem transfer [DecidableEq π] (h : Inventory held next) {a b : π}
    (hab : a ≠ b) (moved : List Int)
    (hfrom : (moved ++ held' a).Sublist (held a))
    (hb : held' b = held b ++ moved)
    (hother : ∀ place, place ≠ a → place ≠ b → held' place = held place) :
    Inventory held' next := by
  have hmoved : ∀ id ∈ moved, id ∈ held a := fun id hid =>
    hfrom.subset (List.mem_append_left _ hid)
  have hrest : ∀ id ∈ held' a, id ∈ held a := fun id hid =>
    hfrom.subset (List.mem_append_right _ hid)
  have hnodup := List.nodup_append.mp ((h.nodup a).sublist hfrom)
  -- Where a number is now, it was before, unless it has been moved.
  have hwas : ∀ place, ∀ id ∈ held' place,
      id ∈ held place ∨ place = b ∧ id ∈ moved := by
    intro place id hid
    by_cases hplace : place = b
    · rw [hplace, hb, List.mem_append] at hid
      exact hid.imp (fun hold => hplace ▸ hold) fun hnew => ⟨hplace, hnew⟩
    · by_cases hsource : place = a
      · exact .inl (hsource ▸ hrest id (hsource ▸ hid))
      · rw [hother place hsource hplace] at hid
        exact .inl hid
  have hleft : ∀ id ∈ moved, ∀ place, id ∈ held' place → place = b := by
    intro id hid place hplace
    rcases hwas place id hplace with hold | ⟨hb, -⟩
    · have ha := h.unique place a id hold (hmoved id hid)
      rw [ha] at hplace
      exact absurd rfl (hnodup.2.2 id hid id hplace)
    · exact hb
  refine { unique := ?_, below := ?_, nodup := ?_ }
  · intro place place' id hid hid'
    rcases hwas place id hid with hold | ⟨hplace, hnew⟩
    · rcases hwas place' id hid' with hold' | ⟨hplace', hnew'⟩
      · exact h.unique place place' id hold hold'
      · exact (hleft id hnew' place hid).trans hplace'.symm
    · exact hplace.trans (hleft id hnew place' hid').symm
  · intro place id hid
    rcases hwas place id hid with hold | ⟨-, hnew⟩
    · exact h.below place id hold
    · exact h.below a id (hmoved id hnew)
  · intro place
    by_cases hplace : place = b
    · rw [hplace, hb, List.nodup_append]
      refine ⟨h.nodup b, hnodup.1, ?_⟩
      intro id hid id' hid' heq
      exact hab (h.unique a b id (heq ▸ hmoved id' hid') hid)
    · by_cases hsource : place = a
      · exact hsource ▸ hnodup.2.1
      · exact hother place hsource hplace ▸ h.nodup place

end Inventory

end Pview.Foundation
