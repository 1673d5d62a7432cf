import Mathlib.Algebra.Order.Ring.Int

/-!
# Ids from a counter

`claims owner id` says that somewhere in a state `id` stands for `owner`.  As
long as the counter is above every claimed id, an id that is drawn from it is
claimed by nobody else.
-/

namespace Pview.Foundation

variable {τ : Type*} {claims claims' : τ → Int → Prop} {next next' : Int}

structure Allocated (claims : τ → Int → Prop) (next : Int) : Prop where
  unique : ∀ owner owner' id, claims owner id → claims owner' id →
    owner = owner'
  below : ∀ owner id, claims owner id → id < next

theorem Allocated.restart (h : Allocated claims next)
    (hclaims : ∀ owner id, claims' owner id → claims owner id)
    (hbelow : ∀ owner id, claims' owner id → id < next') :
    Allocated claims' next' where
  unique owner owner' id howner howner' :=
    h.unique owner owner' id (hclaims owner id howner)
      (hclaims owner' id howner')
  below := hbelow

theorem Allocated.mono (h : Allocated claims next)
    (hclaims : ∀ owner id, claims' owner id → claims owner id) :
    Allocated claims' next :=
  h.restart hclaims fun owner id hclaim =>
    h.below owner id (hclaims owner id hclaim)

theorem Allocated.draw (h : Allocated claims next) (new : τ)
    (hclaims : ∀ owner id, claims' owner id →
      claims owner id ∨ owner = new ∧ id = next) :
    Allocated claims' (next + 1) where
  unique owner owner' id howner howner' := by
    rcases hclaims owner id howner with hold | ⟨rfl, hnew⟩
    · rcases hclaims owner' id howner' with hold' | ⟨-, hnew'⟩
      · exact h.unique owner owner' id hold hold'
      · have hlt := h.below owner id hold
        omega
    · rcases hclaims owner' id howner' with hold' | ⟨rfl, -⟩
      · have hlt := h.below owner' id hold'
        omega
      · rfl
  below owner id howner := by
    rcases hclaims owner id howner with hold | ⟨-, hnew⟩
    · have hlt := h.below owner id hold
      omega
    · omega

end Pview.Foundation
