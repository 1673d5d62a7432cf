import Mathlib.Data.Nat.Basic

/-!
# Convergence of fuel-bounded evaluations

Loops and recursions whose termination is itself a question are evaluated
with an explicit fuel and return `none` when it runs out.  `Converges f out`
says that the evaluation `f` is total in the only sense that matters: from
some amount of fuel on it returns `out`, whatever the surplus.
-/

namespace Pview.Foundation

variable {α β : Type*}

/-- From some fuel on, `f` returns `out`. -/
def Converges (f : Nat → Option α) (out : α) : Prop :=
  ∃ bound, ∀ fuel, bound ≤ fuel → f fuel = some out

def FuelMono (f : Nat → Option α) : Prop :=
  ∀ fuel out, f fuel = some out → f (fuel + 1) = some out

theorem FuelMono.le {f : Nat → Option α} (hf : FuelMono f) {fuel₁ fuel₂ : Nat}
    (h : fuel₁ ≤ fuel₂) {out : α} (hout : f fuel₁ = some out) :
    f fuel₂ = some out := by
  obtain ⟨extra, rfl⟩ := Nat.exists_eq_add_of_le h
  clear h
  induction extra with
  | zero => exact hout
  | succ extra ih => exact hf _ _ ih

theorem FuelMono.converges {f : Nat → Option α} (hf : FuelMono f)
    {fuel : Nat} {out : α} (hout : f fuel = some out) : Converges f out :=
  ⟨fuel, fun _ hle => hf.le hle hout⟩

theorem FuelMono.map {f : Nat → Option α} (hf : FuelMono f) (g : α → β) :
    FuelMono fun fuel => (f fuel).map g := by
  intro fuel out h
  obtain ⟨value, hvalue, rfl⟩ := Option.map_eq_some_iff.mp h
  simp [hf fuel value hvalue]

theorem FuelMono.bind {f : Nat → Option α} {g : α → Nat → Option β}
    (hf : FuelMono f) (hg : ∀ value, FuelMono (g value)) :
    FuelMono fun fuel => (f fuel).bind fun value => g value fuel := by
  intro fuel out h
  obtain ⟨value, hvalue, hout⟩ := Option.bind_eq_some_iff.mp h
  simp [hf fuel value hvalue, hg value fuel out hout]

theorem Converges.unique {f : Nat → Option α} {out₁ out₂ : α}
    (h₁ : Converges f out₁) (h₂ : Converges f out₂) : out₁ = out₂ := by
  obtain ⟨bound₁, hbound₁⟩ := h₁
  obtain ⟨bound₂, hbound₂⟩ := h₂
  have heq := (hbound₁ (max bound₁ bound₂) (le_max_left _ _)).symm.trans
    (hbound₂ (max bound₁ bound₂) (le_max_right _ _))
  exact Option.some.inj heq

theorem Converges.map {f : Nat → Option α} {out : α} (h : Converges f out)
    (g : α → β) : Converges (fun fuel => (f fuel).map g) (g out) := by
  obtain ⟨bound, hbound⟩ := h
  exact ⟨bound, fun fuel hle => by simp [hbound fuel hle]⟩

theorem Converges.of_forall {f : Nat → Option α} {g : Nat → Option β}
    {report : α → β} {out : α} (h : Converges f out)
    (hg : ∀ fuel out, f fuel = some out → g fuel = some (report out)) :
    Converges g (report out) := by
  obtain ⟨bound, hbound⟩ := h
  exact ⟨bound, fun fuel hle => hg fuel out (hbound fuel hle)⟩

theorem Converges.bind {f : Nat → Option α} {g : α → Nat → Option β}
    {mid : α} {out : β} (hf : Converges f mid) (hg : Converges (g mid) out) :
    Converges (fun fuel => (f fuel).bind fun value => g value fuel) out := by
  obtain ⟨bound₁, hbound₁⟩ := hf
  obtain ⟨bound₂, hbound₂⟩ := hg
  refine ⟨max bound₁ bound₂, fun fuel hle => ?_⟩
  simp [hbound₁ fuel (by omega), hbound₂ fuel (by omega)]

theorem Converges.of_succ {f g : Nat → Option α} {out : α}
    (h : Converges g out) (hstep : ∀ fuel, f (fuel + 1) = g fuel) :
    Converges f out := by
  obtain ⟨bound, hbound⟩ := h
  refine ⟨bound + 1, fun fuel hle => ?_⟩
  cases fuel with
  | zero => omega
  | succ fuel => rw [hstep, hbound fuel (by omega)]

theorem Converges.of_const {f : Nat → Option α} {out : α}
    (h : ∀ fuel, f (fuel + 1) = some out) : Converges f out := by
  refine ⟨1, fun fuel hle => ?_⟩
  cases fuel with
  | zero => omega
  | succ fuel => exact h fuel

end Pview.Foundation
