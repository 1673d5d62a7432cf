import Mathlib.Algebra.BigOperators.Fin
import Mathlib.Data.Prod.Lex
import Pview.Foundation.Transition

/-!
# Termination of a transition system

Some steps of a system, such as a sleep in a polling loop, can be repeated for
ever.  A system terminates with respect to the other ones, the `proper` steps,
when there is no infinite run of these.  If a proper step is possible wherever
the goal is not reached, then every scheduler that takes proper steps reaches
it.
-/

namespace Pview.Foundation

namespace System

variable {σ α : Type*} {S : System σ α} {proper : σ → α → Prop}

def Follows (S : System σ α) (proper : σ → α → Prop) (s' s : σ) : Prop :=
  ∃ a, proper s a ∧ S.step s a = some s'

def Terminates (S : System σ α) (proper : σ → α → Prop) : Prop :=
  WellFounded (S.Follows proper)

theorem Terminates.of_measure {β : Type*} [LT β] [WellFoundedLT β] (μ : σ → β)
    (h : ∀ s a s', proper s a → S.step s a = some s' → μ s' < μ s) :
    S.Terminates proper := by
  apply Subrelation.wf _ (InvImage.wf μ wellFounded_lt)
  rintro s' s ⟨a, ha, hstep⟩
  exact h s a s' ha hstep

theorem Terminates.exists_run (hterm : S.Terminates proper)
    {I goal : σ → Prop}
    (hinv : ∀ {s s' : σ} {a : α}, I s → S.step s a = some s' → I s')
    (hstep : ∀ s, I s → ¬goal s → ∃ s', S.Follows proper s' s)
    {s : σ} (hs : I s) : ∃ schedule s',
      S.run s schedule = some s' ∧ goal s' := by
  induction s using hterm.induction with
  | _ s ih =>
      by_cases hgoal : goal s
      · exact ⟨[], s, rfl, hgoal⟩
      · obtain ⟨next, a, ha, htaken⟩ := hstep s hs hgoal
        obtain ⟨schedule, s', hrun, hs'⟩ :=
          ih next ⟨a, ha, htaken⟩ (hinv hs htaken)
        exact ⟨a :: schedule, s', by simpa [run, htaken] using hrun, hs'⟩

end System

/-! ## Measures summed over a family -/

section Total

variable {ι β : Type*} [Fintype ι]

def total (weight : β → Nat) (f : ι → β) : Nat := ∑ i, weight (f i)

theorem total_update [DecidableEq ι] (weight : β → Nat) (f : ι → β) (i : ι)
    (value : β) :
    total weight (Function.update f i value) + weight (f i) =
      total weight f + weight value := by
  have hrest : ∑ j ∈ Finset.univ.erase i,
      weight (Function.update f i value j) =
        ∑ j ∈ Finset.univ.erase i, weight (f j) := by
    refine Finset.sum_congr rfl fun j hj => ?_
    rw [Function.update_of_ne (Finset.ne_of_mem_erase hj)]
  unfold total
  rw [← Finset.add_sum_erase _ _ (Finset.mem_univ i),
    ← Finset.add_sum_erase _ (fun j => weight (f j)) (Finset.mem_univ i),
    Function.update_self, hrest]
  omega

end Total

end Pview.Foundation
