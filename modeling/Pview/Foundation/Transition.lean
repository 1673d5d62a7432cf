import Mathlib.Data.Finset.Piecewise
import Mathlib.Data.Fintype.Basic
import Mathlib.Data.List.Basic

/-!
# Labelled transition systems

A system has one initial state and a partial step function: `step s a` is the
state after action `a`, or `none` when `a` is not enabled in `s`.  Everything
nondeterministic (which thread moves, what a server answers) is in the action.

`ReachWhere ok` collects the states of the runs all of whose steps satisfy
`ok`; an invariant is proved once, by its step lemma, and then holds in every
such state.
-/

namespace Pview.Foundation

structure System (σ α : Type*) where
  init : σ
  step : σ → α → Option σ

namespace System

variable {σ α : Type*}

/-- Execute a finite schedule; `none` as soon as an action is not enabled. -/
def run (S : System σ α) : σ → List α → Option σ
  | s, [] => some s
  | s, a :: schedule => (S.step s a).bind fun s' => S.run s' schedule

/-- States of the runs whose every step satisfies `ok`. -/
inductive ReachWhere (S : System σ α) (ok : σ → α → Prop) : σ → Prop
  | init : ReachWhere S ok S.init
  | step {s s' : σ} {a : α} (before : ReachWhere S ok s) (allowed : ok s a)
      (taken : S.step s a = some s') : ReachWhere S ok s'

def Reachable (S : System σ α) : σ → Prop := S.ReachWhere fun _ _ => True

variable {S : System σ α} {ok : σ → α → Prop}

/-- The invariant rule: what holds initially and is preserved by every allowed
step holds in every reached state. -/
theorem ReachWhere.invariant {I : σ → Prop} (hinit : I S.init)
    (hstep : ∀ {s s' : σ} {a : α}, I s → ok s a → S.step s a = some s' → I s')
    {s : σ} (h : S.ReachWhere ok s) : I s := by
  induction h with
  | init => exact hinit
  | step _ allowed taken ih => exact hstep ih allowed taken

theorem ReachWhere.mono {ok' : σ → α → Prop} {s : σ}
    (h : S.ReachWhere ok s) (hok : ∀ s a, ok s a → ok' s a) :
    S.ReachWhere ok' s := by
  induction h with
  | init => exact .init
  | step _ allowed taken ih => exact .step ih (hok _ _ allowed) taken

theorem ReachWhere.reachable {s : σ} (h : S.ReachWhere ok s) :
    S.Reachable s :=
  h.mono fun _ _ _ => trivial

def Allowed (S : System σ α) (ok : σ → α → Prop) : σ → List α → Prop
  | _, [] => True
  | s, a :: schedule =>
      ok s a ∧ ∀ s', S.step s a = some s' → S.Allowed ok s' schedule

theorem ReachWhere.run {s s' : σ} {schedule : List α}
    (h : S.ReachWhere ok s) (hallowed : S.Allowed ok s schedule)
    (hrun : S.run s schedule = some s') : S.ReachWhere ok s' := by
  induction schedule generalizing s with
  | nil =>
      cases hrun
      exact h
  | cons a schedule ih =>
      obtain ⟨next, hnext, htail⟩ := Option.bind_eq_some_iff.mp hrun
      exact ih (.step h hallowed.1 hnext) (hallowed.2 next hnext) htail

theorem allowed_of_forall {schedule : List α}
    (h : ∀ a ∈ schedule, ∀ s, ok s a) (s : σ) : S.Allowed ok s schedule := by
  induction schedule generalizing s with
  | nil => trivial
  | cons a schedule ih =>
      refine ⟨h a (by simp) s, fun s' _ => ih (fun b hb => h b ?_) s'⟩
      simp [hb]

theorem allowed_of_invariant {I : σ → Prop} {quiet : α → Prop}
    (hok : ∀ {s : σ} {a : α}, I s → quiet a → ok s a)
    (hstep : ∀ {s s' : σ} {a : α}, I s → quiet a → S.step s a = some s' → I s')
    {schedule : List α} (h : ∀ a ∈ schedule, quiet a) {s : σ} (hs : I s) :
    S.Allowed ok s schedule := by
  induction schedule generalizing s with
  | nil => trivial
  | cons a schedule ih =>
      have ha : quiet a := h a List.mem_cons_self
      exact ⟨hok hs ha, fun s' hnext =>
        ih (fun b hb => h b (List.mem_cons_of_mem a hb)) (hstep hs ha hnext)⟩

theorem Allowed.mono {ok' : σ → α → Prop} (hok : ∀ s a, ok s a → ok' s a)
    {schedule : List α} {s : σ} (h : S.Allowed ok s schedule) :
    S.Allowed ok' s schedule := by
  induction schedule generalizing s with
  | nil => trivial
  | cons a schedule ih => exact ⟨hok s a h.1, fun s' hnext => ih (h.2 s' hnext)⟩

theorem run_invariant {I : σ → Prop}
    (hstep : ∀ {s s' : σ} {a : α}, I s → S.step s a = some s' → I s')
    {s s' : σ} {schedule : List α} (hs : I s)
    (hrun : S.run s schedule = some s') : I s' := by
  induction schedule generalizing s with
  | nil =>
      cases hrun
      exact hs
  | cons a schedule ih =>
      obtain ⟨next, hnext, htail⟩ := Option.bind_eq_some_iff.mp hrun
      exact ih (hstep hs hnext) htail

/-- Where a step keeps `P` exactly when it is allowed, and `P` once lost never
comes back, `P` holds after the runs all of whose steps are allowed. -/
theorem iff_allowed {I P : σ → Prop}
    (hstep : ∀ {s s' : σ} {a : α}, I s → S.step s a = some s' → I s')
    (hiff : ∀ {s s' : σ} {a : α}, I s → P s → S.step s a = some s' →
      (P s' ↔ ok s a))
    (hback : ∀ {s s' : σ} {a : α}, I s → S.step s a = some s' → P s' → P s)
    {s s' : σ} {schedule : List α} (hI : I s) (hP : P s)
    (hrun : S.run s schedule = some s') :
    P s' ↔ S.Allowed ok s schedule := by
  induction schedule generalizing s with
  | nil =>
      cases hrun
      exact ⟨fun _ => trivial, fun _ => hP⟩
  | cons a schedule ih =>
      obtain ⟨next, hnext, htail⟩ := Option.bind_eq_some_iff.mp hrun
      have hlost : P s' → P next := by
        intro hs'
        by_contra hnot
        have hstays := run_invariant (I := fun s => I s ∧ ¬P s)
          (fun hs hstep' => ⟨hstep hs.1 hstep', fun h =>
            hs.2 (hback hs.1 hstep' h)⟩) ⟨hstep hI hnext, hnot⟩ htail
        exact hstays.2 hs'
      constructor
      · intro hs'
        refine ⟨(hiff hI hP hnext).1 (hlost hs'), fun next' hnext' => ?_⟩
        cases hnext.symm.trans hnext'
        exact (ih (hstep hI hnext) (hlost hs') htail).1 hs'
      · rintro ⟨hok, htail'⟩
        have hP' := (hiff hI hP hnext).2 hok
        exact (ih (hstep hI hnext) hP' htail).2 (htail' next hnext)

def runWhere (S : System σ α) (ok : σ → α → Prop)
    [∀ s a, Decidable (ok s a)] : σ → List α → Option σ
  | s, [] => some s
  | s, a :: schedule =>
      if ok s a then (S.step s a).bind fun s' => S.runWhere ok s' schedule
      else none

theorem ReachWhere.runWhere [∀ s a, Decidable (ok s a)] {s s' : σ}
    {schedule : List α} (h : S.ReachWhere ok s)
    (hrun : S.runWhere ok s schedule = some s') : S.ReachWhere ok s' := by
  induction schedule generalizing s with
  | nil =>
      cases hrun
      exact h
  | cons a schedule ih =>
      obtain ⟨hallowed, hrun⟩ := Option.ite_none_right_eq_some.mp hrun
      obtain ⟨next, hnext, htail⟩ := Option.bind_eq_some_iff.mp hrun
      exact ih (.step h hallowed hnext) htail

theorem run_of_runWhere [∀ s a, Decidable (ok s a)] {s s' : σ}
    {schedule : List α} (hrun : S.runWhere ok s schedule = some s') :
    S.run s schedule = some s' ∧ S.Allowed ok s schedule := by
  induction schedule generalizing s with
  | nil => exact ⟨hrun, trivial⟩
  | cons a schedule ih =>
      obtain ⟨hallowed, hrun⟩ := Option.ite_none_right_eq_some.mp hrun
      obtain ⟨next, hnext, htail⟩ := Option.bind_eq_some_iff.mp hrun
      have hrest := ih htail
      refine ⟨by simp [run, hnext, hrest.1], hallowed, fun next' hnext' => ?_⟩
      cases hnext.symm.trans hnext'
      exact hrest.2

theorem Reachable.of_run {s : σ} {schedule : List α}
    (hrun : S.run S.init schedule = some s) : S.Reachable s :=
  ReachWhere.run .init (allowed_of_forall (fun _ _ _ => trivial) _) hrun

theorem run_countP {f : σ → Nat} {q : α → Bool}
    (hstep : ∀ {s s' : σ} {a : α}, S.step s a = some s' →
      f s' = f s + if q a then 1 else 0)
    {s s' : σ} {schedule : List α} (hrun : S.run s schedule = some s') :
    f s' = f s + schedule.countP q := by
  induction schedule generalizing s with
  | nil =>
      cases hrun
      simp
  | cons a schedule ih =>
      obtain ⟨next, hnext, htail⟩ := Option.bind_eq_some_iff.mp hrun
      rw [ih htail, hstep hnext, List.countP_cons]
      omega

theorem exists_run_of_measure {I goal : σ → Prop} {P : α → Prop} (μ : σ → Nat)
    (hstep : ∀ s, I s → ¬goal s →
      ∃ a s', P a ∧ S.step s a = some s' ∧ I s' ∧ μ s' < μ s)
    {s : σ} (hs : I s) : ∃ schedule s', (∀ a ∈ schedule, P a) ∧
      S.run s schedule = some s' ∧ goal s' := by
  induction hμ : μ s using Nat.strong_induction_on generalizing s with
  | _ bound ih =>
      by_cases hgoal : goal s
      · exact ⟨[], s, by simp, by simp [run], hgoal⟩
      · obtain ⟨a, next, ha, htaken, hnext, hlt⟩ := hstep s hs hgoal
        obtain ⟨schedule, s', hschedule, hrun, hs'⟩ :=
          ih (μ next) (by omega) hnext rfl
        refine ⟨a :: schedule, s', ?_, ?_, hs'⟩
        · simpa [ha] using hschedule
        · simpa [run, htaken] using hrun

end System

theorem update_eq_cases {ι β : Type*} [DecidableEq ι] {f : ι → β} {i j : ι}
    {value target : β} (h : Function.update f i value j = target) :
    j = i ∧ value = target ∨ f j = target := by
  by_cases hji : j = i
  · subst hji
    exact .inl ⟨rfl, by simpa using h⟩
  · exact .inr (by simpa [hji] using h)

theorem update_all {ι β : Type*} [Fintype ι] [DecidableEq ι] {f g : ι → β}
    {P : (ι → β) → Prop} (hf : P f)
    (hstep : ∀ h i, P h → h i = f i → P (Function.update h i (g i))) :
    P g := by
  have hsome : ∀ passed : Finset ι, P (passed.piecewise g f) := by
    intro passed
    induction passed using Finset.induction_on with
    | empty => rwa [Finset.piecewise_empty]
    | insert i passed hi ih =>
        rw [Finset.piecewise_insert]
        exact hstep _ i ih (Finset.piecewise_eq_of_notMem _ _ _ hi)
  have hall := hsome Finset.univ
  rwa [Finset.piecewise_univ] at hall

end Pview.Foundation
