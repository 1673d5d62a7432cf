import Mathlib.Data.Fintype.Basic
import Pview.Foundation.Transition

/-!
# Condition variables

A thread that waits on a condition variable passes through a few phases.  The
map from threads to phases is all that notification looks at; `Woken f g` says
that `g` is `f` with some waiting threads moved to `notified`, which is the
only thing a notification can do.
-/

namespace Pview.Foundation.CondVar

inductive Phase where
  | running
  /-- Holds the mutex and has found its wait predicate false. -/
  | blocking
  /-- Has released the mutex and is not notified. -/
  | waiting
  /-- Notified, and has not locked the mutex again. -/
  | notified
  | finished
  deriving DecidableEq, Repr

variable {ι : Type*}

def notifyAll (phase : ι → Phase) : ι → Phase := fun i =>
  if phase i = .waiting then .notified else phase i

/-- Wake the waiting thread `wake`; nobody only if nobody waits. -/
def notifyOne [Fintype ι] [DecidableEq ι] (phase : ι → Phase)
    (wake : Option ι) : Option (ι → Phase) :=
  match wake with
  | some i =>
      if phase i = .waiting then
        some (Function.update phase i .notified)
      else
        none
  | none => if ∀ i, phase i ≠ .waiting then some phase else none

def Woken (f g : ι → Phase) : Prop :=
  ∀ i, g i = f i ∨ f i = .waiting ∧ g i = .notified

theorem Woken.refl (f : ι → Phase) : Woken f f := fun _ => .inl rfl

theorem Woken.of_notifyAll (f : ι → Phase) : Woken f (notifyAll f) := by
  intro i
  unfold notifyAll
  split
  · exact .inr ⟨by assumption, rfl⟩
  · exact .inl rfl

theorem Woken.of_notifyOne [Fintype ι] [DecidableEq ι] {f g : ι → Phase}
    {wake : Option ι} (h : notifyOne f wake = some g) : Woken f g := by
  intro i
  cases wake with
  | none =>
      simp only [notifyOne, Option.ite_none_right_eq_some] at h
      exact .inl (by rw [Option.some.inj h.2])
  | some j =>
      simp only [notifyOne, Option.ite_none_right_eq_some] at h
      rw [← Option.some.inj h.2]
      by_cases hij : i = j
      · subst hij
        exact .inr ⟨h.1, by simp⟩
      · exact .inl (by simp [hij])

theorem Woken.eq_iff {f g : ι → Phase} (h : Woken f g) {phase : Phase}
    (hwaiting : phase ≠ .waiting) (hnotified : phase ≠ .notified) (i : ι) :
    g i = phase ↔ f i = phase := by
  rcases h i with heq | ⟨hf, hg⟩
  · rw [heq]
  · rw [hf, hg]
    simp [hwaiting.symm, hnotified.symm]

theorem Woken.waiting {f g : ι → Phase} (h : Woken f g) {i : ι}
    (hi : g i = .waiting) : f i = .waiting := by
  rcases h i with heq | ⟨hf, -⟩
  · rw [← heq, hi]
  · exact hf

theorem notifyAll_ne_waiting (f : ι → Phase) (i : ι) :
    notifyAll f i ≠ .waiting := by
  unfold notifyAll
  split <;> simp_all

theorem exists_ne_waiting_of_notifyOne [Fintype ι] [DecidableEq ι]
    [Nonempty ι] {f g : ι → Phase} {wake : Option ι}
    (h : notifyOne f wake = some g) : ∃ i, g i ≠ .waiting := by
  cases wake with
  | none =>
      simp only [notifyOne, Option.ite_none_right_eq_some] at h
      rw [← Option.some.inj h.2]
      exact ⟨Classical.arbitrary ι, h.1 _⟩
  | some i =>
      simp only [notifyOne, Option.ite_none_right_eq_some] at h
      refine ⟨i, ?_⟩
      rw [← Option.some.inj h.2]
      simp

theorem exists_notifyOne [Fintype ι] [DecidableEq ι] (f : ι → Phase) :
    ∃ wake g, notifyOne f wake = some g := by
  by_cases hnone : ∀ i, f i ≠ .waiting
  · exact ⟨none, f, by simp [notifyOne, hnone]⟩
  · simp only [not_forall, not_not] at hnone
    obtain ⟨i, hi⟩ := hnone
    exact ⟨some i, Function.update f i .notified, by simp [notifyOne, hi]⟩

/-- A thread that wakes up checks its predicate and may wait again. -/
def phaseWeight : Phase → Nat
  | .notified => 3
  | .running => 2
  | .blocking => 1
  | .waiting | .finished => 0

def Awake (f : ι → Phase) : Prop :=
  ∀ i, f i ≠ .waiting ∧ f i ≠ .blocking

theorem Awake.update [DecidableEq ι] {f : ι → Phase} (h : Awake f) {i : ι}
    {phase : Phase} (hwaiting : phase ≠ .waiting)
    (hblocking : phase ≠ .blocking) : Awake (Function.update f i phase) := by
  intro j
  constructor
  · intro hj
    rcases update_eq_cases hj with ⟨-, hphase⟩ | hj
    · exact hwaiting hphase
    · exact (h j).1 hj
  · intro hj
    rcases update_eq_cases hj with ⟨-, hphase⟩ | hj
    · exact hblocking hphase
    · exact (h j).2 hj

theorem Awake.woken {f g : ι → Phase} (h : Awake f) (hwoken : Woken f g) :
    Awake g := by
  intro i
  constructor
  · exact fun hi => (h i).1 (hwoken.waiting hi)
  · rw [Ne, hwoken.eq_iff (by simp) (by simp)]
    exact (h i).2

theorem awake_notifyAll {f : ι → Phase} (h : ∀ i, f i ≠ .blocking) :
    Awake (notifyAll f) := by
  intro i
  refine ⟨notifyAll_ne_waiting f i, ?_⟩
  rw [Ne, (Woken.of_notifyAll f).eq_iff (by simp) (by simp)]
  exact h i

/-! ## Suspended threads -/

def Phase.Suspended (phase : Phase) : Prop :=
  phase = .blocking ∨ phase = .waiting ∨ phase = .notified

instance (phase : Phase) : Decidable phase.Suspended :=
  inferInstanceAs (Decidable (_ ∨ _ ∨ _))

def suspended [Fintype ι] (phase : ι → Phase) : Finset ι :=
  Finset.univ.filter fun i => (phase i).Suspended

@[simp] theorem mem_suspended [Fintype ι] {f : ι → Phase} {i : ι} :
    i ∈ suspended f ↔ (f i).Suspended := by
  simp [suspended]

theorem Woken.suspended_iff {f g : ι → Phase} (h : Woken f g) (i : ι) :
    (g i).Suspended ↔ (f i).Suspended := by
  rcases h i with heq | ⟨hf, hg⟩
  · rw [heq]
  · simp [Phase.Suspended, hf, hg]

theorem Woken.suspended_eq [Fintype ι] {f g : ι → Phase} (h : Woken f g) :
    suspended g = suspended f := by
  ext i
  rw [mem_suspended, mem_suspended, h.suspended_iff]

theorem suspended_update [Fintype ι] [DecidableEq ι] {f : ι → Phase} {i : ι}
    {phase : Phase} (h : phase.Suspended) :
    suspended (Function.update f i phase) = insert i (suspended f) := by
  ext j
  by_cases hji : j = i
  · simp [hji, h]
  · simp [hji]

theorem suspended_update_of_not [Fintype ι] [DecidableEq ι] {f : ι → Phase}
    {i : ι} {phase : Phase} (hi : ¬(f i).Suspended) (h : ¬phase.Suspended) :
    suspended (Function.update f i phase) = suspended f := by
  ext j
  by_cases hji : j = i
  · simp [hji, h, hi]
  · simp [hji]

end Pview.Foundation.CondVar
