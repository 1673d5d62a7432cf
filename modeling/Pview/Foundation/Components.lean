import Mathlib.Data.List.Chain
import Mathlib.Data.List.Infix

/-!
# Components of a separated list

A path as the list of its components.  Empty pieces between two separators
count for nothing, so several lists have the same components; a list that
starts with a separator and repeats none is spelled by its components, up to
one separator at the end.
-/

namespace Pview.Foundation

variable {α : Type*} {sep : α}

def NoRepeats (sep : α) (l : List α) : Prop :=
  l.IsChain fun a b => ¬(a = sep ∧ b = sep)

instance [DecidableEq α] (sep : α) (l : List α) :
    Decidable (NoRepeats sep l) :=
  inferInstanceAs (Decidable (l.IsChain _))

theorem NoRepeats.tail {l r : List α} (h : NoRepeats sep (l ++ r)) :
    NoRepeats sep r :=
  h.right_of_append

theorem NoRepeats.head?_ne {l r : List α}
    (h : NoRepeats sep (l ++ sep :: r)) : r.head? ≠ some sep := by
  cases r with
  | nil => simp
  | cons a r =>
      have htail : NoRepeats sep (sep :: a :: r) := h.tail
      rintro ⟨rfl⟩
      exact (List.isChain_cons_cons.mp htail).1 ⟨rfl, rfl⟩

theorem exists_word (sep : α) (l : List α) :
    ∃ word, sep ∉ word ∧ (l = word ∨ ∃ rest, l = word ++ sep :: rest) := by
  by_cases hmem : sep ∈ l
  · obtain ⟨word, rest, hl, hword⟩ := List.eq_append_cons_of_mem hmem
    exact ⟨word, hword, .inr ⟨rest, hl⟩⟩
  · exact ⟨l, hmem, .inl rfl⟩

theorem exists_last_word {l : List α} (hmem : sep ∈ l) :
    ∃ before word, l = before ++ sep :: word ∧ sep ∉ word := by
  obtain ⟨word, before, hl, hword⟩ :=
    List.eq_append_cons_of_mem (List.mem_reverse.mpr hmem)
  refine ⟨before.reverse, word.reverse, ?_, by simpa using hword⟩
  rw [← List.reverse_reverse l, hl]
  simp

/-! ## Components -/

variable [DecidableEq α]

def components (sep : α) (l : List α) : List (List α) :=
  (l.splitOn sep).filter fun piece => !piece.isEmpty

@[simp] theorem components_nil : components sep [] = [] := rfl

theorem components_append (l r : List α) :
    components sep (l ++ sep :: r) = components sep l ++ components sep r := by
  rw [components, List.splitOn_append_cons_self, List.filter_append]
  rfl

@[simp] theorem components_cons (l : List α) :
    components sep (sep :: l) = components sep l :=
  components_append [] l

@[simp] theorem components_concat (l : List α) :
    components sep (l ++ [sep]) = components sep l := by
  rw [components_append, components_nil, List.append_nil]

theorem components_of_notMem {word : List α} (hne : word ≠ [])
    (hword : sep ∉ word) : components sep word = [word] := by
  rw [components, List.splitOn_eq_singleton hword]
  simp [hne]

theorem exists_components_append {s : List α} (hne : s ≠ [])
    (hhead : s.head? ≠ some sep) (pre : List α) (hpre : sep ∉ pre) :
    ∃ word rest, word ≠ [] ∧
      components sep (pre ++ s) = (pre ++ word) :: rest := by
  obtain ⟨word, hword, hs⟩ := exists_word sep s
  have hword' : word ≠ [] := by
    rintro rfl
    rcases hs with rfl | ⟨rest, rfl⟩
    · exact hne rfl
    · exact hhead rfl
  have hsingle : components sep (pre ++ word) = [pre ++ word] :=
    components_of_notMem (by simp [hword']) (by simp [hpre, hword])
  rcases hs with rfl | ⟨rest, rfl⟩
  · exact ⟨s, [], hword', hsingle⟩
  · refine ⟨word, components sep rest, hword', ?_⟩
    rw [← List.append_assoc, components_append, hsingle, List.singleton_append]

theorem components_ne_nil {s : List α} (hne : s ≠ [])
    (hhead : s.head? ≠ some sep) : components sep s ≠ [] := by
  obtain ⟨word, rest, -, hs⟩ :=
    exists_components_append hne hhead [] List.not_mem_nil
  rw [List.nil_append] at hs
  simp [hs]

theorem NoRepeats.spelled {l : List α} (h : NoRepeats sep (sep :: l)) :
    ∃ trail, (trail = [] ∨ trail = [sep]) ∧
      sep :: l = (components sep l).flatMap (sep :: ·) ++ trail := by
  induction hlength : l.length using Nat.strong_induction_on generalizing l with
  | _ length ih =>
      obtain ⟨word, hword, hl⟩ := exists_word sep l
      cases word with
      | nil =>
          rcases hl with rfl | ⟨rest, rfl⟩
          · exact ⟨[sep], .inr rfl, rfl⟩
          · exact absurd rfl (h.head?_ne (l := []))
      | cons a word =>
          have hsingle : components sep (a :: word) = [a :: word] :=
            components_of_notMem (by simp) hword
          rcases hl with rfl | ⟨rest, rfl⟩
          · exact ⟨[], .inl rfl, by simp [hsingle]⟩
          · have hrest : NoRepeats sep (sep :: rest) :=
              NoRepeats.tail (l := sep :: a :: word) h
            obtain ⟨trail, htrail, hspelled⟩ :=
              ih rest.length (by simp [← hlength]; omega) hrest rfl
            refine ⟨trail, htrail, ?_⟩
            rw [components_append, hsingle, hspelled]
            simp

/-! ## One path below another -/

variable {root file : List α}

/-- The components of a path below a root start with those of the root. -/
def StrictlyInside (sep : α) (root file : List α) : Prop :=
  ∃ rest, rest ≠ [] ∧
    components sep file = components sep root ++ rest

theorem StrictlyInside.isPrefix (h : StrictlyInside sep root file)
    (hroot : root.head? = some sep) (hfile : file.head? = some sep)
    (hrootRepeats : NoRepeats sep root) (hfileRepeats : NoRepeats sep file) :
    root <+: file := by
  obtain ⟨rest, hne, hcomponents⟩ := h
  obtain ⟨rootTail, rfl⟩ := List.head?_eq_some_iff.mp hroot
  obtain ⟨fileTail, rfl⟩ := List.head?_eq_some_iff.mp hfile
  obtain ⟨rootTrail, hrootTrail, hrootSpelled⟩ := hrootRepeats.spelled
  obtain ⟨fileTrail, -, hfileSpelled⟩ := hfileRepeats.spelled
  rw [components_cons, components_cons] at hcomponents
  rw [hrootSpelled, hfileSpelled, hcomponents, List.flatMap_append,
    List.append_assoc, List.prefix_append_right_inj]
  cases rest with
  | nil => contradiction
  | cons first rest =>
      rcases hrootTrail with rfl | rfl
      · exact List.nil_prefix
      · simp

theorem strictlyInside_of_concat {dir s : List α} (hne : s ≠ [])
    (hfile : NoRepeats sep (dir ++ [sep] ++ s)) :
    StrictlyInside sep (dir ++ [sep]) (dir ++ [sep] ++ s) ∧
      s.head? ≠ some sep := by
  rw [List.append_assoc, List.singleton_append] at hfile ⊢
  have hhead := hfile.head?_ne
  refine ⟨⟨components sep s, components_ne_nil hne hhead, ?_⟩, hhead⟩
  rw [components_append, components_concat]

/-- A path that merely continues the last name of the root is not below it. -/
theorem not_strictlyInside_of_append {s : List α} (hroot : sep ∈ root)
    (hlast : root.getLast? ≠ some sep) (hne : s ≠ [])
    (hhead : s.head? ≠ some sep) :
    ¬StrictlyInside sep root (root ++ s) := by
  rintro ⟨rest, -, hcomponents⟩
  obtain ⟨before, last, rfl, hsep⟩ := exists_last_word hroot
  have hlast' : last ≠ [] := by
    rintro rfl
    simp at hlast
  obtain ⟨word, more, hword, hnames⟩ :=
    exists_components_append hne hhead last hsep
  rw [List.append_assoc, List.cons_append, components_append,
    components_append, hnames, components_of_notMem hlast' hsep,
    List.append_assoc, List.append_cancel_left_eq] at hcomponents
  simp only [List.singleton_append, List.cons.injEq] at hcomponents
  exact hword (by simpa using hcomponents.1)

end Pview.Foundation
