import Mathlib.Data.List.Infix
import Mathlib.Data.Nat.Find

/-!
# Occurrences of a pattern in a text

Where a pattern stands in a text, and what rewriting a text from left to right
means: the original text is read once, a rule says what is written in place of
the characters in front, and nothing that was written is read again.
-/

namespace Pview.Foundation

variable {α : Type*}

def OccursAt (pattern text : List α) (i : Nat) : Prop :=
  i ≤ text.length ∧ pattern <+: text.drop i

instance [DecidableEq α] (pattern text : List α) (i : Nat) :
    Decidable (OccursAt pattern text i) :=
  inferInstanceAs (Decidable (_ ∧ _))

theorem occursAt_append_left (pattern before rest : List α) (i : Nat) :
    OccursAt pattern (before ++ rest) (before.length + i) ↔
      OccursAt pattern rest i := by
  simp [OccursAt, List.drop_append, List.drop_eq_nil_of_le]

theorem occursAt_zero {pattern text : List α} :
    OccursAt pattern text 0 ↔ pattern <+: text := by
  simp [OccursAt]

@[simp] theorem occursAt_cons_succ {a : α} {pattern text : List α} {i : Nat} :
    OccursAt pattern (a :: text) (i + 1) ↔ OccursAt pattern text i := by
  simp [OccursAt]

theorem OccursAt.exists_eq {pattern text : List α} {i : Nat}
    (h : OccursAt pattern text i) :
    ∃ before after, text = before ++ (pattern ++ after) ∧
      before.length = i := by
  obtain ⟨hle, after, hafter⟩ := h
  refine ⟨text.take i, after, ?_, List.length_take_of_le hle⟩
  rw [hafter, List.take_append_drop]

theorem occursAt_length (before pattern after : List α) :
    OccursAt pattern (before ++ (pattern ++ after)) before.length := by
  simp [OccursAt]

theorem exists_occursAt_iff {pattern text : List α} :
    (∃ i, OccursAt pattern text i) ↔ pattern <:+: text := by
  constructor
  · rintro ⟨i, h⟩
    obtain ⟨before, after, rfl, -⟩ := h.exists_eq
    exact ⟨before, after, by simp⟩
  · rintro ⟨before, after, rfl⟩
    rw [List.append_assoc]
    exact ⟨before.length, occursAt_length before pattern after⟩

theorem exists_first_of_isInfix {pattern text : List α}
    (h : pattern <:+: text) :
    ∃ before after, text = before ++ (pattern ++ after) ∧
      ∀ i < before.length, ¬ OccursAt pattern text i := by
  classical
  have hex := exists_occursAt_iff.mpr h
  obtain ⟨before, after, htext, hbefore⟩ := (Nat.find_spec hex).exists_eq
  exact ⟨before, after, htext, fun i hi => Nat.find_min hex (hbefore ▸ hi)⟩

theorem OccursAt.add_length_le {pattern text : List α} {i : Nat}
    (h : OccursAt pattern text i) : i + pattern.length ≤ text.length := by
  obtain ⟨before, after, rfl, rfl⟩ := h.exists_eq
  simp

theorem OccursAt.lt_length {pattern text : List α} {i : Nat}
    (hne : pattern ≠ []) (h : OccursAt pattern text i) : i < text.length := by
  have hle := h.add_length_le
  have hpos := List.length_pos_iff.mpr hne
  omega

theorem OccursAt.head_mem {mark : α} {pattern before rest : List α} {i : Nat}
    (h : OccursAt (mark :: pattern) (before ++ rest) i)
    (hi : i < before.length) : mark ∈ before := by
  obtain ⟨-, after, hafter⟩ := h
  rw [List.drop_append_of_le_length (by omega),
    List.drop_eq_getElem_cons hi] at hafter
  rw [(List.cons.inj hafter).1]
  exact List.getElem_mem hi

theorem not_infix_iff {pattern text : List α} :
    ¬ pattern <:+: text ↔ ∀ i, ¬ OccursAt pattern text i := by
  rw [← exists_occursAt_iff, not_exists]

theorem not_occursAt_append {mark : α} {pattern before rest : List α}
    (hbefore : mark ∉ before)
    (hrest : ∀ i, ¬ OccursAt (mark :: pattern) rest i) (i : Nat) :
    ¬ OccursAt (mark :: pattern) (before ++ rest) i := by
  intro h
  rcases Nat.lt_or_ge i before.length with hlt | hge
  · exact hbefore (h.head_mem hlt)
  · obtain ⟨k, rfl⟩ := Nat.exists_eq_add_of_le hge
    exact hrest k ((occursAt_append_left _ _ _ _).mp h)

/-! ## Cutting at the leftmost occurrences -/

/-- `pieces` is what stands around the occurrences of `pattern` that are met
when `text` is read from left to right, the next one behind the last. -/
inductive LeftmostCut (pattern : List α) :
    List α → List (List α) → Prop
  | last {text : List α} (hnone : ¬ pattern <:+: text) :
      LeftmostCut pattern text [text]
  | occurrence {before after : List α} {pieces : List (List α)}
      (hfirst : ∀ i < before.length,
        ¬ OccursAt pattern (before ++ (pattern ++ after)) i)
      (hafter : LeftmostCut pattern after pieces) :
      LeftmostCut pattern (before ++ (pattern ++ after)) (before :: pieces)

theorem LeftmostCut.ne_nil {pattern text : List α} {pieces : List (List α)}
    (h : LeftmostCut pattern text pieces) : pieces ≠ [] := by
  cases h <;> simp

theorem LeftmostCut.intercalate_eq {pattern text : List α}
    {pieces : List (List α)} (h : LeftmostCut pattern text pieces) :
    pattern.intercalate pieces = text := by
  induction h with
  | last hnone => exact List.intercalate_singleton
  | occurrence hfirst hafter ih =>
      rw [List.intercalate_cons_of_ne_nil hafter.ne_nil, ih,
        List.append_assoc]

theorem exists_leftmostCut {pattern : List α} (hne : pattern ≠ [])
    (text : List α) : ∃ pieces, LeftmostCut pattern text pieces := by
  induction hlen : text.length using Nat.strong_induction_on
      generalizing text with
  | h n ih =>
      by_cases hfound : pattern <:+: text
      · obtain ⟨before, after, rfl, hfirst⟩ := exists_first_of_isInfix hfound
        have hpos := List.length_pos_iff.mpr hne
        simp only [List.length_append] at hlen
        obtain ⟨pieces, hafter⟩ := ih after.length (by omega) after rfl
        exact ⟨before :: pieces, .occurrence hfirst hafter⟩
      · exact ⟨[text], .last hfound⟩

private theorem length_le_of_first {pattern before after : List α}
    {before' after' : List α}
    (heq : before ++ (pattern ++ after) = before' ++ (pattern ++ after'))
    (hfirst : ∀ i < before.length,
      ¬ OccursAt pattern (before ++ (pattern ++ after)) i) :
    before.length ≤ before'.length := by
  by_contra hlt
  apply hfirst before'.length (by omega)
  rw [heq]
  exact occursAt_length before' pattern after'

theorem LeftmostCut.unique {pattern text : List α}
    {pieces₁ pieces₂ : List (List α)} (h₁ : LeftmostCut pattern text pieces₁)
    (h₂ : LeftmostCut pattern text pieces₂) : pieces₁ = pieces₂ := by
  induction h₁ generalizing pieces₂ with
  | last hnone =>
      cases h₂ with
      | last => rfl
      | occurrence =>
          exact absurd (occursAt_length _ _ _) (not_infix_iff.mp hnone _)
  | @occurrence before after pieces hfirst hafter ih =>
      generalize htext : before ++ (pattern ++ after) = text at h₂
      cases h₂ with
      | last hnone =>
          rw [not_infix_iff, ← htext] at hnone
          exact absurd (occursAt_length before pattern after) (hnone _)
      | occurrence hfirst' hafter' =>
          have hle := length_le_of_first htext hfirst
          have hge := length_le_of_first htext.symm hfirst'
          obtain ⟨rfl, htail⟩ :=
            List.append_inj htext (le_antisymm hle hge)
          obtain rfl := List.append_cancel_left htail
          rw [ih hafter']

theorem isPrefix_append_cons_iff {mark : α} {word before rest : List α}
    (hword : mark ∉ word) :
    word <+: before ++ mark :: rest ↔ word <+: before := by
  refine ⟨fun h => ?_, fun h => h.trans (List.prefix_append _ _)⟩
  rcases List.prefix_or_prefix_of_prefix h (List.prefix_append before _)
    with hshort | ⟨extra, rfl⟩
  · exact hshort
  · rw [List.prefix_append_right_inj] at h
    cases extra with
    | nil => simp
    | cons a extra =>
        obtain ⟨rfl, -⟩ := List.cons_prefix_cons.mp h
        simp at hword

/-- Pieces without the pattern are found again, if the pattern cannot overlap
itself. -/
theorem leftmostCut_intercalate {mark : α} {tail : List α}
    (htail : mark ∉ tail) {pieces : List (List α)} (hne : pieces ≠ [])
    (hpieces : ∀ piece ∈ pieces, ¬ mark :: tail <:+: piece) :
    LeftmostCut (mark :: tail) ((mark :: tail).intercalate pieces)
      pieces := by
  induction pieces with
  | nil => contradiction
  | cons piece pieces ih =>
      obtain ⟨hpiece, hpieces⟩ := List.forall_mem_cons.mp hpieces
      by_cases hmore : pieces = []
      · subst hmore
        rw [List.intercalate_singleton]
        exact .last hpiece
      · rw [List.intercalate_cons_of_ne_nil hmore, List.append_assoc]
        refine .occurrence (fun i hi hoccurs => hpiece ?_) (ih hmore hpieces)
        obtain ⟨-, hstart⟩ := hoccurs
        rw [List.drop_append_of_le_length hi.le,
          List.drop_eq_getElem_cons hi, List.cons_append, List.cons_append,
          List.cons_prefix_cons, isPrefix_append_cons_iff htail,
          ← List.cons_prefix_cons, ← List.drop_eq_getElem_cons hi] at hstart
        exact exists_occursAt_iff.mp ⟨i, hi.le, hstart⟩

/-! ## Rewriting from left to right -/

/-- Where `rule` applies to what is left of the text, it says what is written
and how many characters that stands for; they are skipped.  Any other
character is kept. -/
def rewriteFrom (rule : List α → Option (List α × Nat)) :
    Nat → List α → List α
  | _, [] => []
  | skip + 1, _ :: rest => rewriteFrom rule skip rest
  | 0, a :: rest =>
      match rule (a :: rest) with
      | some (written, width) =>
          written ++ rewriteFrom rule (width - 1) rest
      | none => a :: rewriteFrom rule 0 rest

def rewrite (rule : List α → Option (List α × Nat)) (text : List α) :
    List α :=
  rewriteFrom rule 0 text

section Rewrite

variable {rule : List α → Option (List α × Nat)}

theorem rewriteFrom_eq_rewrite_drop (skip : Nat) (text : List α) :
    rewriteFrom rule skip text = rewrite rule (text.drop skip) := by
  induction text generalizing skip with
  | nil => cases skip <;> simp [rewrite, rewriteFrom]
  | cons a rest ih =>
      cases skip with
      | zero => rfl
      | succ skip => simpa [rewriteFrom] using ih skip

theorem rewrite_cons_of_none {a : α} {rest : List α}
    (h : rule (a :: rest) = none) :
    rewrite rule (a :: rest) = a :: rewrite rule rest := by
  rw [rewrite, rewriteFrom, h, rewrite]

theorem rewrite_append_of_some {found after written : List α}
    (hne : found ≠ [])
    (h : rule (found ++ after) = some (written, found.length)) :
    rewrite rule (found ++ after) = written ++ rewrite rule after := by
  cases found with
  | nil => contradiction
  | cons a found =>
      rw [List.cons_append] at h ⊢
      rw [rewrite, rewriteFrom, h]
      simp [rewriteFrom_eq_rewrite_drop]

theorem rewrite_append_of_none (before rest : List α)
    (h : ∀ i < before.length, rule ((before ++ rest).drop i) = none) :
    rewrite rule (before ++ rest) = before ++ rewrite rule rest := by
  induction before with
  | nil => rfl
  | cons a before ih =>
      have hhere := h 0 (by simp)
      have htail := ih fun i hi => by simpa using h (i + 1) (by simpa using hi)
      rw [List.cons_append] at hhere ⊢
      rw [rewrite_cons_of_none hhere, htail, List.cons_append]

theorem rewrite_append_of_first {pattern before rest : List α}
    (hrule : ∀ text, ¬ pattern <+: text → rule text = none)
    (hfirst : ∀ i < before.length, ¬ OccursAt pattern (before ++ rest) i) :
    rewrite rule (before ++ rest) = before ++ rewrite rule rest := by
  refine rewrite_append_of_none before rest fun i hi => hrule _ ?_
  intro hpattern
  exact hfirst i hi ⟨by simp; omega, hpattern⟩

theorem rewrite_of_not_isInfix {pattern text : List α}
    (hrule : ∀ text, ¬ pattern <+: text → rule text = none)
    (hnone : ¬ pattern <:+: text) : rewrite rule text = text := by
  rw [← List.append_nil text] at hnone ⊢
  rw [rewrite_append_of_first hrule fun i _ => not_infix_iff.mp hnone i]
  rfl

/-- If whatever is written starts with `mark`, a word without `mark` in front
of the rewritten text was there before. -/
theorem isPrefix_of_isPrefix_rewrite {mark : α}
    (hmark : ∀ text written width, rule text = some (written, width) →
      written.head? = some mark)
    {word text : List α} (hword : mark ∉ word)
    (h : word <+: rewrite rule text) : word <+: text := by
  induction word generalizing text with
  | nil => exact List.nil_prefix
  | cons a word ih =>
      obtain ⟨hne, hword⟩ := not_or.mp (List.mem_cons.not.mp hword)
      cases text with
      | nil => simp [rewrite, rewriteFrom] at h
      | cons b rest =>
          cases hrule : rule (b :: rest) with
          | none =>
              rw [rewrite_cons_of_none hrule, List.cons_prefix_cons] at h
              rw [List.cons_prefix_cons]
              exact ⟨h.1, ih hword h.2⟩
          | some found =>
              obtain ⟨written, width⟩ := found
              obtain ⟨tail, rfl⟩ :=
                List.head?_eq_some_iff.mp (hmark _ _ _ hrule)
              rw [rewrite, rewriteFrom, hrule] at h
              exact absurd (List.cons_prefix_cons.mp h).1.symm hne

end Rewrite

end Pview.Foundation
