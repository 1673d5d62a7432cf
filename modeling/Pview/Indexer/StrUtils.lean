import Mathlib.Data.List.Basic

/-!
# Splitting strings

The loop of `split_string_impl` keeps every piece in front of a delimiter,
empty or not, and the rest only if it is not empty.
-/

namespace Pview.Indexer

variable {α : Type*}

/-- `find` is `str.find(delimiter, prev)`, seen from `prev`. -/
def splitStringImpl (find : (rest : List α) → Option (Fin rest.length))
    (rest : List α) : List (List α) :=
  match find rest with
  | some pos => rest.take pos :: splitStringImpl find (rest.drop (pos + 1))
  | none => if rest.isEmpty then [] else [rest]
termination_by rest.length
decreasing_by
  rw [List.length_drop]
  omega

def splitString (str : String) (delimiter : Char) : List String :=
  (splitStringImpl (List.finIdxOf? delimiter) str.toList).map String.ofList

/-! ## The pieces -/

def dropEmptyLast (pieces : List (List α)) : List (List α) :=
  if pieces.getLast?.all List.isEmpty then pieces.dropLast else pieces

private theorem dropEmptyLast_cons (piece : List α) {pieces : List (List α)}
    (hne : pieces ≠ []) :
    dropEmptyLast (piece :: pieces) = piece :: dropEmptyLast pieces := by
  rw [dropEmptyLast, dropEmptyLast, List.dropLast_cons_of_ne_nil hne,
    List.getLast?_cons_of_ne_nil hne]
  split <;> rfl

theorem mem_of_mem_dropEmptyLast {piece : List α} {pieces : List (List α)}
    (h : piece ∈ dropEmptyLast pieces) : piece ∈ pieces := by
  rw [dropEmptyLast] at h
  split at h
  · exact List.dropLast_subset pieces h
  · exact h

theorem intercalate_dropEmptyLast (delimiter : List α)
    (pieces : List (List α)) :
    delimiter.intercalate (dropEmptyLast pieces) =
        delimiter.intercalate pieces ∨
      delimiter.intercalate (dropEmptyLast pieces) ++ delimiter =
        delimiter.intercalate pieces := by
  match pieces with
  | [] => exact .inl rfl
  | [piece] => cases piece <;> simp [dropEmptyLast]
  | [first, last] => cases last <;> simp [dropEmptyLast]
  | first :: second :: third :: rest =>
      rw [dropEmptyLast_cons first (by simp),
        dropEmptyLast_cons second (by simp), List.intercalate_cons_cons,
        List.intercalate_cons_cons, ← dropEmptyLast_cons second (by simp)]
      simpa using intercalate_dropEmptyLast delimiter
        (second :: third :: rest)

variable [DecidableEq α]

theorem splitStringImpl_eq_splitOn (delimiter : α) (str : List α) :
    splitStringImpl (List.finIdxOf? delimiter) str =
      dropEmptyLast (str.splitOn delimiter) := by
  fun_induction splitStringImpl (List.finIdxOf? delimiter) str with
  | case1 rest pos hfind ih =>
      obtain ⟨hpos, hbefore⟩ := List.finIdxOf?_eq_some_iff.mp hfind
      have hpiece : delimiter ∉ rest.take pos := by
        intro hmem
        obtain ⟨i, hi, heq⟩ := List.mem_take_iff_getElem.mp hmem
        exact hbefore ⟨i, by omega⟩ (by simp [Fin.lt_def]; omega) heq
      have hrest : rest = rest.take pos ++ delimiter :: rest.drop (pos + 1) := by
        rw [← hpos]
        simp
      rw [ih]
      conv_rhs => rw [hrest]
      rw [List.splitOn_append_cons_self_of_not_mem hpiece,
        dropEmptyLast_cons _ (List.splitOn_ne_nil _ _)]
  | case2 rest hfind hempty =>
      rw [List.isEmpty_iff.mp hempty]
      rfl
  | case3 rest hfind hne =>
      rw [List.splitOn_eq_singleton (List.finIdxOf?_eq_none_iff.mp hfind),
        dropEmptyLast, if_neg]
      simpa using hne

theorem notMem_of_mem_splitOn {delimiter : α} {str piece : List α}
    (h : piece ∈ str.splitOn delimiter) : delimiter ∉ piece := by
  induction str generalizing piece with
  | nil => simp_all
  | cons a str ih =>
      rw [List.splitOn_cons_eq_if_modifyHead] at h
      split at h
      · rcases List.mem_cons.mp h with rfl | h
        · simp
        · exact ih h
      · rename_i hne
        obtain ⟨first, rest, hsplit⟩ :=
          List.exists_cons_of_ne_nil (List.splitOn_ne_nil delimiter str)
        rw [hsplit, List.modifyHead_cons, List.mem_cons] at h
        rw [hsplit] at ih
        rcases h with rfl | h
        · rw [List.mem_cons, not_or]
          exact ⟨fun heq => hne (by simp [heq]), ih List.mem_cons_self⟩
        · exact ih (List.mem_cons_of_mem first h)

theorem splitOn_eq_iff {delimiter : α} {str : List α}
    {pieces : List (List α)} (hne : pieces ≠ []) :
    str.splitOn delimiter = pieces ↔
      (∀ piece ∈ pieces, delimiter ∉ piece) ∧
        str = [delimiter].intercalate pieces := by
  constructor
  · rintro rfl
    exact ⟨fun _ => notMem_of_mem_splitOn,
      (List.intercalate_splitOn delimiter).symm⟩
  · rintro ⟨hpieces, rfl⟩
    exact List.splitOn_intercalate delimiter hpieces hne

omit [DecidableEq α] in
private theorem dropEmptyLast_eq_pair (pieces : List (List α))
    (first second : List α) :
    dropEmptyLast pieces = [first, second] ↔
      pieces = [first, second] ∧ second ≠ [] ∨
        pieces = [first, second, []] := by
  match pieces with
  | [] => simp [dropEmptyLast]
  | [x] => cases x <;> simp [dropEmptyLast]
  | [x, y] =>
      cases y with
      | nil => simp +contextual [dropEmptyLast]
      | cons a y =>
          have hkept : dropEmptyLast [x, a :: y] = [x, a :: y] := by
            simp [dropEmptyLast]
          rw [hkept]
          refine ⟨fun h => .inl ⟨h, ?_⟩, by simp +contextual⟩
          cases h
          simp
  | [x, y, z] => cases z <;> simp [dropEmptyLast]
  | x :: y :: z :: w :: rest =>
      rw [dropEmptyLast_cons _ (by simp), dropEmptyLast_cons _ (by simp),
        dropEmptyLast_cons _ (by simp)]
      simp

/-- Two pieces are left when one delimiter stands between them, and possibly
another one at the end. -/
theorem splitStringImpl_eq_pair_iff (delimiter : α)
    (str first second : List α) :
    splitStringImpl (List.finIdxOf? delimiter) str = [first, second] ↔
      delimiter ∉ first ∧ delimiter ∉ second ∧
        (str = first ++ delimiter :: second ∧ second ≠ [] ∨
          str = first ++ delimiter :: second ++ [delimiter]) := by
  rw [splitStringImpl_eq_splitOn, dropEmptyLast_eq_pair,
    splitOn_eq_iff (by simp), splitOn_eq_iff (by simp)]
  simp only [List.mem_cons, List.not_mem_nil, or_false, forall_eq_or_imp,
    forall_eq]
  have hpair : [delimiter].intercalate [first, second] =
      first ++ delimiter :: second := by
    simp [List.intercalate_cons_cons]
  have htriple : [delimiter].intercalate [first, second, []] =
      first ++ delimiter :: second ++ [delimiter] := by
    simp [List.intercalate_cons_cons]
  rw [hpair, htriple]
  tauto

end Pview.Indexer
