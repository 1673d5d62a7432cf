import Pview.Foundation.Occurrences
import Mathlib.Data.List.Range

/-!
# Operations of `std::string`

The members of `std::string` that search, compare and edit at positions, for
any type of characters.  A position behind the end throws `std::out_of_range`;
a count that goes beyond the end stops there.
-/

namespace Pview.Foundation.StdString

variable {α : Type*}

inductive OutOfRange where
  | outOfRange
  deriving DecidableEq, Repr

def substr (str : List α) (pos count : Nat) : Except OutOfRange (List α) :=
  if pos ≤ str.length then .ok ((str.drop pos).take count)
  else .error .outOfRange

def replace (str : List α) (pos count : Nat) (text : List α) :
    Except OutOfRange (List α) :=
  if pos ≤ str.length then
    .ok (str.take pos ++ (text ++ str.drop (pos + count)))
  else .error .outOfRange

@[simp] theorem substr_append (before rest : List α) (count : Nat) :
    substr (before ++ rest) before.length count = .ok (rest.take count) := by
  simp [substr]

theorem substr_append_of_le (before rest : List α) {count : Nat}
    (h : rest.length ≤ count) :
    substr (before ++ rest) before.length count = .ok rest := by
  rw [substr_append, List.take_of_length_le h]

@[simp] theorem replace_append (before found after text : List α) :
    replace (before ++ (found ++ after)) before.length found.length text =
      .ok (before ++ (text ++ after)) := by
  simp [replace, List.drop_append]

variable [DecidableEq α]

/-- `compare(pos, count, text) == 0` -/
def compareEq (str : List α) (pos count : Nat) (text : List α) :
    Except OutOfRange Bool :=
  (substr str pos count).map (· == text)

def find (str pattern : List α) (pos : Nat) : Option Nat :=
  (List.range (str.length + 1)).find? fun i =>
    pos ≤ i ∧ OccursAt pattern str i

theorem find_eq_none_iff {str pattern : List α} {pos : Nat} :
    find str pattern pos = none ↔
      ∀ i, pos ≤ i → ¬ OccursAt pattern str i := by
  simp only [find, List.find?_range_eq_none, Bool.not_eq_true',
    decide_eq_false_iff_not, not_and]
  constructor
  · intro h i hpos hoccurs
    exact h i (Nat.lt_succ_of_le hoccurs.1) hpos hoccurs
  · exact fun h i _ => h i

theorem find_eq_some_iff {str pattern : List α} {pos i : Nat} :
    find str pattern pos = some i ↔
      pos ≤ i ∧ OccursAt pattern str i ∧
        ∀ j, pos ≤ j → j < i → ¬ OccursAt pattern str j := by
  simp only [find, List.find?_range_eq_some, decide_eq_true_eq,
    List.mem_range, Bool.not_eq_true', decide_eq_false_iff_not, not_and]
  constructor
  · rintro ⟨⟨hpos, hoccurs⟩, -, hfirst⟩
    exact ⟨hpos, hoccurs, fun j hj hlt => hfirst j hlt hj⟩
  · rintro ⟨hpos, hoccurs, hfirst⟩
    exact ⟨⟨hpos, hoccurs⟩, Nat.lt_succ_of_le hoccurs.1,
      fun j hlt hj => hfirst j hj hlt⟩

theorem find_eq_find_of_le {str pattern : List α} {pos pos' : Nat}
    (hle : pos ≤ pos')
    (h : ∀ i, pos ≤ i → i < pos' → ¬ OccursAt pattern str i) :
    find str pattern pos = find str pattern pos' := by
  rw [find, find]
  congr 1
  funext i
  rw [decide_eq_decide]
  constructor
  · rintro ⟨hpos, hoccurs⟩
    exact ⟨by_contra fun hlt => h i hpos (by omega) hoccurs, hoccurs⟩
  · rintro ⟨hpos, hoccurs⟩
    exact ⟨hle.trans hpos, hoccurs⟩

theorem find_append (before rest pattern : List α) :
    find (before ++ rest) pattern before.length =
      (find rest pattern 0).map (before.length + ·) := by
  cases hfind : find rest pattern 0 with
  | none =>
      rw [find_eq_none_iff] at hfind
      rw [Option.map_none, find_eq_none_iff]
      intro i hi
      obtain ⟨i, rfl⟩ := Nat.exists_eq_add_of_le hi
      rw [occursAt_append_left]
      exact hfind i (Nat.zero_le i)
  | some pos =>
      obtain ⟨-, hoccurs, hfirst⟩ := find_eq_some_iff.mp hfind
      rw [Option.map_some, find_eq_some_iff]
      refine ⟨Nat.le_add_right _ _, ?_, ?_⟩
      · rwa [occursAt_append_left]
      · intro j hj hlt
        obtain ⟨j, rfl⟩ := Nat.exists_eq_add_of_le hj
        rw [occursAt_append_left]
        exact hfirst j (Nat.zero_le j) (by omega)

/-- The empty pattern stands everywhere, at the end too. -/
theorem find_nil (str : List α) (pos : Nat) :
    find str [] pos = if pos ≤ str.length then some pos else none := by
  have hoccurs : ∀ i, OccursAt [] str i ↔ i ≤ str.length := by
    simp [OccursAt]
  split
  · rename_i hle
    exact find_eq_some_iff.mpr
      ⟨le_refl pos, (hoccurs pos).mpr hle, fun j hj hlt => by omega⟩
  · rename_i hgt
    refine find_eq_none_iff.mpr fun i hi h => hgt ?_
    exact hi.trans ((hoccurs i).mp h)

theorem find_eq_none_of_not_isInfix {str pattern : List α}
    (h : ¬ pattern <:+: str) : find str pattern 0 = none :=
  find_eq_none_iff.mpr fun i _ => not_infix_iff.mp h i

theorem find_eq_length_of_first {before after pattern : List α}
    (hfirst : ∀ i < before.length,
      ¬ OccursAt pattern (before ++ (pattern ++ after)) i) :
    find (before ++ (pattern ++ after)) pattern 0 = some before.length :=
  find_eq_some_iff.mpr ⟨Nat.zero_le _, occursAt_length before pattern after,
    fun i _ => hfirst i⟩

end Pview.Foundation.StdString
