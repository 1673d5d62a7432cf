import Pview.Foundation.Fuel
import Pview.Foundation.StdString
import Pview.Indexer.StrUtils

/-!
# Splitting at a string

The template `split_string_impl` with its positions, as the overload of
`split_string` for a string uses it.  It steps over a delimiter by one
character whatever the delimiter's type, so what follows the first character
of a longer delimiter stays in front of the next piece.
-/

namespace Pview.Indexer

open Pview.Foundation
open Pview.Foundation.StdString

variable {α : Type*}

def splitStringLoop (find : Nat → Option Nat) (str : List α) :
    Nat → Nat → List (List α) → Option (Except OutOfRange (List (List α)))
  | 0, _, _ => none
  | fuel + 1, prev, strings =>
      match find prev with
      | some pos =>
          match substr str prev (pos - prev) with
          | .ok piece =>
              splitStringLoop find str fuel (pos + 1) (strings ++ [piece])
          | .error e => some (.error e)
      | none =>
          -- without a count, `substr` goes on to the end
          match substr str prev str.length with
          | .ok last =>
              some (.ok (if last.isEmpty then strings else strings ++ [last]))
          | .error e => some (.error e)

/-- The overload of `split_string` for a string. -/
def splitStringOn (fuel : Nat) (str delimiter : String) :
    Option (Except OutOfRange (List String)) :=
  (splitStringLoop (find str.toList delimiter.toList) str.toList fuel 0
    []).map (Except.map (List.map String.ofList))

/-! ## The loop and the pieces -/

section Pieces

variable [DecidableEq α]

def findDelimiter (delimiter rest : List α) : Option (Fin rest.length) :=
  (find rest delimiter 0).bind fun pos =>
    if h : pos < rest.length then some ⟨pos, h⟩ else none

theorem map_val_findDelimiter {delimiter : List α} (hne : delimiter ≠ [])
    (rest : List α) :
    (findDelimiter delimiter rest).map Fin.val = find rest delimiter 0 := by
  cases hfind : find rest delimiter 0 with
  | none => simp [findDelimiter, hfind]
  | some pos =>
      have hlt := (find_eq_some_iff.mp hfind).2.1.lt_length hne
      simp [findDelimiter, hfind, hlt]

theorem occursAt_of_findDelimiter {delimiter rest : List α}
    {pos : Fin rest.length} (h : findDelimiter delimiter rest = some pos) :
    OccursAt delimiter rest pos := by
  obtain ⟨i, hfind, hpos⟩ := Option.bind_eq_some_iff.mp h
  split at hpos
  · cases hpos
    exact (find_eq_some_iff.mp hfind).2.1
  · cases hpos

theorem not_isInfix_of_findDelimiter {delimiter rest : List α}
    (hne : delimiter ≠ []) (h : findDelimiter delimiter rest = none) :
    ¬ delimiter <:+: rest := by
  have hfind := map_val_findDelimiter hne rest
  rw [h, Option.map_none] at hfind
  rw [not_infix_iff]
  exact fun i => find_eq_none_iff.mp hfind.symm i (Nat.zero_le i)

theorem find_append_eq_map_findDelimiter {delimiter : List α}
    (hne : delimiter ≠ []) (done rest : List α) :
    find (done ++ rest) delimiter done.length =
      (findDelimiter delimiter rest).map (done.length + ·.val) := by
  rw [find_append, ← map_val_findDelimiter hne, Option.map_map]
  rfl

private theorem splitStringLoop_of_none {delimiter rest : List α}
    (hne : delimiter ≠ []) (hnone : findDelimiter delimiter rest = none)
    (done : List α) (strings : List (List α)) (fuel : Nat) :
    splitStringLoop (find (done ++ rest) delimiter) (done ++ rest) (fuel + 1)
        done.length strings =
      some (.ok (if rest.isEmpty then strings else strings ++ [rest])) := by
  rw [splitStringLoop, find_append_eq_map_findDelimiter hne, hnone,
    Option.map_none, substr_append_of_le done rest (by simp)]

theorem splitStringLoop_converges {delimiter : List α}
    (hne : delimiter ≠ []) (done rest : List α) (strings : List (List α)) :
    Converges
      (fun fuel => splitStringLoop (find (done ++ rest) delimiter)
        (done ++ rest) fuel done.length strings)
      (.ok (strings ++ splitStringImpl (findDelimiter delimiter) rest)) := by
  fun_induction splitStringImpl (findDelimiter delimiter) rest
      generalizing done strings with
  | case1 rest pos hpos ih =>
      have hnext := ih (done ++ rest.take (pos + 1))
        (strings ++ [rest.take pos])
      rw [List.append_assoc, List.append_assoc, List.take_append_drop,
        List.length_append, List.length_take_of_le pos.isLt] at hnext
      refine hnext.of_succ fun fuel => ?_
      rw [splitStringLoop, find_append_eq_map_findDelimiter hne, hpos]
      simp [Nat.add_assoc]
  | case2 rest hnone hempty =>
      refine .of_const fun fuel => ?_
      rw [splitStringLoop_of_none hne hnone, if_pos hempty, List.append_nil]
  | case3 rest hnone hnonempty =>
      refine .of_const fun fuel => ?_
      rw [splitStringLoop_of_none hne hnone, if_neg hnonempty]

theorem splitStringImpl_of_not_isInfix {delimiter str : List α}
    (h : ¬ delimiter <:+: str) :
    splitStringImpl (findDelimiter delimiter) str =
      if str.isEmpty then [] else [str] := by
  rw [splitStringImpl]
  simp [findDelimiter, find_eq_none_of_not_isInfix h]

theorem findDelimiter_singleton (delimiter : α) :
    findDelimiter [delimiter] = List.finIdxOf? delimiter := by
  funext rest
  have hoccurs : ∀ i : Fin rest.length,
      OccursAt [delimiter] rest i ↔ rest[i] = delimiter := by
    intro i
    simp [OccursAt, List.singleton_prefix_iff_head?_eq_some, i.isLt.le]
  apply Option.map_injective fun _ _ => Fin.ext
  rw [map_val_findDelimiter (by simp)]
  cases hfind : List.finIdxOf? delimiter rest with
  | none =>
      rw [List.finIdxOf?_eq_none_iff] at hfind
      rw [Option.map_none, find_eq_none_iff]
      intro i _ hi
      have hlt := hi.lt_length (by simp)
      exact hfind ((hoccurs ⟨i, hlt⟩).mp hi ▸ List.getElem_mem hlt)
  | some pos =>
      obtain ⟨hpos, hbefore⟩ := List.finIdxOf?_eq_some_iff.mp hfind
      rw [Option.map_some, find_eq_some_iff]
      refine ⟨Nat.zero_le _, (hoccurs pos).mpr hpos, fun i _ hlt hi => ?_⟩
      exact hbefore ⟨i, hlt.trans pos.isLt⟩ hlt ((hoccurs _).mp hi)

/-! ## What is joined -/

omit [DecidableEq α] in
theorem splitStringImpl_ne_nil
    {find : (rest : List α) → Option (Fin rest.length)} {rest : List α}
    (hne : rest ≠ []) : splitStringImpl find rest ≠ [] := by
  rw [splitStringImpl]
  split
  · simp
  · simp [hne]

theorem length_intercalate_of_findDelimiter {delimiter rest : List α}
    {pos : Fin rest.length} (hlen : 2 ≤ delimiter.length)
    (hpos : findDelimiter delimiter rest = some pos) :
    (delimiter.intercalate
        (splitStringImpl (findDelimiter delimiter) rest)).length =
      pos + delimiter.length +
        (delimiter.intercalate (splitStringImpl (findDelimiter delimiter)
          (rest.drop (pos + 1)))).length := by
  have hend := (occursAt_of_findDelimiter hpos).add_length_le
  have hmore : rest.drop (pos + 1) ≠ [] := by
    rw [← List.length_pos_iff, List.length_drop]
    omega
  rw [splitStringImpl, hpos]
  simp only [List.intercalate_cons_of_ne_nil (splitStringImpl_ne_nil hmore),
    List.length_append, List.length_take_of_le pos.isLt.le]

theorem length_le_length_intercalate {delimiter : List α}
    (hlen : 2 ≤ delimiter.length) (str : List α) :
    str.length ≤ (delimiter.intercalate
      (splitStringImpl (findDelimiter delimiter) str)).length := by
  induction str using splitStringImpl.induct (findDelimiter delimiter) with
  | case1 rest pos hpos ih =>
      rw [length_intercalate_of_findDelimiter hlen hpos]
      rw [List.length_drop] at ih
      omega
  | case2 rest hnone hempty =>
      simp [List.isEmpty_iff.mp hempty]
  | case3 rest hnone hnonempty =>
      rw [splitStringImpl, hnone]
      simp [hnonempty]

theorem length_lt_length_intercalate {delimiter str : List α}
    (hlen : 2 ≤ delimiter.length) (hfound : delimiter <:+: str) :
    str.length < (delimiter.intercalate
      (splitStringImpl (findDelimiter delimiter) str)).length := by
  have hne : delimiter ≠ [] := List.ne_nil_of_length_pos (by omega)
  cases hpos : findDelimiter delimiter str with
  | none => exact absurd hfound (not_isInfix_of_findDelimiter hne hpos)
  | some pos =>
      have hrest := length_le_length_intercalate hlen (str.drop (pos + 1))
      rw [length_intercalate_of_findDelimiter hlen hpos]
      rw [List.length_drop] at hrest
      omega

end Pieces

/-! ## What the pieces should be -/

structure SplitsInto (str delimiter : String) (pieces : List String) :
    Prop where
  notInfix : ∀ piece ∈ pieces, ¬ delimiter.toList <:+: piece.toList
  join : delimiter.intercalate pieces = str ∨
    delimiter.intercalate pieces ++ delimiter = str

/-- The call returns pieces that give the string back, and the pieces of the
other overload where that one applies. -/
def SplitsCorrectly (str delimiter : String) : Prop :=
  ∃ pieces,
    Converges (fun fuel => splitStringOn fuel str delimiter) (.ok pieces) ∧
      SplitsInto str delimiter pieces ∧
      ∀ c, delimiter = String.singleton c → pieces = splitString str c

theorem splitStringOn_converges {delimiter : String} (hne : delimiter ≠ "")
    (str : String) :
    Converges (fun fuel => splitStringOn fuel str delimiter)
      (.ok ((splitStringImpl (findDelimiter delimiter.toList)
        str.toList).map String.ofList)) := by
  have hdelimiter : delimiter.toList ≠ [] := by simpa using hne
  exact (splitStringLoop_converges hdelimiter [] str.toList []).map
    (Except.map (List.map String.ofList))

theorem splitsCorrectly_iff_impl {delimiter : String} (hne : delimiter ≠ "")
    (str : String) :
    SplitsCorrectly str delimiter ↔
      SplitsInto str delimiter ((splitStringImpl
        (findDelimiter delimiter.toList) str.toList).map String.ofList) := by
  constructor
  · rintro ⟨pieces, hpieces, hsplits, -⟩
    obtain rfl := Except.ok.inj
      (hpieces.unique (splitStringOn_converges hne str))
    exact hsplits
  · intro hsplits
    refine ⟨_, splitStringOn_converges hne str, hsplits, ?_⟩
    rintro c rfl
    rw [splitString, String.toList_singleton, findDelimiter_singleton]

theorem splitsInto_map_ofList_iff {str delimiter : String}
    {pieces : List (List Char)} :
    SplitsInto str delimiter (pieces.map String.ofList) ↔
      (∀ piece ∈ pieces, ¬ delimiter.toList <:+: piece) ∧
        (delimiter.toList.intercalate pieces = str.toList ∨
          delimiter.toList.intercalate pieces ++ delimiter.toList =
            str.toList) := by
  have hjoin : (delimiter.intercalate (pieces.map String.ofList)).toList =
      delimiter.toList.intercalate pieces := by
    simp [String.toList_intercalate]
  rw [← hjoin, ← String.toList_append, String.toList_inj, String.toList_inj]
  constructor
  · rintro ⟨hnot, hstr⟩
    exact ⟨by simpa using hnot, hstr⟩
  · rintro ⟨hnot, hstr⟩
    exact ⟨by simpa using hnot, hstr⟩

theorem splitsInto_of_singleton (str : String) (c : Char) :
    SplitsInto str (String.singleton c)
      ((splitStringImpl (List.finIdxOf? c) str.toList).map String.ofList) := by
  rw [splitsInto_map_ofList_iff, String.toList_singleton,
    splitStringImpl_eq_splitOn]
  constructor
  · intro piece hmem
    rw [List.singleton_infix_iff]
    exact notMem_of_mem_splitOn (mem_of_mem_dropEmptyLast hmem)
  · have hjoin := intercalate_dropEmptyLast [c] (str.toList.splitOn c)
    rwa [List.intercalate_splitOn] at hjoin

theorem splitsInto_of_not_isInfix {str delimiter : String}
    (h : ¬ delimiter.toList <:+: str.toList) :
    SplitsInto str delimiter ((splitStringImpl
      (findDelimiter delimiter.toList) str.toList).map String.ofList) := by
  rw [splitsInto_map_ofList_iff, splitStringImpl_of_not_isInfix h]
  cases hstr : str.toList with
  | nil => simp
  | cons a rest => simpa [hstr] using h

theorem not_splitsInto_of_isInfix {str delimiter : String}
    (hlen : 2 ≤ delimiter.length)
    (hfound : delimiter.toList <:+: str.toList) :
    ¬ SplitsInto str delimiter ((splitStringImpl
      (findDelimiter delimiter.toList) str.toList).map String.ofList) := by
  rw [splitsInto_map_ofList_iff]
  rintro ⟨-, hjoin⟩
  rw [← String.length_toList] at hlen
  have hlt := length_lt_length_intercalate hlen hfound
  rcases hjoin with hjoin | hjoin
  · have heq := congrArg List.length hjoin
    omega
  · have heq := congrArg List.length hjoin
    rw [List.length_append] at heq
    omega

/-- The pieces are right for a delimiter of one character and for a string
without the delimiter, and only for these. -/
theorem splitsCorrectly_iff {delimiter : String} (hne : delimiter ≠ "")
    (str : String) :
    SplitsCorrectly str delimiter ↔
      delimiter.length = 1 ∨ ¬ delimiter.toList <:+: str.toList := by
  rw [splitsCorrectly_iff_impl hne]
  constructor
  · intro hsplits
    by_contra hwrong
    obtain ⟨hlen, hfound⟩ := not_or.mp hwrong
    have hpos : delimiter.length ≠ 0 := by simpa using hne
    exact not_splitsInto_of_isInfix (by omega) (not_not.mp hfound) hsplits
  · rintro (hlen | hfound)
    · rw [← String.length_toList] at hlen
      obtain ⟨c, hc⟩ := List.length_eq_one_iff.mp hlen
      obtain rfl : delimiter = String.singleton c := by
        rw [← String.toList_inj, hc, String.toList_singleton]
      rw [hc, findDelimiter_singleton]
      exact splitsInto_of_singleton str c
    · exact splitsInto_of_not_isInfix hfound

theorem splitsCorrectly_semicolon : SplitsCorrectly "main;" ";" :=
  (splitsCorrectly_iff (by decide) "main;").mpr (.inl rfl)

/-- `a::b` is split into `a` and `:b`. -/
theorem not_splitsCorrectly_two_colons : ¬ SplitsCorrectly "a::b" "::" := by
  rintro ⟨pieces, ⟨bound, hbound⟩, ⟨-, hjoin⟩, -⟩
  have hrun : splitStringOn (bound + 3) "a::b" "::" =
      some (.ok ["a", ":b"]) := rfl
  have hpieces := (hbound (bound + 3) (by omega)).symm.trans hrun
  obtain rfl : pieces = ["a", ":b"] := by simpa using hpieces
  revert hjoin
  decide

/-! ## An empty delimiter -/

/-- It is found at the end as well, and the last `substr` starts behind it. -/
theorem splitStringLoop_nil_converges [DecidableEq α] {str : List α}
    {left prev : Nat} (hleft : prev + left = str.length + 1)
    (strings : List (List α)) :
    Converges (fun fuel => splitStringLoop (find str []) str fuel prev strings)
      (.error .outOfRange) := by
  induction left generalizing prev strings with
  | zero =>
      refine .of_const fun fuel => ?_
      rw [splitStringLoop, find_nil, if_neg (by omega), substr,
        if_neg (by omega)]
  | succ left ih =>
      have hleft' : prev + 1 + left = str.length + 1 := by omega
      have hnext := ih hleft' (strings ++ [[]])
      refine hnext.of_succ fun fuel => ?_
      have hle : prev ≤ str.length := by omega
      rw [splitStringLoop, find_nil, if_pos hle]
      simp [substr, hle]

theorem splitStringOn_empty (str : String) :
    Converges (fun fuel => splitStringOn fuel str "")
      (.error .outOfRange) :=
  (splitStringLoop_nil_converges (Nat.zero_add _) []).map
    (Except.map (List.map String.ofList))

end Pview.Indexer
