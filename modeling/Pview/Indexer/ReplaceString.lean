import Pview.Foundation.Fuel
import Pview.Foundation.StdString

/-!
# Replacing in a string

`replace_string` edits the string it is searching and goes on behind the text
it has put in.  In front of its position stands what is finished, behind it an
untouched rest of the original string, so only the original is ever searched.
-/

namespace Pview.Indexer

open Pview.Foundation
open Pview.Foundation.StdString

variable {α : Type*} [DecidableEq α]

def replaceStringLoop (search replace : List α) :
    Nat → List α → Nat → Option (Except OutOfRange (List α))
  | 0, _, _ => none
  | fuel + 1, target, pos =>
      match find target search pos with
      | none => some (.ok target)
      | some pos =>
          match StdString.replace target pos search.length replace with
          | .ok target =>
              replaceStringLoop search replace fuel target
                (pos + replace.length)
          | .error e => some (.error e)

theorem replaceStringLoop_converges {search rest : List α}
    {pieces : List (List α)} (hcut : LeftmostCut search rest pieces)
    (replace done : List α) :
    Converges
      (fun fuel =>
        replaceStringLoop search replace fuel (done ++ rest) done.length)
      (.ok (done ++ replace.intercalate pieces)) := by
  induction hcut generalizing done with
  | @last text hnone =>
      refine .of_const fun fuel => ?_
      rw [replaceStringLoop, find_append, find_eq_none_of_not_isInfix hnone,
        List.intercalate_singleton]
      rfl
  | @occurrence before after pieces hfirst hafter ih =>
      have hnext := ih (done ++ before ++ replace)
      have hedit := replace_append (done ++ before) search after replace
      rw [List.append_assoc, List.length_append] at hedit
      rw [List.intercalate_cons_of_ne_nil hafter.ne_nil]
      simp only [List.append_assoc, List.length_append] at hnext ⊢
      refine hnext.of_succ fun fuel => ?_
      rw [replaceStringLoop, find_append, find_eq_length_of_first hfirst]
      simp only [Option.map_some, hedit, List.append_assoc, Nat.add_assoc]

def replaceString (fuel : Nat) (target search replace : String) :
    Option (Except OutOfRange String) :=
  (replaceStringLoop search.toList replace.toList fuel target.toList 0).map
    (Except.map String.ofList)

theorem replaceString_of_leftmostCut {target search : String}
    {pieces : List (List Char)}
    (hcut : LeftmostCut search.toList target.toList pieces)
    (replace : String) :
    Converges (fun fuel => replaceString fuel target search replace)
      (.ok (String.ofList (replace.toList.intercalate pieces))) :=
  (replaceStringLoop_converges hcut replace.toList []).map
    (Except.map String.ofList)

/-- What stood around the leftmost occurrences in the original string stands
around the replacements. -/
theorem replaceString_converges {search : String} (hne : search ≠ "")
    (target replace : String) :
    ∃ pieces, LeftmostCut search.toList target.toList pieces ∧
      Converges (fun fuel => replaceString fuel target search replace)
        (.ok (String.ofList (replace.toList.intercalate pieces))) := by
  have hsearch : search.toList ≠ [] := by simpa using hne
  obtain ⟨pieces, hcut⟩ := exists_leftmostCut hsearch target.toList
  exact ⟨pieces, hcut, replaceString_of_leftmostCut hcut replace⟩

/-- The text put in ends with the search string and touches what is left of
an overlapping occurrence. -/
theorem replaceString_overlap :
    Converges (fun fuel => replaceString fuel "aaa" "aa" "baa")
      (.ok "baaa") := by
  obtain ⟨pieces, hcut, hrun⟩ :=
    replaceString_converges (by decide : "aa" ≠ "") "aaa" "baa"
  have hpieces : LeftmostCut "aa".toList "aaa".toList [[], ['a']] :=
    @LeftmostCut.occurrence _ _ [] _ _ (by simp) (.last (by decide))
  obtain rfl := hcut.unique hpieces
  exact hrun

theorem replaceString_self {search : String} (hne : search ≠ "")
    (target : String) :
    Converges (fun fuel => replaceString fuel target search search)
      (.ok target) := by
  have hsearch : search.toList ≠ [] := by simpa using hne
  obtain ⟨pieces, hcut⟩ := exists_leftmostCut hsearch target.toList
  have hrun := replaceString_of_leftmostCut hcut search
  rwa [hcut.intercalate_eq, String.ofList_toList] at hrun

/-! ## An empty search string -/

theorem replaceStringLoop_nil (replace : List α) (fuel : Nat)
    {target : List α} {pos : Nat} (hpos : pos ≤ target.length) :
    replaceStringLoop [] replace fuel target pos = none := by
  induction fuel generalizing target pos with
  | zero => rfl
  | succ fuel ih =>
      rw [replaceStringLoop, find_nil, if_pos hpos]
      simp only [StdString.replace, if_pos hpos]
      apply ih
      simp
      omega

theorem replaceString_empty (fuel : Nat) (target replace : String) :
    replaceString fuel target "" replace = none := by
  rw [replaceString]
  exact congrArg (Option.map _)
    (replaceStringLoop_nil replace.toList fuel (Nat.zero_le _))

/-! ## Templates -/

/-- A template is filled in at its placeholders, whatever other braces it
has. -/
theorem replaceString_template {mark : Char} {name : List Char}
    (hname : mark ∉ name) {pieces : List String} (hne : pieces ≠ [])
    (hpieces : ∀ piece ∈ pieces, ¬ mark :: name <:+: piece.toList)
    (value : String) :
    Converges
      (fun fuel => replaceString fuel
        ((String.ofList (mark :: name)).intercalate pieces)
        (String.ofList (mark :: name)) value)
      (.ok (value.intercalate pieces)) := by
  have hcut : LeftmostCut (String.ofList (mark :: name)).toList
      ((String.ofList (mark :: name)).intercalate pieces).toList
      (pieces.map String.toList) := by
    rw [String.toList_intercalate, String.toList_ofList]
    refine leftmostCut_intercalate hname (by simpa using hne) ?_
    simpa using hpieces
  have hrun := replaceString_of_leftmostCut hcut value
  rwa [← String.toList_intercalate, String.ofList_toList] at hrun

example (filepathTable : String) :
    Converges
      (fun fuel => replaceString fuel
        "FROM `{filepaths_tbl}`\nWHERE filepath = \"{arg_filepath}\"\n"
        "{filepaths_tbl}" filepathTable)
      (.ok ("FROM `" ++ filepathTable ++
        "`\nWHERE filepath = \"{arg_filepath}\"\n")) :=
  @replaceString_template '{' "{filepaths_tbl}".toList.tail (by decide)
    ["FROM `", "`\nWHERE filepath = \"{arg_filepath}\"\n"] (by simp)
    (by decide) filepathTable

end Pview.Indexer
