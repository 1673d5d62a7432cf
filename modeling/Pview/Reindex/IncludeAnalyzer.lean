import Mathlib.Data.List.Basic

/-!
# Is a translation unit up to date?

`IncludeAnalyzer::check_need_reindex` compares the stored time of a main file
with the modification times of the file and of everything it includes.  The
preprocessing of the unit is summed up by its outcome: the modification times
of the files of its inclusion directives, or one of the ways it fails.
-/

namespace Pview.Reindex

inductive Analysis where
  | noInstance
  | crash
  | error
  | done (mtimes : List Int)
  deriving DecidableEq, Repr

def updateIncludedFileMtime (newestMtime mtime : Int) : Int :=
  if mtime > newestMtime then mtime else newestMtime

def inclusionDirective (newestMtime fileMtime : Int) : Int :=
  if fileMtime ≤ 0 then
    newestMtime
  else
    updateIncludedFileMtime newestMtime fileMtime

def checkNeedReindex (fileExists : Bool) (curFileMtime lastMtime : Int)
    (analysis : Analysis) : Bool :=
  if fileExists then
    let newestMtime := updateIncludedFileMtime 0 curFileMtime
    if lastMtime ≤ 0 then
      true
    else if curFileMtime > lastMtime then
      true
    else
      match analysis with
      | .noInstance => true
      | .crash => true
      | .error => true
      | .done mtimes =>
          decide (mtimes.foldl inclusionDirective newestMtime > lastMtime)
  else
    false

private theorem lt_foldl_iff {lastMtime : Int} (hlast : 0 < lastMtime)
    (mtimes : List Int) (newestMtime : Int) :
    lastMtime < mtimes.foldl inclusionDirective newestMtime ↔
      lastMtime < newestMtime ∨ ∃ mtime ∈ mtimes, lastMtime < mtime := by
  induction mtimes generalizing newestMtime with
  | nil => simp
  | cons mtime mtimes ih =>
      have hfirst : lastMtime < inclusionDirective newestMtime mtime ↔
          lastMtime < newestMtime ∨ lastMtime < mtime := by
        unfold inclusionDirective updateIncludedFileMtime
        split_ifs <;> omega
      rw [List.foldl_cons, ih, hfirst]
      simp only [List.mem_cons, exists_eq_or_imp]
      tauto

/-- The unit is indexed again exactly when it was not indexed before, the
analysis fails, or something is strictly newer than the stored time. -/
theorem checkNeedReindex_iff (curFileMtime lastMtime : Int)
    (analysis : Analysis) :
    checkNeedReindex true curFileMtime lastMtime analysis = true ↔
      lastMtime ≤ 0 ∨ lastMtime < curFileMtime ∨
        ∀ mtimes, analysis = .done mtimes →
          ∃ mtime ∈ mtimes, lastMtime < mtime := by
  unfold checkNeedReindex
  by_cases hlast : lastMtime ≤ 0
  · simp [hlast]
  · by_cases hcur : lastMtime < curFileMtime
    · simp [hcur]
    · have hnewest : ¬lastMtime < updateIncludedFileMtime 0 curFileMtime := by
        unfold updateIncludedFileMtime
        split_ifs <;> omega
      cases analysis with
      | done mtimes =>
          simp [hlast, hcur, lt_foldl_iff (by omega : 0 < lastMtime), hnewest]
      | noInstance => simp
      | crash => simp
      | error => simp

end Pview.Reindex
