import Pview.Exceptions.Behaviour
import Pview.Exceptions.Findings

/-!
# What the analyzer reports

An analyzer that has analyzed nothing yet reports a function by what `Finds`
derives within its levels, less the ignored types.
-/

namespace Pview.Exceptions

open ExceptionInfo

variable {T R F : Type}

/-- What the last filter leaves in a result. -/
def Counts (types : TypeInfo T R) (ignoredTypes : List String)
    (ignoreBadAlloc : Bool) : Raised T → Prop
  | .type t => isIgnored types ignoredTypes ignoreBadAlloc t = false
  | .unknown => True

namespace Analyzer

def configured (level : Int) (ignoredExceptions : List String)
    (ignoreBadAlloc : Bool) : Analyzer T F :=
  { new with
    maxTraceLevel := level
    ignoreBadAlloc := ignoreBadAlloc
    ignoredExceptions := ignoredExceptions }

variable [DecidableEq T] [DecidableEq R] [DecidableEq F]
variable (prog : Program T R F) (level : Int) (ignoredExceptions : List String)
variable (ignoreBadAlloc : Bool) (func : F)

def report : ExceptionInfo T :=
  ((configured level ignoredExceptions ignoreBadAlloc).analyze prog
    (.func func)).1

theorem report_inStep :
    (report prog level ignoredExceptions ignoreBadAlloc func).InStep := by
  have hcached : (configured level ignoredExceptions ignoreBadAlloc :
      Analyzer T F).Cached := cached_new
  exact inStep_analyze prog hcached (.func func)

theorem report_eq :
    let found := throwsException prog level.toNat (.func func)
    report prog level ignoredExceptions ignoreBadAlloc func =
      if found.behaviour = .notThrowing ∨ found.behaviour = .unknown then found
      else found.filterIgnoredExceptions prog.types ignoredExceptions
        ignoreBadAlloc := by
  exact apply_ite Prod.fst _ _ _

theorem has_report (x : Raised T) :
    (report prog level ignoredExceptions ignoreBadAlloc func).Has x ↔
      Finds prog level.toNat ∅ none (.func func) x ∧
        Counts prog.types ignoredExceptions ignoreBadAlloc x := by
  rw [report_eq, ← has_throwsException]
  rcases unfiltered_throwsException prog level.toNat (.func func) with
    hthrowing | hunknown
  · rw [hthrowing, if_neg (by simp), has_filterIgnoredExceptions]
    cases x <;> simp [Counts]
  · rw [hunknown, if_pos (by simp [createUnknown, ofState]), has_createUnknown]
    constructor
    · rintro rfl
      exact ⟨rfl, trivial⟩
    · exact And.left

theorem report_throwing_iff :
    (report prog level ignoredExceptions ignoreBadAlloc func).behaviour =
        .throwing ↔
      ∃ t, Finds prog level.toNat ∅ none (.func func) (.type t) ∧
        isIgnored prog.types ignoredExceptions ignoreBadAlloc t = false := by
  rw [(report_inStep ..).throwing_iff]
  simp only [has_report, Counts]

theorem report_notThrowing_iff :
    (report prog level ignoredExceptions ignoreBadAlloc func).behaviour =
        .notThrowing ↔
      ¬∃ x, Finds prog level.toNat ∅ none (.func func) x ∧
        Counts prog.types ignoredExceptions ignoreBadAlloc x := by
  rw [(report_inStep ..).notThrowing_iff]
  simp only [has_report, not_exists]

end Analyzer

variable [DecidableEq T] [DecidableEq R] [DecidableEq F]

theorem funcMightThrow_iff (prog : Program T R F) (func : F) :
    funcMightThrow prog func = true ↔
      ∃ t, Finds prog 20 ∅ none (.func func) (.type t) ∧
        isIgnored prog.types ["AssertionError"] true t = false :=
  decide_eq_true_iff.trans (Analyzer.report_throwing_iff prog 20 _ _ func)

end Pview.Exceptions
