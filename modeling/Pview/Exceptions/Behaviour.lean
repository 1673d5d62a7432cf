import Pview.Exceptions.Analyzer

/-!
# The behaviour flag and the thrown types

The results inside `throwsException` start from `createNonThrowing`, which
carries `State::Throwing`, and no merge takes that flag away.  What reaches the
caller is in step all the same: a result flagged as throwing goes through the
last filter, and the only other result is `createUnknown`.
-/

namespace Pview.Exceptions

variable {T R F : Type} [DecidableEq T]

/-- The behaviour says what the types and the unknown elements say. -/
structure ExceptionInfo.InStep (info : ExceptionInfo T) : Prop where
  throwing : info.behaviour = .throwing ↔ info.thrownExceptions.Nonempty
  unknown : info.behaviour = .unknown ↔
    info.thrownExceptions = ∅ ∧ info.containsUnknown = true
  notThrowing : info.behaviour = .notThrowing ↔
    info.thrownExceptions = ∅ ∧ info.containsUnknown = false

namespace ExceptionInfo

omit [DecidableEq T] in
theorem InStep.throwing_iff {info : ExceptionInfo T} (h : info.InStep) :
    info.behaviour = .throwing ↔ ∃ t, info.Has (.type t) :=
  h.throwing

omit [DecidableEq T] in
theorem InStep.notThrowing_iff {info : ExceptionInfo T} (h : info.InStep) :
    info.behaviour = .notThrowing ↔ ∀ x, ¬info.Has x := by
  rw [h.notThrowing, Finset.eq_empty_iff_forall_notMem]
  constructor
  · rintro ⟨htypes, hunknown⟩ x
    cases x with
    | type t => exact htypes t
    | unknown => simp [hunknown]
  · intro hnone
    refine ⟨fun t => hnone (.type t), ?_⟩
    simpa using hnone .unknown

theorem inStep_reevaluateBehaviour (info : ExceptionInfo T) :
    info.reevaluateBehaviour.InStep := by
  rcases info.thrownExceptions.eq_empty_or_nonempty with hempty | hthrown
  · cases hunknown : info.containsUnknown <;>
      constructor <;> simp [reevaluateBehaviour, hempty, hunknown]
  · have hne : info.thrownExceptions ≠ ∅ := hthrown.ne_empty
    constructor <;> simp [reevaluateBehaviour, hne, hthrown]

theorem inStep_filterIgnoredExceptions (types : TypeInfo T R)
    (info : ExceptionInfo T) (ignoredTypes : List String)
    (ignoreBadAlloc : Bool) :
    (info.filterIgnoredExceptions types ignoredTypes ignoreBadAlloc).InStep :=
  inStep_reevaluateBehaviour _

omit [DecidableEq T] in
theorem inStep_createUnknown :
    (createUnknown : ExceptionInfo T).InStep := by
  constructor <;> simp [createUnknown, ofState]

theorem behaviour_merge {info : ExceptionInfo T}
    (hinfo : info.behaviour = .throwing) (other : ExceptionInfo T) :
    (info.merge other).behaviour = .throwing := by
  simp only [merge]
  split
  · rfl
  · simp [hinfo]

theorem behaviour_registerExceptions {info : ExceptionInfo T}
    (hinfo : info.behaviour = .throwing) (exceptions : Finset T) :
    (info.registerExceptions exceptions).behaviour = .throwing := by
  simp only [registerExceptions]
  split
  · exact hinfo
  · rfl

theorem behaviour_foldl_registerException {info : ExceptionInfo T}
    (hinfo : info.behaviour = .throwing) (exceptions : List T) :
    (exceptions.foldl registerException info).behaviour = .throwing := by
  induction exceptions generalizing info with
  | nil => exact hinfo
  | cons t exceptions ih => exact ih rfl

end ExceptionInfo

open ExceptionInfo

section Walk

variable [DecidableEq R] (prog : Program T R F)

theorem behaviour_mergeAll {α : Type} (throws : α → Id (ExceptionInfo T))
    {results : ExceptionInfo T} (hresults : results.behaviour = .throwing)
    (children : List α) :
    (mergeAll throws results children).behaviour = .throwing := by
  induction children generalizing results with
  | nil => exact hresults
  | cons child children ih => exact ih (behaviour_merge hresults _)

theorem behaviour_throwsHandlers
    (throws : Finset T → Stmt T F → Id (ExceptionInfo T))
    (handlers : List (Option T × Stmt T F)) {results : ExceptionInfo T}
    (hresults : results.behaviour = .throwing) (uncaught : ExceptionInfo T) :
    (throwsHandlers prog throws handlers results uncaught).behaviour =
      .throwing := by
  induction handlers generalizing results uncaught with
  | nil => exact behaviour_merge hresults uncaught
  | cons handler handlers ih =>
      obtain ⟨_ | caughtType, handlerBlock⟩ := handler
      · exact ih (behaviour_merge hresults _) _
      · simp only [throwsHandlers]
        split
        · exact ih (behaviour_merge hresults _) _
        · exact ih hresults _

variable [DecidableEq F]

theorem behaviour_throwsStmt (levels : Nat) (callStack : Finset F)
    (caught : Finset T) (st : Stmt T F) :
    (throwsStmt (m := Id) prog createNonThrowing levels callStack caught
      st).behaviour = .throwing := by
  have hstart : (createNonThrowing : ExceptionInfo T).behaviour = .throwing :=
    rfl
  cases levels with
  | zero => exact hstart
  | succ levels =>
      cases st with
      | null => exact hstart
      | throwExpr thrownType subExpr => rfl
      | rethrowExpr => exact behaviour_registerExceptions hstart caught
      | tryStmt tryBlock handlers =>
          exact behaviour_throwsHandlers prog _ handlers hstart _
      | callExpr directCallee children =>
          cases directCallee with
          | none => exact hstart
          | some func => exact behaviour_merge hstart _
      | constructExpr constructor args => exact behaviour_merge hstart _
      | defaultInitExpr expr => exact behaviour_merge hstart _
      | other children => exact behaviour_mergeAll _ hstart children

/-- A function without a body and without an exception specification is the
one place where the flag is not that of `createNonThrowing`. -/
theorem behaviour_throwsFunc (levels : Nat) (callStack : Finset F) (func : F) :
    (throwsFunc (m := Id) prog createNonThrowing levels callStack
      func).behaviour = .throwing ∨
    throwsFunc (m := Id) prog createNonThrowing levels callStack func =
      createUnknown := by
  cases levels with
  | zero =>
      left
      simp only [throwsFunc]
      split <;> rfl
  | succ levels =>
      simp only [throwsFunc]
      split
      · exact .inl rfl
      · simp only [throwsFuncStep]
        split
        · exact .inl (behaviour_mergeAll _
            (behaviour_throwsStmt prog levels _ _ _) _)
        · cases (prog.decl func).exceptions with
          | nil => exact .inr rfl
          | cons t exceptions =>
              exact .inl (behaviour_foldl_registerException rfl exceptions)

end Walk

namespace Analyzer

/-- What the analysis returns before the last filter, and what is cached. -/
def Unfiltered (info : ExceptionInfo T) : Prop :=
  info.behaviour = .throwing ∨ info = createUnknown

def Cached (analyzer : Analyzer T F) : Prop :=
  ∀ func info, analyzer.functionCache func = some info → Unfiltered info

omit [DecidableEq T] in
theorem cached_new : (new : Analyzer T F).Cached := by
  intro func info hinfo
  simp [new] at hinfo

variable [DecidableEq R] [DecidableEq F] (prog : Program T R F)

theorem unfiltered_throwsException (levels : Nat) (node : Node T F) :
    Unfiltered (throwsException prog levels node) := by
  cases node with
  | func func => exact behaviour_throwsFunc prog levels ∅ func
  | stmt st => exact .inl (behaviour_throwsStmt prog levels ∅ ∅ st)

theorem analyzeImpl_unfiltered {analyzer : Analyzer T F}
    (hcached : analyzer.Cached) (node : Node T F) :
    Unfiltered (analyzer.analyzeImpl prog node).1 ∧
      (analyzer.analyzeImpl prog node).2.Cached := by
  cases node with
  | stmt st => exact ⟨unfiltered_throwsException prog _ _, hcached⟩
  | func func =>
      simp only [analyzeImpl]
      split
      · rename_i info hinfo
        exact ⟨hcached func info hinfo, hcached⟩
      · have hnew := unfiltered_throwsException prog analyzer.levels
          (.func func)
        refine ⟨hnew, fun other info hinfo => ?_⟩
        by_cases hother : other = func
        · subst hother
          simp only [Function.update_self, Option.some.injEq] at hinfo
          exact hinfo ▸ hnew
        · simp only [Function.update_of_ne hother] at hinfo
          exact hcached other info hinfo

theorem analyzeImpl_settings (analyzer : Analyzer T F) (node : Node T F) :
    (analyzer.analyzeImpl prog node).2.ignoredExceptions =
        analyzer.ignoredExceptions ∧
      (analyzer.analyzeImpl prog node).2.ignoreBadAlloc =
        analyzer.ignoreBadAlloc := by
  cases node with
  | stmt st => exact ⟨rfl, rfl⟩
  | func func =>
      simp only [analyzeImpl]
      split <;> exact ⟨rfl, rfl⟩

theorem analyze_fst_cases {analyzer : Analyzer T F} (hcached : analyzer.Cached)
    (node : Node T F) :
    (analyzer.analyze prog node).1 = createUnknown ∨
      ∃ info : ExceptionInfo T, (analyzer.analyze prog node).1 =
        info.filterIgnoredExceptions prog.types analyzer.ignoredExceptions
          analyzer.ignoreBadAlloc := by
  obtain ⟨hignored, hbadAlloc⟩ := analyzeImpl_settings prog analyzer node
  have hunfiltered := (analyzeImpl_unfiltered prog hcached node).1
  rcases hunfiltered with hthrowing | hunknown
  · right
    exact ⟨(analyzer.analyzeImpl prog node).1, by
      simp [analyze, hthrowing, hignored, hbadAlloc]⟩
  · left
    simp [analyze, hunknown, createUnknown, ofState]

theorem analyze_snd (analyzer : Analyzer T F) (node : Node T F) :
    (analyzer.analyze prog node).2 = (analyzer.analyzeImpl prog node).2 := by
  simp only [analyze]
  split <;> rfl

theorem cached_performAll {analyzer : Analyzer T F}
    (hcached : analyzer.Cached) (calls : List (Call T F)) :
    (analyzer.performAll prog calls).Cached := by
  induction calls generalizing analyzer with
  | nil => exact hcached
  | cons call calls ih =>
      apply ih
      cases call with
      | setMaxTraceLevel level => exact hcached
      | ignoreBadAlloc shallIgnore => exact hcached
      | ignoreExceptions exceptionNames => exact hcached
      | analyze node =>
          simp only [perform, analyze_snd]
          exact (analyzeImpl_unfiltered prog hcached node).2

theorem inStep_analyze {analyzer : Analyzer T F} (hcached : analyzer.Cached)
    (node : Node T F) : (analyzer.analyze prog node).1.InStep := by
  rcases analyze_fst_cases prog hcached node with hresult | ⟨info, hresult⟩
  · rw [hresult]
    exact inStep_createUnknown
  · rw [hresult]
    exact inStep_filterIgnoredExceptions _ _ _ _

/-- After any calls, whatever they set and analyzed before, the result of an
analysis is in step and holds no ignored type. -/
theorem analyze_inStep (calls : List (Call T F)) (node : Node T F) :
    let analyzer := new.performAll prog calls
    let result := (analyzer.analyze prog node).1
    result.InStep ∧
      ∀ t ∈ result.thrownExceptions, isIgnored prog.types
        analyzer.ignoredExceptions analyzer.ignoreBadAlloc t = false := by
  intro analyzer result
  have hcached : analyzer.Cached := cached_performAll prog cached_new calls
  refine ⟨inStep_analyze prog hcached node, fun t ht => ?_⟩
  have hhas : result.Has (.type t) := ht
  rcases analyze_fst_cases prog hcached node with hresult | ⟨info, hresult⟩
  · simp [result, hresult, createUnknown, ofState] at ht
  · simp only [result, hresult, has_filterIgnoredExceptions] at hhas
    exact hhas.2 t rfl

end Analyzer

end Pview.Exceptions
