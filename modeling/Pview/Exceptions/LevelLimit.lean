import Mathlib.Data.Finset.Card
import Mathlib.Data.Fintype.Sets
import Pview.Foundation.Fuel
import Pview.Exceptions.Findings

/-!
# The level limit

Without a limit the walk ends all the same in a program of finitely many
functions: a function entered is not entered again, and within a function the
statements get smaller.  From the number of levels that walk needs on, the
limit changes nothing; below it, every level adds to what is found.
-/

namespace Pview.Exceptions

open Foundation ExceptionInfo

variable {T R F : Type} [DecidableEq T] [DecidableEq R] [DecidableEq F]
variable (prog : Program T R F)

/-! ## The walk without a limit -/

/-- `throwsException` with the call stack as its only guard.  The fuel counts
down like the levels, but where it is used up there is no result. -/
def unlimitedFunc (fuel : Nat) (callStack : Finset F) (func : F) :
    Option (ExceptionInfo T) :=
  throwsFunc prog none fuel callStack func

def unlimitedStmt (fuel : Nat) (callStack : Finset F) (caught : Finset T)
    (st : Stmt T F) : Option (ExceptionInfo T) :=
  throwsStmt prog none fuel callStack caught st

omit [DecidableEq R] [DecidableEq F] in
theorem converges_mergeAll {α : Type}
    {throws : Nat → α → Option (ExceptionInfo T)} {children : List α}
    (hthrows : ∀ child ∈ children, ∃ out,
      Converges (fun fuel => throws fuel child) out)
    (results : ExceptionInfo T) :
    ∃ out, Converges (fun fuel => mergeAll (throws fuel) results children)
      out := by
  induction children generalizing results with
  | nil => exact ⟨results, 0, fun _ _ => rfl⟩
  | cons child children ih =>
      obtain ⟨hchild, hchildren⟩ := List.forall_mem_cons.1 hthrows
      obtain ⟨excs, hexcs⟩ := hchild
      obtain ⟨out, hout⟩ := ih hchildren (results.merge excs)
      exact ⟨out, hexcs.bind hout⟩

omit [DecidableEq F] in
theorem converges_throwsHandlers
    {throws : Nat → Finset T → Stmt T F → Option (ExceptionInfo T)}
    {handlers : List (Option T × Stmt T F)}
    (hthrows : ∀ handler ∈ handlers, ∀ caught, ∃ out,
      Converges (fun fuel => throws fuel caught handler.2) out)
    (results uncaught : ExceptionInfo T) :
    ∃ out, Converges (fun fuel =>
      throwsHandlers prog (throws fuel) handlers results uncaught) out := by
  induction handlers generalizing results uncaught with
  | nil => exact ⟨results.merge uncaught, 0, fun _ _ => rfl⟩
  | cons handler handlers ih =>
      obtain ⟨hfirst, hhandlers⟩ := List.forall_mem_cons.1 hthrows
      obtain ⟨_ | caughtType, handlerBlock⟩ := handler
      · obtain ⟨rethrown, hrethrown⟩ := hfirst uncaught.thrownExceptions
        obtain ⟨out, hout⟩ := ih hhandlers (results.merge rethrown) clear
        exact ⟨out, hrethrown.bind hout⟩
      · simp only [throwsHandlers]
        split
        · obtain ⟨rethrown, hrethrown⟩ := hfirst {caughtType}
          obtain ⟨out, hout⟩ := ih hhandlers (results.merge rethrown) _
          exact ⟨out, hrethrown.bind hout⟩
        · exact ih hhandlers results _

theorem converges_merge {f : Nat → Option (ExceptionInfo T)}
    (hf : ∃ out, Converges f out) (results : ExceptionInfo T) :
    ∃ out, Converges (fun fuel => do
      let excs ← f fuel
      pure (results.merge excs)) out := by
  obtain ⟨excs, hexcs⟩ := hf
  exact ⟨results.merge excs, hexcs.bind (g := fun value _ =>
    some (results.merge value)) ⟨0, fun _ _ => rfl⟩⟩

theorem converges_unlimitedStmt {callStack : Finset F}
    (hcallee : ∀ func, ∃ out,
      Converges (fun fuel => unlimitedFunc prog fuel callStack func) out)
    (st : Stmt T F) (caught : Finset T) : ∃ out,
      Converges (fun fuel => unlimitedStmt prog fuel callStack caught st)
        out := by
  induction st generalizing caught with
  | null => exact ⟨_, .of_const fun _ => rfl⟩
  | throwExpr thrownType subExpr => exact ⟨_, .of_const fun _ => rfl⟩
  | rethrowExpr => exact ⟨_, .of_const fun _ => rfl⟩
  | tryStmt tryBlock handlers ihBlock ihHandlers =>
      obtain ⟨uncaught, huncaught⟩ := ihBlock caught
      obtain ⟨out, hout⟩ := converges_throwsHandlers prog ihHandlers
        createNonThrowing uncaught
      exact ⟨out, (huncaught.bind hout).of_succ fun _ => rfl⟩
  | callExpr directCallee children =>
      cases directCallee with
      | none => exact ⟨_, .of_const fun _ => rfl⟩
      | some func =>
          obtain ⟨out, hout⟩ := converges_merge (hcallee func)
            createNonThrowing
          exact ⟨out, hout.of_succ fun _ => rfl⟩
  | constructExpr constructor args =>
      obtain ⟨out, hout⟩ := converges_merge (hcallee constructor)
        createNonThrowing
      exact ⟨out, hout.of_succ fun _ => rfl⟩
  | defaultInitExpr expr ih =>
      obtain ⟨out, hout⟩ := converges_merge (ih caught) createNonThrowing
      exact ⟨out, hout.of_succ fun _ => rfl⟩
  | other children ih =>
      obtain ⟨out, hout⟩ := converges_mergeAll
        (fun child hchild => ih child hchild caught) createNonThrowing
      exact ⟨out, hout.of_succ fun _ => rfl⟩

theorem converges_throwsFuncStep {callStack : Finset F} {func : F}
    (hfresh : func ∉ callStack)
    (hstmt : ∀ st, ∃ out, Converges (fun fuel =>
      unlimitedStmt prog fuel (insert func callStack) ∅ st) out) :
    ∃ out, Converges (fun fuel => unlimitedFunc prog fuel callStack func)
      out := by
  have hstep : ∀ fuel, unlimitedFunc prog (fuel + 1) callStack func =
      throwsFuncStep prog
        (unlimitedStmt prog fuel (insert func callStack) ∅) func := by
    intro fuel
    simp only [unlimitedFunc, throwsFunc, hfresh, if_false]
    rfl
  cases hbody : (prog.decl func).body with
  | none =>
      refine ⟨(prog.decl func).exceptions.foldl registerException
        createUnknown, Converges.of_const fun fuel => ?_⟩
      simp only [hstep, throwsFuncStep, hbody]
      rfl
  | some body =>
      obtain ⟨result, hresult⟩ := hstmt body
      obtain ⟨out, hout⟩ := converges_mergeAll
        (fun init (_ : init ∈ (prog.decl func).inits) => hstmt init) result
      have hboth := hresult.bind (g := fun result fuel => mergeAll
        (unlimitedStmt prog fuel (insert func callStack) ∅) result
        (prog.decl func).inits) hout
      refine ⟨out, hboth.of_succ fun fuel => ?_⟩
      simp only [hstep, throwsFuncStep, hbody]
      rfl

/-- By induction on the number of functions that are not entered. -/
theorem converges_unlimitedFunc [Fintype F] (callStack : Finset F) (func : F) :
    ∃ out, Converges (fun fuel => unlimitedFunc prog fuel callStack func)
      out := by
  induction hleft : callStackᶜ.card using Nat.strong_induction_on
    generalizing callStack func with
  | _ left ih =>
      by_cases hentered : func ∈ callStack
      · refine ⟨createNonThrowing, 0, fun fuel _ => ?_⟩
        cases fuel <;> simp [unlimitedFunc, throwsFunc, hentered]
      · have hfewer : (insert func callStack)ᶜ.card < left := by
          rw [Finset.compl_insert, ← hleft]
          exact Finset.card_erase_lt_of_mem (Finset.mem_compl.2 hentered)
        refine converges_throwsFuncStep prog hentered fun st => ?_
        exact converges_unlimitedStmt prog
          (fun callee => ih _ hfewer _ callee rfl) st ∅

/-! ## Where it has a result, the limited walk has the same -/

section Agreement

omit [DecidableEq R] [DecidableEq F] in
theorem mergeAll_agrees {α : Type} {throws? : α → Option (ExceptionInfo T)}
    {throws : α → Id (ExceptionInfo T)}
    (hthrows : ∀ child out, throws? child = some out → throws child = out)
    {children : List α} {results out : ExceptionInfo T}
    (h : mergeAll throws? results children = some out) :
    mergeAll throws results children = out := by
  induction children generalizing results with
  | nil => exact Option.some.inj h
  | cons child children ih =>
      obtain ⟨excs, hexcs, hrest⟩ := Option.bind_eq_some_iff.1 h
      cases hthrows child excs hexcs
      exact ih hrest

variable {throws? : Finset T → Stmt T F → Option (ExceptionInfo T)}
  {throws : Finset T → Stmt T F → Id (ExceptionInfo T)}
  (hthrows : ∀ caught st out, throws? caught st = some out →
    throws caught st = out)

include hthrows

omit [DecidableEq F] in
theorem throwsHandlers_agrees {handlers : List (Option T × Stmt T F)}
    {results uncaught out : ExceptionInfo T}
    (h : throwsHandlers prog throws? handlers results uncaught = some out) :
    throwsHandlers prog throws handlers results uncaught = out := by
  induction handlers generalizing results uncaught with
  | nil => exact Option.some.inj h
  | cons handler handlers ih =>
      obtain ⟨_ | caughtType, handlerBlock⟩ := handler
      · obtain ⟨rethrown, hrethrown, hrest⟩ := Option.bind_eq_some_iff.1 h
        cases hthrows _ _ _ hrethrown
        exact ih hrest
      · simp only [throwsHandlers] at h ⊢
        split at h
        · rename_i hfiltered
          obtain ⟨rethrown, hrethrown, hrest⟩ := Option.bind_eq_some_iff.1 h
          cases hthrows _ _ _ hrethrown
          rw [if_pos hfiltered]
          exact ih hrest
        · rename_i hfiltered
          rw [if_neg hfiltered]
          exact ih h

omit [DecidableEq F] in
theorem throwsStmtStep_agrees {throwsCallee? : F → Option (ExceptionInfo T)}
    {throwsCallee : F → Id (ExceptionInfo T)}
    (hcallee : ∀ func out, throwsCallee? func = some out →
      throwsCallee func = out)
    {caught : Finset T} {st : Stmt T F} {out : ExceptionInfo T}
    (h : throwsStmtStep prog throws? throwsCallee? caught st = some out) :
    throwsStmtStep prog throws throwsCallee caught st = out := by
  cases st with
  | null => exact Option.some.inj h
  | throwExpr thrownType subExpr => exact Option.some.inj h
  | rethrowExpr => exact Option.some.inj h
  | tryStmt tryBlock handlers =>
      obtain ⟨uncaught, huncaught, hrest⟩ := Option.bind_eq_some_iff.1 h
      cases hthrows _ _ _ huncaught
      exact throwsHandlers_agrees prog hthrows hrest
  | callExpr directCallee children =>
      cases directCallee with
      | none => exact Option.some.inj h
      | some func =>
          obtain ⟨excs, hexcs, hrest⟩ := Option.bind_eq_some_iff.1 h
          cases hcallee _ _ hexcs
          exact Option.some.inj hrest
  | constructExpr constructor args =>
      obtain ⟨excs, hexcs, hrest⟩ := Option.bind_eq_some_iff.1 h
      cases hcallee _ _ hexcs
      exact Option.some.inj hrest
  | defaultInitExpr expr =>
      obtain ⟨excs, hexcs, hrest⟩ := Option.bind_eq_some_iff.1 h
      cases hthrows _ _ _ hexcs
      exact Option.some.inj hrest
  | other children => exact mergeAll_agrees (hthrows caught) h

end Agreement

omit [DecidableEq R] [DecidableEq F] in
theorem throwsFuncStep_agrees {throws? : Stmt T F → Option (ExceptionInfo T)}
    {throws : Stmt T F → Id (ExceptionInfo T)}
    (hthrows : ∀ st out, throws? st = some out → throws st = out)
    {func : F} {out : ExceptionInfo T}
    (h : throwsFuncStep prog throws? func = some out) :
    throwsFuncStep prog throws func = out := by
  simp only [throwsFuncStep] at h ⊢
  split at h
  · obtain ⟨result, hresult, hrest⟩ := Option.bind_eq_some_iff.1 h
    cases hthrows _ _ hresult
    exact mergeAll_agrees hthrows hrest
  · exact Option.some.inj h

theorem unlimited_agrees (fuel : Nat) :
    (∀ callStack func out, unlimitedFunc prog fuel callStack func = some out →
      throwsFunc (m := Id) prog createNonThrowing fuel callStack func = out) ∧
    ∀ callStack caught st out,
      unlimitedStmt prog fuel callStack caught st = some out →
      throwsStmt (m := Id) prog createNonThrowing fuel callStack caught st =
        out := by
  induction fuel with
  | zero =>
      constructor
      · intro callStack func out h
        simp only [unlimitedFunc, throwsFunc] at h ⊢
        split at h
        · rename_i hentered
          rw [if_pos hentered]
          exact Option.some.inj h
        · cases h
      · intro callStack caught st out h
        cases h
  | succ fuel ih =>
      obtain ⟨ihFunc, ihStmt⟩ := ih
      constructor
      · intro callStack func out h
        simp only [unlimitedFunc, throwsFunc] at h ⊢
        split at h
        · rename_i hentered
          rw [if_pos hentered]
          exact Option.some.inj h
        · rename_i hfresh
          rw [if_neg hfresh]
          exact throwsFuncStep_agrees prog
            (ihStmt (insert func callStack) ∅) h
      · intro callStack caught st out h
        exact throwsStmtStep_agrees prog (ihStmt callStack)
          (ihFunc callStack) h

/-! ## Levels -/

namespace Analyzer

/-- The result for a function with `MaxTraceLevel` at this level. -/
def atLevel (level : Int) (func : F) : ExceptionInfo T :=
  throwsException prog level.toNat (.func func)

theorem has_atLevel (level : Int) (func : F) (x : Raised T) :
    (atLevel prog level func).Has x ↔
      Finds prog level.toNat ∅ none (.func func) x :=
  has_throwsException prog level.toNat (.func func) x

theorem has_atLevel_mono {level level' : Int} (hle : level ≤ level')
    {func : F} {x : Raised T} (h : (atLevel prog level func).Has x) :
    (atLevel prog level' func).Has x := by
  rw [has_atLevel] at h ⊢
  exact h.mono (Int.toNat_le_toNat hle)

/-- The types and the unknown elements only grow with the level, and from some
level on the result is that of the walk without a limit. -/
theorem atLevel_limit [Fintype F] (func : F) :
    (∀ level level', level ≤ level' →
      (atLevel prog level func).thrownExceptions ⊆
          (atLevel prog level' func).thrownExceptions ∧
        ((atLevel prog level func).containsUnknown = true →
          (atLevel prog level' func).containsUnknown = true)) ∧
    ∃ info, Converges (fun fuel => unlimitedFunc prog fuel ∅ func) info ∧
      ∃ bound, ∀ level, bound ≤ level → atLevel prog level func = info := by
  constructor
  · intro level level' hle
    exact ⟨fun t => has_atLevel_mono prog hle (x := .type t),
      has_atLevel_mono prog hle (x := .unknown)⟩
  · obtain ⟨info, bound, hbound⟩ := converges_unlimitedFunc prog ∅ func
    refine ⟨info, ⟨bound, hbound⟩, bound, fun level hle => ?_⟩
    exact (unlimited_agrees prog level.toNat).1 ∅ func info
      (hbound level.toNat (by omega))

end Analyzer

end Pview.Exceptions
