import Mathlib.Data.Finset.Dedup
import Mathlib.Logic.Function.Basic
import Pview.Exceptions.ExceptionInfo

/-!
# The exception analyzer

`throwsException` walks a function through its statements and the functions
they call.  A set of the functions entered guards it against recursion, and
pview's level limit cuts it off after a number of nested statements and calls.
The walk is written over any monad, and what it does where the limit cuts it
off is a parameter: the code returns that nothing is thrown.
-/

namespace Pview.Exceptions

/-- A statement as the analysis sees it.  A handler without a type is
`catch (...)`; `thrownType` and the types of the handlers are unqualified and
desugared, handlers of references have the type referred to. -/
inductive Stmt (T F : Type) where
  | null
  | throwExpr (thrownType : T) (subExpr : Stmt T F)
  | rethrowExpr
  | tryStmt (tryBlock : Stmt T F) (handlers : List (Option T × Stmt T F))
  | callExpr (directCallee : Option F) (children : List (Stmt T F))
  | constructExpr (constructor : F) (args : List (Stmt T F))
  | defaultInitExpr (expr : Stmt T F)
  | other (children : List (Stmt T F))

/-- Induction with a hypothesis for every statement of a list. -/
@[elab_as_elim, induction_eliminator]
theorem Stmt.statementInduction {T F : Type} {motive : Stmt T F → Prop}
    (null : motive .null)
    (throwExpr : ∀ thrownType subExpr, motive subExpr →
      motive (.throwExpr thrownType subExpr))
    (rethrowExpr : motive .rethrowExpr)
    (tryStmt : ∀ tryBlock handlers, motive tryBlock →
      (∀ handler ∈ handlers, motive handler.2) →
      motive (.tryStmt tryBlock handlers))
    (callExpr : ∀ directCallee children, (∀ child ∈ children, motive child) →
      motive (.callExpr directCallee children))
    (constructExpr : ∀ constructor args, (∀ arg ∈ args, motive arg) →
      motive (.constructExpr constructor args))
    (defaultInitExpr : ∀ expr, motive expr → motive (.defaultInitExpr expr))
    (other : ∀ children, (∀ child ∈ children, motive child) →
      motive (.other children)) (st : Stmt T F) : motive st :=
  @Stmt.rec T F motive
    (fun handlers => ∀ handler ∈ handlers, motive handler.2)
    (fun children => ∀ child ∈ children, motive child)
    (fun handler => motive handler.2)
    null throwExpr rethrowExpr tryStmt callExpr constructExpr defaultInitExpr
    other (by simp) (fun _ _ ih ihs => List.forall_mem_cons.2 ⟨ih, ihs⟩)
    (by simp) (fun _ _ ih ihs => List.forall_mem_cons.2 ⟨ih, ihs⟩)
    (fun _ _ ih => ih) st

/-- A function; `exceptions` are the types of its exception specification. -/
structure FuncDecl (T F : Type) where
  body : Option (Stmt T F)
  inits : List (Stmt T F)
  exceptions : List T

structure Program (T R F : Type) where
  types : TypeInfo T R
  decl : F → FuncDecl T F

section Walk

variable {T R F : Type} [DecidableEq T] [DecidableEq R] [DecidableEq F]
variable {m : Type → Type} [Monad m] (prog : Program T R F)

def mergeAll {α : Type} (throws : α → m (ExceptionInfo T)) :
    ExceptionInfo T → List α → m (ExceptionInfo T)
  | results, [] => pure results
  | results, child :: children => do
      let excs ← throws child
      mergeAll throws (results.merge excs) children

def throwsHandlers (throws : Finset T → Stmt T F → m (ExceptionInfo T)) :
    List (Option T × Stmt T F) → ExceptionInfo T → ExceptionInfo T →
      m (ExceptionInfo T)
  | [], results, uncaught => pure (results.merge uncaught)
  | (none, handlerBlock) :: handlers, results, uncaught => do
      let rethrown ← throws uncaught.thrownExceptions handlerBlock
      throwsHandlers throws handlers (results.merge rethrown) .clear
  | (some caughtType, handlerBlock) :: handlers, results, uncaught =>
      let filtered := uncaught.filterByCatch prog.types caughtType
      if filtered.2 then do
        let rethrown ← throws {caughtType} handlerBlock
        throwsHandlers throws handlers (results.merge rethrown) filtered.1
      else throwsHandlers throws handlers results filtered.1

/-- `throwsException` on a statement; `throws` and `throwsCallee` are its
calls for statements and functions at the next level. -/
def throwsStmtStep (throws : Finset T → Stmt T F → m (ExceptionInfo T))
    (throwsCallee : F → m (ExceptionInfo T)) (caught : Finset T) :
    Stmt T F → m (ExceptionInfo T)
  | .null => pure .createNonThrowing
  | .throwExpr thrownType _ =>
      pure (ExceptionInfo.createNonThrowing.registerException thrownType)
  | .rethrowExpr =>
      pure (ExceptionInfo.createNonThrowing.registerExceptions caught)
  | .tryStmt tryBlock handlers => do
      let uncaught ← throws caught tryBlock
      throwsHandlers prog throws handlers .createNonThrowing uncaught
  | .callExpr none _ => pure .createNonThrowing
  | .callExpr (some func) _ => do
      let excs ← throwsCallee func
      pure (ExceptionInfo.createNonThrowing.merge excs)
  | .constructExpr constructor _ => do
      let excs ← throwsCallee constructor
      pure (ExceptionInfo.createNonThrowing.merge excs)
  | .defaultInitExpr expr => do
      let excs ← throws caught expr
      pure (ExceptionInfo.createNonThrowing.merge excs)
  | .other children => mergeAll (throws caught) .createNonThrowing children

/-- `throwsException` on a function that is not on the call stack; `throws`
is its call for a statement at the next level, with the function entered. -/
def throwsFuncStep (throws : Stmt T F → m (ExceptionInfo T)) (func : F) :
    m (ExceptionInfo T) :=
  match (prog.decl func).body with
  | some body => do
      let result ← throws body
      mergeAll throws result (prog.decl func).inits
  | none =>
      pure ((prog.decl func).exceptions.foldl
        ExceptionInfo.registerException .createUnknown)

variable (cut : m (ExceptionInfo T))

mutual

/-- `throwsException` with the given number of levels left; `callStack` holds
the functions entered.  The code takes a function off again when it leaves
it, so that the set is the caller's once more. -/
def throwsFunc : Nat → Finset F → F → m (ExceptionInfo T)
  | 0, callStack, func =>
      if func ∈ callStack then pure .createNonThrowing else cut
  | levels + 1, callStack, func =>
      if func ∈ callStack then pure .createNonThrowing
      else throwsFuncStep prog
        (throwsStmt levels (insert func callStack) ∅) func

def throwsStmt : Nat → Finset F → Finset T → Stmt T F → m (ExceptionInfo T)
  | 0, _, _, _ => cut
  | levels + 1, callStack, caught, st =>
      throwsStmtStep prog (throwsStmt levels callStack)
        (throwsFunc levels callStack) caught st

end

end Walk

/-! ## The analyzer object -/

inductive Node (T F : Type) where
  | func (func : F)
  | stmt (st : Stmt T F)

structure Analyzer (T F : Type) where
  maxTraceLevel : Int
  ignoreBadAlloc : Bool
  ignoredExceptions : List String
  functionCache : F → Option (ExceptionInfo T)

namespace Analyzer

variable {T R F : Type} [DecidableEq T] [DecidableEq R] [DecidableEq F]
variable (prog : Program T R F)

def new : Analyzer T F where
  maxTraceLevel := -1
  ignoreBadAlloc := true
  ignoredExceptions := []
  functionCache := fun _ => none

/-- The levels left where `CurLevel` is zero. -/
def levels (analyzer : Analyzer T F) : Nat := analyzer.maxTraceLevel.toNat

def throwsException (levels : Nat) : Node T F → ExceptionInfo T
  | .func func =>
      throwsFunc (m := Id) prog ExceptionInfo.createNonThrowing levels ∅ func
  | .stmt st =>
      throwsStmt (m := Id) prog ExceptionInfo.createNonThrowing levels ∅ ∅ st

def analyzeImpl (analyzer : Analyzer T F) :
    Node T F → ExceptionInfo T × Analyzer T F
  | .func func =>
      match analyzer.functionCache func with
      | some exceptionList => (exceptionList, analyzer)
      | none =>
          let exceptionList :=
            throwsException prog analyzer.levels (.func func)
          (exceptionList,
            { analyzer with
              functionCache := Function.update analyzer.functionCache func
                (some exceptionList) })
  | .stmt st => (throwsException prog analyzer.levels (.stmt st), analyzer)

def analyze (analyzer : Analyzer T F) (node : Node T F) :
    ExceptionInfo T × Analyzer T F :=
  let (exceptionList, analyzer) := analyzer.analyzeImpl prog node
  if exceptionList.behaviour = .notThrowing ∨
      exceptionList.behaviour = .unknown then (exceptionList, analyzer)
  else
    (exceptionList.filterIgnoredExceptions prog.types
      analyzer.ignoredExceptions analyzer.ignoreBadAlloc, analyzer)

inductive Call (T F : Type) where
  | setMaxTraceLevel (level : Int)
  | ignoreBadAlloc (shallIgnore : Bool)
  | ignoreExceptions (exceptionNames : List String)
  | analyze (node : Node T F)

def perform (analyzer : Analyzer T F) : Call T F → Analyzer T F
  | .setMaxTraceLevel level => { analyzer with maxTraceLevel := level }
  | .ignoreBadAlloc shallIgnore =>
      { analyzer with ignoreBadAlloc := shallIgnore }
  | .ignoreExceptions exceptionNames =>
      { analyzer with ignoredExceptions := exceptionNames }
  | .analyze node => (analyzer.analyze prog node).2

def performAll (analyzer : Analyzer T F) (calls : List (Call T F)) :
    Analyzer T F :=
  calls.foldl (perform prog) analyzer

end Analyzer

section ParseTask

variable {T R F : Type} [DecidableEq T] [DecidableEq R] [DecidableEq F]

def funcMightThrow (prog : Program T R F) (fd : F) : Bool :=
  let exceptionTracer := Analyzer.new.performAll prog
    [.setMaxTraceLevel 20, .ignoreExceptions ["AssertionError"],
      .ignoreBadAlloc true]
  let exceptionBehaviour := (exceptionTracer.analyze prog (.func fd)).1.behaviour
  exceptionBehaviour = .throwing

end ParseTask

end Pview.Exceptions
