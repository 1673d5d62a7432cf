import Mathlib.Data.Set.Defs
import Pview.Exceptions.Findings

/-!
# Which exceptions may escape

The meaning the analysis is measured by: any branch may be taken, operands and
arguments are evaluated, a function without a body may raise an exception of an
unknown type, the first handler that matches catches, and `throw;` raises the
exception being handled again, also in a function that the handler calls.
-/

namespace Pview.Exceptions

variable {T R F : Type} [DecidableEq T] [DecidableEq R]

/-- An unknown exception may or may not be of the type of a handler. -/
def MayCatch (types : TypeInfo T R) : Option T → Raised T → Prop
  | none, _ => True
  | some caughtType, .type t => catches types caughtType t = true
  | some _, .unknown => True

/-- The node may raise `x` while the exception `handled` is being handled, by
an execution of at most this depth. -/
inductive Raises (prog : Program T R F) :
    Nat → Option (Raised T) → Node T F → Raised T → Prop
  | body {depth handled func st x}
      (hbody : (prog.decl func).body = some st)
      (raised : Raises prog depth handled (.stmt st) x) :
      Raises prog (depth + 1) handled (.func func) x
  | init {depth handled func st init x}
      (hbody : (prog.decl func).body = some st)
      (hinit : init ∈ (prog.decl func).inits)
      (raised : Raises prog depth handled (.stmt init) x) :
      Raises prog (depth + 1) handled (.func func) x
  | noBody {depth handled func} (hbody : (prog.decl func).body = none) :
      Raises prog (depth + 1) handled (.func func) .unknown
  | exception {depth handled func t} (hbody : (prog.decl func).body = none)
      (hspec : t ∈ (prog.decl func).exceptions) :
      Raises prog (depth + 1) handled (.func func) (.type t)
  | throw {depth handled thrownType subExpr} :
      Raises prog (depth + 1) handled
        (.stmt (.throwExpr thrownType subExpr)) (.type thrownType)
  | operand {depth handled thrownType subExpr x}
      (raised : Raises prog depth handled (.stmt subExpr) x) :
      Raises prog (depth + 1) handled
        (.stmt (.throwExpr thrownType subExpr)) x
  | rethrow {depth x} :
      Raises prog (depth + 1) (some x) (.stmt .rethrowExpr) x
  | uncaught {depth handled tryBlock handlers x}
      (raised : Raises prog depth handled (.stmt tryBlock) x)
      (passed : ∀ handler ∈ handlers, Passes prog.types handler.1 x) :
      Raises prog (depth + 1) handled (.stmt (.tryStmt tryBlock handlers)) x
  | caught {depth handled tryBlock handlers handler thrown x}
      (raised : Raises prog depth handled (.stmt tryBlock) thrown)
      (reached : Reaches prog.types handlers handler thrown)
      (caught : MayCatch prog.types handler.1 thrown)
      (handling : Raises prog depth (some thrown) (.stmt handler.2) x) :
      Raises prog (depth + 1) handled (.stmt (.tryStmt tryBlock handlers)) x
  | callee {depth handled func children x}
      (raised : Raises prog depth handled (.func func) x) :
      Raises prog (depth + 1) handled
        (.stmt (.callExpr (some func) children)) x
  | indirectCallee {depth handled children} :
      Raises prog (depth + 1) handled (.stmt (.callExpr none children))
        .unknown
  | callArgument {depth handled directCallee children child x}
      (hchild : child ∈ children)
      (raised : Raises prog depth handled (.stmt child) x) :
      Raises prog (depth + 1) handled
        (.stmt (.callExpr directCallee children)) x
  | constructor {depth handled constructor args x}
      (raised : Raises prog depth handled (.func constructor) x) :
      Raises prog (depth + 1) handled
        (.stmt (.constructExpr constructor args)) x
  | constructorArgument {depth handled constructor args arg x}
      (harg : arg ∈ args) (raised : Raises prog depth handled (.stmt arg) x) :
      Raises prog (depth + 1) handled
        (.stmt (.constructExpr constructor args)) x
  | defaultInit {depth handled expr x}
      (raised : Raises prog depth handled (.stmt expr) x) :
      Raises prog (depth + 1) handled (.stmt (.defaultInitExpr expr)) x
  | child {depth handled children child x} (hchild : child ∈ children)
      (raised : Raises prog depth handled (.stmt child) x) :
      Raises prog (depth + 1) handled (.stmt (.other children)) x

namespace Raises

variable {prog : Program T R F} {depth : Nat} {handled : Option (Raised T)}
  {node : Node T F} {x : Raised T}

theorem succ (h : Raises prog depth handled node x) :
    Raises prog (depth + 1) handled node x := by
  induction h with
  | body hbody _ ih => exact .body hbody ih
  | init hbody hinit _ ih => exact .init hbody hinit ih
  | noBody hbody => exact .noBody hbody
  | exception hbody hspec => exact .exception hbody hspec
  | throw => exact .throw
  | operand _ ih => exact .operand ih
  | rethrow => exact .rethrow
  | uncaught _ passed ih => exact .uncaught ih passed
  | caught _ reached caught _ ihRaised ihHandling =>
      exact .caught ihRaised reached caught ihHandling
  | callee _ ih => exact .callee ih
  | indirectCallee => exact .indirectCallee
  | callArgument hchild _ ih => exact .callArgument hchild ih
  | constructor _ ih => exact .constructor ih
  | constructorArgument harg _ ih => exact .constructorArgument harg ih
  | defaultInit _ ih => exact .defaultInit ih
  | child hchild _ ih => exact .child hchild ih

theorem mono {depth' : Nat} (hle : depth ≤ depth')
    (h : Raises prog depth handled node x) :
    Raises prog depth' handled node x := by
  induction hle with
  | refl => exact h
  | step _ ih => exact ih.succ

theorem weaken (h : Raises prog depth none node x)
    (handled : Option (Raised T)) : Raises prog depth handled node x := by
  generalize hnone : (none : Option (Raised T)) = before at h
  induction h with
  | body hbody _ ih => exact .body hbody (ih hnone)
  | init hbody hinit _ ih => exact .init hbody hinit (ih hnone)
  | noBody hbody => exact .noBody hbody
  | exception hbody hspec => exact .exception hbody hspec
  | throw => exact .throw
  | operand _ ih => exact .operand (ih hnone)
  | rethrow => cases hnone
  | uncaught _ passed ih => exact .uncaught (ih hnone) passed
  | caught _ reached caught handling ihRaised =>
      exact .caught (ihRaised hnone) reached caught handling
  | callee _ ih => exact .callee (ih hnone)
  | indirectCallee => exact .indirectCallee
  | callArgument hchild _ ih => exact .callArgument hchild (ih hnone)
  | constructor _ ih => exact .constructor (ih hnone)
  | constructorArgument harg _ ih => exact .constructorArgument harg (ih hnone)
  | defaultInit _ ih => exact .defaultInit (ih hnone)
  | child hchild _ ih => exact .child hchild (ih hnone)

end Raises

/-- The exception may escape from the function when it is called. -/
def MayEscape (prog : Program T R F) (func : F) (x : Raised T) : Prop :=
  ∃ depth, Raises prog depth none (.func func) x

theorem mayEscape_of_body {prog : Program T R F} {func : F} {st : Stmt T F}
    (hbody : (prog.decl func).body = some st)
    (hinits : (prog.decl func).inits = []) {x : Raised T} :
    MayEscape prog func x ↔ ∃ depth, Raises prog depth none (.stmt st) x := by
  constructor
  · rintro ⟨depth, h⟩
    cases h with
    | body hbody' raised =>
        cases hbody.symm.trans hbody'
        exact ⟨_, raised⟩
    | init _ hinit _ => simp [hinits] at hinit
    | noBody hnone => cases hbody.symm.trans hnone
    | exception hnone _ => cases hbody.symm.trans hnone
  · rintro ⟨depth, raised⟩
    exact ⟨depth + 1, .body hbody raised⟩

def MayRaise (prog : Program T R F) (context : Set (Raised T))
    (node : Node T F) (x : Raised T) : Prop :=
  ∃ depth handled, (∀ y ∈ handled, y ∈ context) ∧
    Raises prog depth handled node x

/-- What a handler of a try statement in this context may handle. -/
def Handled (prog : Program T R F) (context : Set (Raised T))
    (tryBlock : Stmt T F) (handlers : List (Option T × Stmt T F))
    (handler : Option T × Stmt T F) : Set (Raised T) :=
  {x | MayRaise prog context (.stmt tryBlock) x ∧
    Reaches prog.types handlers handler x ∧ MayCatch prog.types handler.1 x}

namespace MayRaise

variable {prog : Program T R F} {context : Set (Raised T)}
  {node : Node T F} {x : Raised T}

theorem of_empty (h : MayRaise prog ∅ node x) :
    ∃ depth, Raises prog depth none node x := by
  obtain ⟨depth, handled, hcontext, hraised⟩ := h
  cases handled with
  | none => exact ⟨depth, hraised⟩
  | some y => exact absurd (hcontext y rfl) (Set.notMem_empty y)

theorem of_handler {tryBlock : Stmt T F}
    {handlers : List (Option T × Stmt T F)} {handler : Option T × Stmt T F}
    (hreached : (Handled prog context tryBlock handlers handler).Nonempty)
    (h : MayRaise prog (Handled prog context tryBlock handlers handler)
      (.stmt handler.2) x) :
    MayRaise prog context (.stmt (.tryStmt tryBlock handlers)) x := by
  obtain ⟨depth, handled, hhandled, hraised⟩ := h
  have hhandling : ∃ y ∈ Handled prog context tryBlock handlers handler,
      Raises prog depth (some y) (.stmt handler.2) x := by
    cases handled with
    | none =>
        obtain ⟨y, hy⟩ := hreached
        exact ⟨y, hy, hraised.weaken (some y)⟩
    | some y => exact ⟨y, hhandled y rfl, hraised⟩
  obtain ⟨y, hy, hhandling⟩ := hhandling
  obtain ⟨⟨blockDepth, before, hbefore, hblock⟩, hreaches, hcaught⟩ := hy
  refine ⟨max blockDepth depth + 1, before, hbefore, ?_⟩
  exact .caught (hblock.mono (le_max_left _ _)) hreaches hcaught
    (hhandling.mono (le_max_right _ _))

end MayRaise

theorem mayCatch_type {types : TypeInfo T R} {caughtType : Option T} {t : T} :
    MayCatch types caughtType (.type t) ↔ Enters types caughtType t := by
  cases caughtType <;> rfl

end Pview.Exceptions
