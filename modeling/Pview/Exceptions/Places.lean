import Mathlib.Data.Set.Insert
import Mathlib.Logic.Relation
import Pview.Exceptions.Semantics

/-!
# Where the analyzer looks

From a node the analyzer goes to the parts that its branch for the node
analyzes.  It does not go into a function on the call stack, and into a typed
handler only if something it finds in the try block enters the handler; it goes
into every `catch (...)`.  Beside what the analyzer knows at a place stands
what it does not: the exceptions that may be the one being handled.
-/

namespace Pview.Exceptions

variable {T R F : Type} [DecidableEq T] [DecidableEq R]

/-- A node with the functions entered on the way to it, what a `throw;` is
taken to throw there, and what may be handled there. -/
structure Place (T F : Type) where
  callStack : Finset F
  caught : Set T
  node : Node T F
  context : Set (Raised T)

def Place.start (func : F) : Place T F := ⟨∅, ∅, .func func, ∅⟩

/-- What a `throw;` in the handler is taken to throw, where the try block is
found to throw these types. -/
def Rethrown (types : TypeInfo T R) (handlers : List (Option T × Stmt T F))
    (thrown : T → Prop) (handler : Option T × Stmt T F) : Set T :=
  match handler.1 with
  | none => {t | thrown t ∧ Reaches types handlers handler (.type t)}
  | some caughtType => {caughtType}

/-- The analyzer analyzes the handler, where the try block is found to throw
these types. -/
def LooksInto (types : TypeInfo T R) (handlers : List (Option T × Stmt T F))
    (thrown : T → Prop) (handler : Option T × Stmt T F) : Prop :=
  handler ∈ handlers ∧ (handler.1 = none ∨ ∃ t, thrown t ∧
    Reaches types handlers handler (.type t) ∧ Enters types handler.1 t)

theorem looksInto_of_enters {types : TypeInfo T R}
    {handlers : List (Option T × Stmt T F)} {handler : Option T × Stmt T F}
    (thrown : T → Prop) {t : T} (hthrown : thrown t)
    (hreached : Reaches types handlers handler (.type t))
    (hentered : Enters types handler.1 t) :
    LooksInto types handlers thrown handler ∧
      handler.1.getD t ∈ Rethrown types handlers thrown handler := by
  refine ⟨⟨hreached.mem, .inr ⟨t, hthrown, hreached, hentered⟩⟩, ?_⟩
  unfold Rethrown
  cases hhandler : handler.1 with
  | none => exact ⟨hthrown, hreached⟩
  | some caughtType => exact rfl

variable [DecidableEq F] (prog : Program T R F)

/-- What the analysis with so many levels finds at a node, if a `throw;` is
taken to throw one of these types. -/
def Gathers (levels : Nat) (callStack : Finset F) (caught : Set T)
    (node : Node T F) (x : Raised T) : Prop :=
  ∃ t?, (∀ t ∈ t?, t ∈ caught) ∧ Finds prog levels callStack t? node x

def GathersAtAll (callStack : Finset F) (caught : Set T) (node : Node T F)
    (x : Raised T) : Prop :=
  ∃ levels, Gathers prog levels callStack caught node x

/-- The analyzer goes from place to place; `gathers` is what it finds in a try
block. -/
inductive Goes (gathers : Finset F → Set T → Node T F → Raised T → Prop) :
    Place T F → Place T F → Prop
  | body {callStack caught callee context st} (fresh : callee ∉ callStack)
      (hbody : (prog.decl callee).body = some st) :
      Goes gathers ⟨callStack, caught, .func callee, context⟩
        ⟨insert callee callStack, ∅, .stmt st, context⟩
  | init {callStack caught callee context st init}
      (fresh : callee ∉ callStack)
      (hbody : (prog.decl callee).body = some st)
      (hinit : init ∈ (prog.decl callee).inits) :
      Goes gathers ⟨callStack, caught, .func callee, context⟩
        ⟨insert callee callStack, ∅, .stmt init, context⟩
  | tryBlock {callStack caught context tryBlock handlers} :
      Goes gathers
        ⟨callStack, caught, .stmt (.tryStmt tryBlock handlers), context⟩
        ⟨callStack, caught, .stmt tryBlock, context⟩
  | handler {callStack caught context tryBlock handlers handler}
      (looked : LooksInto prog.types handlers
        (fun t => gathers callStack caught (.stmt tryBlock) (.type t))
        handler) :
      Goes gathers
        ⟨callStack, caught, .stmt (.tryStmt tryBlock handlers), context⟩
        ⟨callStack, Rethrown prog.types handlers
          (fun t => gathers callStack caught (.stmt tryBlock) (.type t))
          handler, .stmt handler.2,
          Handled prog context tryBlock handlers handler⟩
  | callee {callStack caught context callee children} :
      Goes gathers
        ⟨callStack, caught, .stmt (.callExpr (some callee) children), context⟩
        ⟨callStack, ∅, .func callee, context⟩
  | constructor {callStack caught context constructor args} :
      Goes gathers
        ⟨callStack, caught, .stmt (.constructExpr constructor args), context⟩
        ⟨callStack, ∅, .func constructor, context⟩
  | defaultInit {callStack caught context expr} :
      Goes gathers
        ⟨callStack, caught, .stmt (.defaultInitExpr expr), context⟩
        ⟨callStack, caught, .stmt expr, context⟩
  | child {callStack caught context children child}
      (hchild : child ∈ children) :
      Goes gathers ⟨callStack, caught, .stmt (.other children), context⟩
        ⟨callStack, caught, .stmt child, context⟩

section Gathers

variable {prog} {levels : Nat} {place next : Place T F} {x : Raised T}

theorem Gathers.mono {levels' : Nat} (hle : levels ≤ levels')
    {callStack : Finset F} {caught : Set T} {node : Node T F}
    (h : Gathers prog levels callStack caught node x) :
    Gathers prog levels' callStack caught node x := by
  obtain ⟨t?, hcaught, hfinds⟩ := h
  exact ⟨t?, hcaught, hfinds.mono hle⟩

theorem gathers_empty {callStack : Finset F} {node : Node T F} :
    Gathers prog levels callStack ∅ node x ↔
      Finds prog levels callStack none node x := by
  constructor
  · rintro ⟨_ | t, hcaught, hfinds⟩
    · exact hfinds
    · cases hcaught t rfl
  · intro hfinds
    exact ⟨none, by simp, hfinds⟩

theorem Goes.gathers {found : Finset F → Set T → Node T F → Raised T → Prop}
    (h : Goes prog found place next)
    (hnode : ∀ tryBlock handlers,
      place.node ≠ .stmt (.tryStmt tryBlock handlers))
    (hgathers : Gathers prog levels next.callStack next.caught next.node x) :
    Gathers prog (levels + 1) place.callStack place.caught place.node x := by
  cases h with
  | body fresh hbody =>
      exact ⟨none, by simp, .body fresh hbody (gathers_empty.1 hgathers)⟩
  | init fresh hbody hinit =>
      exact ⟨none, by simp, .init fresh hbody hinit (gathers_empty.1 hgathers)⟩
  | tryBlock => exact absurd rfl (hnode _ _)
  | handler _ => exact absurd rfl (hnode _ _)
  | callee => exact ⟨none, by simp, .call (gathers_empty.1 hgathers)⟩
  | constructor =>
      exact ⟨none, by simp, .construct (gathers_empty.1 hgathers)⟩
  | defaultInit =>
      obtain ⟨t?, hcaught, hfinds⟩ := hgathers
      exact ⟨t?, hcaught, .defaultInit hfinds⟩
  | child hchild =>
      obtain ⟨t?, hcaught, hfinds⟩ := hgathers
      exact ⟨t?, hcaught, .child hchild hfinds⟩

end Gathers

/-- The analysis of the function with `top` levels gets to the place with
`levels` left. -/
inductive Visits (func : F) (top : Nat) : Nat → Place T F → Prop
  | start : Visits func top top (.start func)
  | step {levels place next} (visited : Visits func top (levels + 1) place)
      (goes : Goes prog (Gathers prog levels) place next) :
      Visits func top levels next

def Leads : Place T F → Place T F → Prop :=
  Relation.ReflTransGen (Goes prog (GathersAtAll prog))

def Reached (func : F) : Place T F → Prop := Leads prog (.start func)

end Pview.Exceptions
