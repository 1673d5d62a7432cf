import Mathlib.Data.Finset.Insert
import Mathlib.Data.Finset.Filter
import Mathlib.Data.Finset.Lattice.Basic
import Mathlib.Data.Finset.SDiff

/-!
# Exception information

What `ExceptionAnalyzer` gathers about a statement or function: the types that
may be thrown, whether something unknown is called, and a state that the
operations below do not always keep in step with the two.
-/

namespace Pview.Exceptions

inductive State where
  | throwing
  | notThrowing
  | unknown
  deriving DecidableEq, Repr

/-- The declaration behind a class or enumeration type; `name` is none when it
is not an identifier. -/
structure TagDecl where
  name : Option String
  isInStdNamespace : Bool
  deriving DecidableEq, Repr

/-- What the analyzer asks clang about types; `R` are the class definitions. -/
structure TypeInfo (T R : Type) where
  getAsCXXRecordDecl : T → Option R
  forallBases : R → (R → Bool) → Bool
  getAsTagDecl : T → Option TagDecl

section Types

variable {T R : Type} [DecidableEq T] [DecidableEq R] (types : TypeInfo T R)

def isBaseOf (derivedType baseType : T) : Bool :=
  match types.getAsCXXRecordDecl derivedType,
      types.getAsCXXRecordDecl baseType with
  | some derivedClass, some baseClass =>
      !types.forallBases derivedClass fun cur => cur ≠ baseClass
  | _, _ => false

/-- The test by which `filterByCatch` deletes a type. -/
def catches (baseClass type : T) : Bool :=
  decide (type = baseClass) || isBaseOf types type baseClass

/-- The test by which `filterIgnoredExceptions` deletes a type. -/
def isIgnored (ignoredTypes : List String) (ignoreBadAlloc : Bool)
    (type : T) : Bool :=
  match types.getAsTagDecl type with
  | some ⟨some name, isInStdNamespace⟩ =>
      (ignoreBadAlloc && (name = "bad_alloc" && isInStdNamespace)) ||
        name ∈ ignoredTypes
  | _ => false

end Types

structure ExceptionInfo (T : Type) where
  behaviour : State
  containsUnknown : Bool
  thrownExceptions : Finset T
  deriving DecidableEq

namespace ExceptionInfo

variable {T R : Type} [DecidableEq T] [DecidableEq R]

def ofState (s : State) : ExceptionInfo T where
  behaviour := s
  containsUnknown := s = .unknown
  thrownExceptions := ∅

def createUnknown : ExceptionInfo T := ofState .unknown

def createNonThrowing : ExceptionInfo T := ofState .throwing

def registerException (info : ExceptionInfo T) (exceptionType : T) :
    ExceptionInfo T :=
  { info with
    behaviour := .throwing
    thrownExceptions := insert exceptionType info.thrownExceptions }

def registerExceptions (info : ExceptionInfo T) (exceptions : Finset T) :
    ExceptionInfo T :=
  if exceptions = ∅ then info
  else { info with
    behaviour := .throwing
    thrownExceptions := info.thrownExceptions ∪ exceptions }

def merge (info other : ExceptionInfo T) : ExceptionInfo T where
  behaviour :=
    if other.behaviour = .throwing then .throwing
    else if other.behaviour = .unknown ∧ info.behaviour = .notThrowing then
      .unknown
    else info.behaviour
  containsUnknown := info.containsUnknown || other.containsUnknown
  thrownExceptions := info.thrownExceptions ∪ other.thrownExceptions

def reevaluateBehaviour (info : ExceptionInfo T) : ExceptionInfo T :=
  { info with
    behaviour :=
      if info.thrownExceptions = ∅ then
        if info.containsUnknown then .unknown else .notThrowing
      else .throwing }

def filterByCatch (types : TypeInfo T R) (info : ExceptionInfo T)
    (baseClass : T) : ExceptionInfo T × Bool :=
  let typesToDelete := info.thrownExceptions.filter fun t =>
    catches types baseClass t = true
  ({ info with
      thrownExceptions := info.thrownExceptions \ typesToDelete
      }.reevaluateBehaviour,
    decide (typesToDelete ≠ ∅))

def filterIgnoredExceptions (types : TypeInfo T R) (info : ExceptionInfo T)
    (ignoredTypes : List String) (ignoreBadAlloc : Bool) : ExceptionInfo T :=
  let typesToDelete :=
    info.thrownExceptions.filter fun t =>
      isIgnored types ignoredTypes ignoreBadAlloc t = true
  { info with
    thrownExceptions := info.thrownExceptions \ typesToDelete
    }.reevaluateBehaviour

def clear : ExceptionInfo T where
  behaviour := .notThrowing
  containsUnknown := false
  thrownExceptions := ∅

end ExceptionInfo

/-! ## What an operation does to the types and the unknown elements -/

/-- An exception as the analysis knows it: by its type, or as one that a
function without a body may throw. -/
inductive Raised (T : Type) where
  | type (t : T)
  | unknown
  deriving DecidableEq, Repr

namespace ExceptionInfo

variable {T R : Type}

def Has (info : ExceptionInfo T) : Raised T → Prop
  | .type t => t ∈ info.thrownExceptions
  | .unknown => info.containsUnknown = true

@[simp] theorem has_type {info : ExceptionInfo T} {t : T} :
    info.Has (.type t) ↔ t ∈ info.thrownExceptions := Iff.rfl

@[simp] theorem has_unknown {info : ExceptionInfo T} :
    info.Has .unknown ↔ info.containsUnknown = true := Iff.rfl

@[simp] theorem not_has_createNonThrowing (x : Raised T) :
    ¬(createNonThrowing : ExceptionInfo T).Has x := by
  cases x <;> simp [createNonThrowing, ofState]

@[simp] theorem has_createUnknown (x : Raised T) :
    (createUnknown : ExceptionInfo T).Has x ↔ x = .unknown := by
  cases x <;> simp [createUnknown, ofState]

@[simp] theorem not_has_clear (x : Raised T) :
    ¬(clear : ExceptionInfo T).Has x := by
  cases x <;> simp [clear]

variable [DecidableEq T]

@[simp] theorem reevaluateBehaviour_thrownExceptions
    (info : ExceptionInfo T) :
    info.reevaluateBehaviour.thrownExceptions = info.thrownExceptions := rfl

@[simp] theorem reevaluateBehaviour_containsUnknown
    (info : ExceptionInfo T) :
    info.reevaluateBehaviour.containsUnknown = info.containsUnknown := rfl

@[simp] theorem has_registerException (info : ExceptionInfo T) (t : T)
    (x : Raised T) :
    (info.registerException t).Has x ↔ info.Has x ∨ x = .type t := by
  cases x <;> simp [registerException, or_comm]

theorem has_foldl_registerException (info : ExceptionInfo T)
    (exceptions : List T) (x : Raised T) :
    (exceptions.foldl registerException info).Has x ↔
      info.Has x ∨ ∃ t ∈ exceptions, x = .type t := by
  induction exceptions generalizing info with
  | nil => simp
  | cons t exceptions ih => simp [ih, or_assoc]

@[simp] theorem has_registerExceptions (info : ExceptionInfo T)
    (exceptions : Finset T) (x : Raised T) :
    (info.registerExceptions exceptions).Has x ↔
      info.Has x ∨ ∃ t ∈ exceptions, x = .type t := by
  unfold registerExceptions
  split
  · rename_i hempty
    simp [hempty]
  · cases x <;> simp

@[simp] theorem has_merge (info other : ExceptionInfo T) (x : Raised T) :
    (info.merge other).Has x ↔ info.Has x ∨ other.Has x := by
  cases x <;> simp [merge]

variable (types : TypeInfo T R)

@[simp] theorem has_filterIgnoredExceptions (info : ExceptionInfo T)
    (ignoredTypes : List String) (ignoreBadAlloc : Bool) (x : Raised T) :
    (info.filterIgnoredExceptions types ignoredTypes ignoreBadAlloc).Has x ↔
      info.Has x ∧ ∀ t, x = .type t →
        isIgnored types ignoredTypes ignoreBadAlloc t = false := by
  cases x with
  | type t => simp +contextual [filterIgnoredExceptions]
  | unknown => simp [filterIgnoredExceptions]

variable [DecidableEq R]

@[simp] theorem has_filterByCatch (info : ExceptionInfo T) (baseClass : T)
    (x : Raised T) :
    (info.filterByCatch types baseClass).1.Has x ↔
      info.Has x ∧ ∀ t, x = .type t → catches types baseClass t = false := by
  cases x with
  | type t => simp +contextual [filterByCatch]
  | unknown => simp [filterByCatch]

@[simp] theorem filterByCatch_filtered (info : ExceptionInfo T)
    (baseClass : T) :
    (info.filterByCatch types baseClass).2 = true ↔
      ∃ t ∈ info.thrownExceptions, catches types baseClass t = true := by
  simp [filterByCatch, Finset.filter_eq_empty_iff]

end ExceptionInfo

end Pview.Exceptions
