import Mathlib.Algebra.Order.Ring.Int

/-!
# Symbols

What the indexer accumulates for one translation unit, with the components
that reach a statement.  The identifiers are natural numbers: a negative one
stops the process at the assertion before its row is formatted.
-/

namespace Pview.Indexer

structure Location where
  fileId : Int
  line : Nat
  deriving DecidableEq, Repr

structure DeclInfo where
  usr : String
  qualified : String
  funcMightThrow : Bool
  sourceLocation : Location
  deriving DecidableEq, Repr

structure FuncDef where
  id : Nat
  info : DeclInfo
  deriving DecidableEq, Repr

structure FuncCall where
  id : Nat
  info : DeclInfo
  callerUsr : String
  callerMightThrow : Bool
  deriving DecidableEq, Repr

/-- `location_line`, the unsigned line stored in an `int64_t`. -/
def Location.signedLine (location : Location) : Int :=
  Int.bmod location.line (2 ^ 64)

end Pview.Indexer
