import Mathlib

/-!
# Operators

Who reads and recovers, and what the operator services raise.
-/

namespace SreAgent.Operator

structure OperatorIdentity where
  externalId : String
  globalAccess : Bool
  deriving DecidableEq

/-- The exceptions of the operator reads; `raised` is a lookup or a conversion that fails on a stored
document. -/
inductive OperatorError where
  | resourceNotFound
  | cursorInvalid
  | raised
  deriving DecidableEq

end SreAgent.Operator
