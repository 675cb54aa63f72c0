/-!
# Runtime errors

What can go wrong when a program runs.
-/

namespace Lox

/-- Why a program cannot go on. -/
inductive RuntimeFault where
  | undefinedVariable (name : String)
  | uninitialisedVariable (name : String)
  | undefinedProperty (name : String)
  | operandNotANumber
  | operandsNotAddable
  | divisionByZero
  | hasNoProperties
  | hasNoFields
  | notCallable
  | wrongArity (expected given : Nat)
  | superclassNotAClass
deriving DecidableEq, Repr

/-- The wording of a runtime fault. -/
def RuntimeFault.message : RuntimeFault → String
  | undefinedVariable name => "Undefined variable `" ++ name ++ "`."
  | uninitialisedVariable name => "Uninitialised variable `" ++ name ++ "`"
  | undefinedProperty name => "Undefined property `" ++ name ++ "`."
  | operandNotANumber => "Operand must be a number"
  | operandsNotAddable => "Operand must be a string or a number"
  | divisionByZero => "Division by zero"
  | hasNoProperties => "Only instances have properties."
  | hasNoFields => "Only instances have fields."
  | notCallable => "Can only call functions and classes."
  | wrongArity expected given =>
    "Expected " ++ expected.repr ++ " arguments but got " ++ given.repr ++ "."
  | superclassNotAClass => "Superclass must be a class."

/-- A runtime fault and the line it is reported on. -/
structure RuntimeError where
  line : Nat
  fault : RuntimeFault
deriving DecidableEq, Repr

end Lox
