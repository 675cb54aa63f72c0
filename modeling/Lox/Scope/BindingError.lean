import Lox.Tree.Basic

/-!
# Binding errors

What can be wrong with the names and the placement of the statements of a program
that follows the grammar.
-/

namespace Lox

/-- Why a name or a statement may not stand where it does. -/
inductive BindingFault where
  | alreadyDeclared (name : String)
  | neverUsed (name : String)
  | readInOwnInitializer (name : String)
  | inheritsFromItself (name : String)
  | returnOutsideFunction
  | initializerReturnsValue
  | thisOutsideClass
  | thisInClassMethod
  | superOutsideClass
  | superInClassMethod
  | superWithoutSuperclass
deriving DecidableEq, Repr

namespace BindingFault

/-- What the fault is reported about. -/
def subject : BindingFault → String
  | alreadyDeclared name => name
  | neverUsed name => name
  | readInOwnInitializer name => name
  | inheritsFromItself name => "`" ++ name ++ "`"
  | returnOutsideFunction => "return"
  | initializerReturnsValue => "return"
  | thisOutsideClass => "this"
  | thisInClassMethod => "this"
  | superOutsideClass => "`super`"
  | superInClassMethod => "`super`"
  | superWithoutSuperclass => "`super`"

/-- The wording of a binding fault. -/
def message : BindingFault → String
  | alreadyDeclared _ => "Already a variable with this name in this scope."
  | neverUsed _ => "Variable is never used."
  | readInOwnInitializer _ => "Can't read local variable in its own initialiser."
  | inheritsFromItself _ => "A class can't inherit from itself."
  | returnOutsideFunction => "Can't return from top-level code."
  | initializerReturnsValue => "Can't return a value from an initialiser."
  | thisOutsideClass => "Can't use 'this' outside of a class."
  | thisInClassMethod => "Can't use 'this' in static class method."
  | superOutsideClass => "Can't use `super` outside a class."
  | superInClassMethod => "Can't use `super` in a static class method."
  | superWithoutSuperclass => "Can't use `super` in a class with no superclass."

end BindingFault

/-- A binding fault and the line it is reported on. -/
structure BindingError where
  line : Nat
  fault : BindingFault
deriving DecidableEq, Repr

end Lox
