import Lox.Proofs.Grammar.Derivation
import Lox.Proofs.Grammar.Logic

/-!
# Optional clauses

The rules for classes and variables with their optional clauses apart, and what kinds of
tokens can be told apart by looking at them.
-/

namespace Lox

/-- A kind of which all tokens are alike. -/
def Kind.IsSingle : Kind → Prop
  | symbol _ => True
  | keyword _ => True
  | identifier => True
  | _ => False

theorem Kind.same_iff (kind : Kind) (single : kind.IsSingle) (other : Kind) :
    other.same kind ↔ other = kind := by
  cases kind with
  | symbol sign => cases other <;> simp [same]
  | keyword word => cases other <;> simp [same]
  | identifier => cases other <;> simp [same]
  | _ => cases single

namespace Grammar

/-- The clause of a class that names what it extends. -/
def superclassClause : Rule (Option Reference) := do
  if ← accepts (.symbol .less) then
    let name ← demandName .superclassName
    let id ← freshId
    return some ⟨id, name⟩
  else
    return none

/-- The clause of a variable declaration with its first value. -/
def initialClause (fuel : Nat) : Rule (Option Expr) := do
  if ← accepts (.symbol .equal) then
    let value ← expression fuel
    return some value
  else
    return none

theorem classRest_eq (fuel : Nat) :
    classRest (fuel + 1) = do
      let name ← demandName .className
      let superclass ← superclassClause
      demandSymbol .leftBrace .classBodyStart
      let members ← methodsRest fuel
      return .classDecl name superclass members.1 members.2 := by
  rw [classRest, superclassClause]
  apply bind_congr
  intro name
  rw [bind_assoc]
  apply bind_congr
  intro inherits
  cases inherits <;> simp

theorem variableRest_eq (fuel : Nat) :
    variableRest (fuel + 1) = do
      let name ← demandName .variableName
      let initial ← initialClause fuel
      demandSymbol .semicolon .variableEnd
      return .varDecl name initial := by
  rw [variableRest, initialClause]
  apply bind_congr
  intro name
  rw [bind_assoc]
  apply bind_congr
  intro isInitialised
  cases isInitialised <;> simp

end Grammar

end Lox
