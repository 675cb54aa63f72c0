import Lox.Machine.RuntimeError
import Lox.Value

/-!
# Operators

What operators make of the values of their operands, and which values they do not
take.
-/

namespace Lox

variable {ε : Type}

/-- The number that an operand on a line has to be. -/
def Value.expectNumber (line : Nat) : Value ε → Except RuntimeError Float
  | number value => .ok value
  | _ => .error ⟨line, .operandNotANumber⟩

/-- Applies a unary operator. -/
def UnaryOp.apply (op : UnaryOp) (line : Nat) (operand : Value ε) :
    Except RuntimeError (Value ε) :=
  match op with
  | negate => return .number (-(← operand.expectNumber line))
  | not => return .bool !operand.isTruthy

namespace BinaryOp

/-- Adds two numbers, or joins the texts of two values of which one is a string. -/
def applyAdd (line : Nat) : Value ε → Value ε → Except RuntimeError (Value ε)
  | .number left, .number right => .ok (.number (left + right))
  | .string left, right => .ok (.string (left ++ right.display))
  | left, .string right => .ok (.string (left.display ++ right))
  | _, _ => .error ⟨line, .operandsNotAddable⟩

/-- Applies an operation on two numbers. -/
def applyNumbers (line : Nat) (operation : Float → Float → Value ε) (left right : Value ε) :
    Except RuntimeError (Value ε) := do
  let leftNumber ← left.expectNumber line
  let rightNumber ← right.expectNumber line
  return operation leftNumber rightNumber

/-- Divides two numbers. -/
def applyDivide (line : Nat) (left right : Value ε) : Except RuntimeError (Value ε) := do
  let leftNumber ← left.expectNumber line
  let rightNumber ← right.expectNumber line
  if rightNumber == 0 then
    .error ⟨line, .divisionByZero⟩
  else
    return .number (leftNumber / rightNumber)

/-- Applies a binary operator. -/
def apply (op : BinaryOp) (line : Nat) (left right : Value ε) : Except RuntimeError (Value ε) :=
  match op with
  | add => applyAdd line left right
  | subtract => applyNumbers line (fun left right => .number (left - right)) left right
  | multiply => applyNumbers line (fun left right => .number (left * right)) left right
  | divide => applyDivide line left right
  | greater => applyNumbers line (fun left right => .bool (left > right)) left right
  | greaterEqual => applyNumbers line (fun left right => .bool (left ≥ right)) left right
  | less => applyNumbers line (fun left right => .bool (left < right)) left right
  | lessEqual => applyNumbers line (fun left right => .bool (left ≤ right)) left right
  | equal => .ok (.bool (left.equals right))
  | notEqual => .ok (.bool !left.equals right)

end BinaryOp

/-- Whether the value of the left side of a logical operator is that of the whole expression. -/
def LogicalOp.decides (op : LogicalOp) (left : Value ε) : Bool :=
  match op with
  | or => left.isTruthy
  | and => !left.isTruthy

end Lox
