import Lox.Machine.Operator

/-!
# What operators see of a value

Operators look at the identity and the name of a function, a class or an instance, not at what
is kept in it.  Values that are alike in this sense give the same result: a constant, or the
same fault.
-/

namespace Lox

variable {ε ε' : Type}

namespace Value

/-- Operators see the same of two values. -/
inductive Alike : Value ε → Value ε' → Prop where
  | nil : Alike .nil .nil
  | bool (value : Bool) : Alike (.bool value) (.bool value)
  | number (value : Float) : Alike (.number value) (.number value)
  | string (value : String) : Alike (.string value) (.string value)
  | function {left right} (id : left.id = right.id) (name : left.name = right.name) :
      Alike (.function left) (.function right)
  | type {left right} (id : left.own.id = right.own.id) (name : left.name = right.name) :
      Alike (.type left) (.type right)
  | object {left right} (id : left.id = right.id)
      (name : left.ofClass.name = right.ofClass.name) : Alike (.object left) (.object right)

variable {left second : Value ε} {right second' : Value ε'}

namespace Alike

theorem isTruthy_eq (alike : Alike left right) : left.isTruthy = right.isTruthy := by
  cases alike <;> rfl

theorem display_eq (alike : Alike left right) : left.display = right.display := by
  cases alike with
  | function _ name => rw [display, display, name]
  | type _ name => exact name
  | object _ name => rw [display, display, name]
  | _ => rfl

theorem result_eq (alike : Alike left right) : left.result = right.result := by
  have same := alike.display_eq
  cases alike with
  | string => rfl
  | _ => exact same

theorem equals_eq (alike : Alike left right) (other : Alike second second') :
    left.equals second = right.equals second' := by
  cases alike with
  | function id _ =>
    cases other with
    | function id' _ => rw [equals, equals, id, id']
    | _ => rfl
  | type id _ =>
    cases other with
    | type id' _ => rw [equals, equals, id, id']
    | _ => rfl
  | object id _ =>
    cases other with
    | object id' _ => rw [equals, equals, id, id']
    | _ => rfl
  | _ => cases other <;> rfl

end Alike

end Value

/-- Two results of an operator on two lines: the same constant, or the same fault. -/
inductive SameResult (line line' : Nat) :
    Except RuntimeError (Value ε) → Except RuntimeError (Value ε') → Prop where
  | constant (literal : Literal) :
      SameResult line line' (.ok (.ofLiteral literal)) (.ok (.ofLiteral literal))
  | fault (fault : RuntimeFault) :
      SameResult line line' (.error ⟨line, fault⟩) (.error ⟨line', fault⟩)

namespace SameResult

variable {line line' : Nat} {left second : Value ε} {right second' : Value ε'}

theorem number (value : Float) :
    SameResult line line' (.ok (.number value : Value ε)) (.ok (.number value : Value ε')) :=
  .constant (.number value)

theorem bool (value : Bool) :
    SameResult line line' (.ok (.bool value : Value ε)) (.ok (.bool value : Value ε')) :=
  .constant (.bool value)

theorem string (value : String) :
    SameResult line line' (.ok (.string value : Value ε)) (.ok (.string value : Value ε')) :=
  .constant (.string value)

/-- What happens to an operand that has to be a number. -/
theorem expectNumber (alike : left.Alike right) {next : Float → Except RuntimeError (Value ε)}
    {next' : Float → Except RuntimeError (Value ε')}
    (same : ∀ value, SameResult line line' (next value) (next' value)) :
    SameResult line line' (left.expectNumber line >>= next)
      (right.expectNumber line' >>= next') := by
  cases alike with
  | number value => exact same value
  | _ => exact .fault .operandNotANumber

theorem unary (op : UnaryOp) (alike : left.Alike right) :
    SameResult line line' (op.apply line left) (op.apply line' right) := by
  cases op with
  | negate => exact expectNumber alike fun value => number (-value)
  | not =>
    rw [UnaryOp.apply, UnaryOp.apply, alike.isTruthy_eq]
    exact bool _

theorem numbers {operation : Float → Float → Value ε} {operation' : Float → Float → Value ε'}
    (same : ∀ first second,
      SameResult line line' (.ok (operation first second)) (.ok (operation' first second)))
    (alike : left.Alike right) (other : second.Alike second') :
    SameResult line line' (BinaryOp.applyNumbers line operation left second)
      (BinaryOp.applyNumbers line' operation' right second') :=
  expectNumber alike fun first => expectNumber other fun second => same first second

theorem divide (alike : left.Alike right) (other : second.Alike second') :
    SameResult line line' (BinaryOp.applyDivide line left second)
      (BinaryOp.applyDivide line' right second') := by
  apply expectNumber alike
  intro first
  apply expectNumber other
  intro second
  split
  · exact .fault .divisionByZero
  · exact number _

theorem add (alike : left.Alike right) (other : second.Alike second') :
    SameResult line line' (BinaryOp.applyAdd line left second)
      (BinaryOp.applyAdd line' right second') := by
  have display := alike.display_eq
  have display' := other.display_eq
  cases alike with
  | string value =>
    cases other <;> (simp only [BinaryOp.applyAdd, display']; exact string _)
  | number value =>
    cases other with
    | number => exact number _
    | string =>
      simp only [BinaryOp.applyAdd, display]
      exact string _
    | _ => exact .fault .operandsNotAddable
  | _ =>
    cases other with
    | string =>
      simp only [BinaryOp.applyAdd, display]
      exact string _
    | _ => exact .fault .operandsNotAddable

theorem binary (op : BinaryOp) (alike : left.Alike right) (other : second.Alike second') :
    SameResult line line' (op.apply line left second) (op.apply line' right second') := by
  cases op with
  | add => exact add alike other
  | divide => exact divide alike other
  | equal =>
    rw [BinaryOp.apply, BinaryOp.apply, alike.equals_eq other]
    exact bool _
  | notEqual =>
    rw [BinaryOp.apply, BinaryOp.apply, alike.equals_eq other]
    exact bool _
  | subtract | multiply => exact numbers (fun _ _ => number _) alike other
  | greater | greaterEqual | less | lessEqual =>
    exact numbers (fun _ _ => bool _) alike other

end SameResult

theorem LogicalOp.decides_of_alike (op : LogicalOp) {left : Value ε} {right : Value ε'}
    (alike : left.Alike right) : op.decides left = op.decides right := by
  cases op with
  | or => exact alike.isTruthy_eq
  | and => exact congrArg (!·) alike.isTruthy_eq

end Lox
