import Lox.Decimal.Display
import Lox.Tree.Basic

/-!
# Printed trees

A tree is printed with its operator first in parentheses: `1 + 2 * 3` becomes
`(+ 1 (* 2 3))`.
-/

namespace Lox

/-- A constant as a program prints it, with quotes around a string. -/
def Literal.text : Literal → String
  | nil => "nil"
  | bool value => if value then "true" else "false"
  | number value => displayNumber value
  | string value => "\"" ++ value ++ "\""

mutual

/-- The printed form of an expression. -/
def Expr.text : Expr → String
  | .literal value => value.text
  | .group inner => "(group " ++ inner.text ++ ")"
  | .unary op _ operand => "(" ++ op.symbol.text ++ " " ++ operand.text ++ ")"
  | .binary op _ left right =>
    "(" ++ op.symbol.text ++ " " ++ left.text ++ " " ++ right.text ++ ")"
  | .logical op _ left right =>
    "(" ++ op.keyword.text ++ " " ++ left.text ++ " " ++ right.text ++ ")"
  | .read target => target.name.text
  | .assign target value => "(= " ++ target.name.text ++ " " ++ value.text ++ ")"
  | .call callee _ arguments => "(call " ++ callee.text ++ Expr.textAll arguments ++ ")"
  | .function definition => "(fun " ++ definition.text ++ ")"
  | .get object name => "(. " ++ object.text ++ " " ++ name.text ++ ")"
  | .set object name value =>
    "(= (. " ++ object.text ++ " " ++ name.text ++ ") " ++ value.text ++ ")"
  | .this _ _ => "this"
  | .super _ _ method => "(super " ++ method.text ++ ")"

/-- Expressions, each behind a space. -/
def Expr.textAll : List Expr → String
  | [] => ""
  | value :: values => " " ++ value.text ++ Expr.textAll values

/-- The parameters and the body of a function. -/
def Function.text : Function → String
  | .mk parameters body =>
    "(" ++ " ".intercalate (parameters.map Name.text) ++ ") \x7b" ++ Stmt.textAll body ++ " \x7d"

/-- Methods, each behind a space and in parentheses that open with `mark`. -/
def NamedFunction.textAll (mark : String) : List NamedFunction → String
  | [] => ""
  | .mk name definition :: methods =>
    " (" ++ mark ++ name.text ++ " " ++ definition.text ++ ")" ++
      NamedFunction.textAll mark methods

/-- The printed form of a statement. -/
def Stmt.text : Stmt → String
  | .expression value => "(; " ++ value.text ++ ")"
  | .print value => "(print " ++ value.text ++ ")"
  | .varDecl name none => "(var " ++ name.text ++ ")"
  | .varDecl name (some initial) => "(var " ++ name.text ++ " " ++ initial.text ++ ")"
  | .block body => "\x7b" ++ Stmt.textAll body ++ " \x7d"
  | .ifElse condition whenTrue none =>
    "(if " ++ condition.text ++ " " ++ whenTrue.text ++ ")"
  | .ifElse condition whenTrue (some whenFalse) =>
    "(if " ++ condition.text ++ " " ++ whenTrue.text ++ " " ++ whenFalse.text ++ ")"
  | .whileLoop condition body => "(while " ++ condition.text ++ " " ++ body.text ++ ")"
  | .breakLoop _ => "(break)"
  | .funDecl (.mk name definition) => "(fun " ++ name.text ++ " " ++ definition.text ++ ")"
  | .returnValue _ none => "(return)"
  | .returnValue _ (some value) => "(return " ++ value.text ++ ")"
  | .classDecl name superclass methods classMethods =>
    let extending :=
      match superclass with
      | none => ""
      | some target => " (< " ++ target.name.text ++ ")"
    "(class " ++ name.text ++ extending ++ NamedFunction.textAll "class " classMethods ++
      NamedFunction.textAll "" methods ++ ")"

/-- Statements, each behind a space. -/
def Stmt.textAll : List Stmt → String
  | [] => ""
  | statement :: statements => " " ++ statement.text ++ Stmt.textAll statements

end

end Lox
