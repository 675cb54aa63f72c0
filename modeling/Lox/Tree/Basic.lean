import Lox.Token.Basic

/-!
# Syntax trees

Expressions and statements of a program.  Expressions that refer to a variable,
to `this` or to `super` carry an id, under which the place of the variable they
refer to is recorded.  Names and operators keep the line they are written on.
-/

namespace Lox

/-- A name as it is written, and the line it is on. -/
structure Name where
  text : String
  line : Nat
deriving DecidableEq, Repr

/-- A use of a name as a variable. -/
structure Reference where
  id : Nat
  name : Name
deriving DecidableEq, Repr

/-- A constant in a program. -/
inductive Literal where
  | nil
  | bool (value : Bool)
  | number (value : Float)
  | string (value : String)

/-! ## Operators -/

inductive UnaryOp where
  | negate
  | not
deriving DecidableEq, Repr

inductive BinaryOp where
  | add
  | subtract
  | multiply
  | divide
  | greater
  | greaterEqual
  | less
  | lessEqual
  | equal
  | notEqual
deriving DecidableEq, Repr

/-- The operators that evaluate their right side only when they need it. -/
inductive LogicalOp where
  | and
  | or
deriving DecidableEq, Repr

/-- The symbol of a unary operator. -/
def UnaryOp.symbol : UnaryOp → Symbol
  | negate => .minus
  | not => .bang

/-- The symbol of a binary operator. -/
def BinaryOp.symbol : BinaryOp → Symbol
  | add => .plus
  | subtract => .minus
  | multiply => .star
  | divide => .slash
  | greater => .greater
  | greaterEqual => .greaterEqual
  | less => .less
  | lessEqual => .lessEqual
  | equal => .equalEqual
  | notEqual => .bangEqual

/-- The reserved word of a logical operator. -/
def LogicalOp.keyword : LogicalOp → Keyword
  | and => .andWord
  | or => .orWord

/-! ## Trees -/

mutual

inductive Expr where
  | literal (value : Literal)
  /-- An expression in parentheses. -/
  | group (inner : Expr)
  | unary (op : UnaryOp) (line : Nat) (operand : Expr)
  | binary (op : BinaryOp) (line : Nat) (left right : Expr)
  | logical (op : LogicalOp) (line : Nat) (left right : Expr)
  /-- The value of a variable. -/
  | read (target : Reference)
  | assign (target : Reference) (value : Expr)
  /-- A call, on the line of its closing parenthesis. -/
  | call (callee : Expr) (line : Nat) (arguments : List Expr)
  /-- A function without a name. -/
  | function (definition : Function)
  | get (object : Expr) (name : Name)
  | set (object : Expr) (name : Name) (value : Expr)
  | this (id line : Nat)
  | super (id line : Nat) (method : Name)

/-- The parameters and the body of a function. -/
inductive Function where
  | mk (parameters : List Name) (body : List Stmt)

/-- A function with a name: a declaration or a method. -/
inductive NamedFunction where
  | mk (name : Name) (definition : Function)

inductive Stmt where
  | expression (value : Expr)
  | print (value : Expr)
  | varDecl (name : Name) (initial : Option Expr)
  | block (body : List Stmt)
  | ifElse (condition : Expr) (whenTrue : Stmt) (whenFalse : Option Stmt)
  | whileLoop (condition : Expr) (body : Stmt)
  | breakLoop (line : Nat)
  | funDecl (function : NamedFunction)
  | returnValue (line : Nat) (value : Option Expr)
  /-- A class with its instance methods and its class methods. -/
  | classDecl (name : Name) (superclass : Option Reference)
      (methods classMethods : List NamedFunction)

end

namespace Function

/-- The parameters of a function. -/
def parameters : Function → List Name
  | mk parameters _ => parameters

/-- The statements of a function. -/
def body : Function → List Stmt
  | mk _ body => body

end Function

namespace NamedFunction

/-- The name of a named function. -/
def name : NamedFunction → Name
  | mk name _ => name

/-- A named function without its name. -/
def definition : NamedFunction → Function
  | mk _ definition => definition

end NamedFunction

end Lox
