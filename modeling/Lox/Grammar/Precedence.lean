import Lox.Tree.Basic

/-!
# Precedence of operators

The operators that stand between two expressions, on six levels from the one
that binds loosest to the one that binds tightest.
-/

namespace Lox.Grammar

/-- An operator between two expressions. -/
inductive Connective where
  | logical (op : LogicalOp)
  | binary (op : BinaryOp)
deriving DecidableEq, Repr

/-- How tightly an operator binds, from the loosest level on. -/
inductive Level where
  | or
  | and
  | equality
  | comparison
  | term
  | factor
deriving DecidableEq, Repr

namespace Level

/-- The next tighter level. -/
def tighter? : Level → Option Level
  | or => some and
  | and => some equality
  | equality => some comparison
  | comparison => some term
  | term => some factor
  | factor => none

end Level

namespace Connective

/-- The operator that a kind of token stands for between two expressions. -/
def ofKind? : Kind → Option Connective
  | .keyword .orWord => some (.logical .or)
  | .keyword .andWord => some (.logical .and)
  | .symbol .bangEqual => some (.binary .notEqual)
  | .symbol .equalEqual => some (.binary .equal)
  | .symbol .greater => some (.binary .greater)
  | .symbol .greaterEqual => some (.binary .greaterEqual)
  | .symbol .less => some (.binary .less)
  | .symbol .lessEqual => some (.binary .lessEqual)
  | .symbol .minus => some (.binary .subtract)
  | .symbol .plus => some (.binary .add)
  | .symbol .star => some (.binary .multiply)
  | .symbol .slash => some (.binary .divide)
  | _ => none

/-- The level of an operator. -/
def level : Connective → Level
  | logical .or => .or
  | logical .and => .and
  | binary .notEqual => .equality
  | binary .equal => .equality
  | binary .greater => .comparison
  | binary .greaterEqual => .comparison
  | binary .less => .comparison
  | binary .lessEqual => .comparison
  | binary .subtract => .term
  | binary .add => .term
  | binary .multiply => .factor
  | binary .divide => .factor

/-- The expression that an operator on a line makes of two expressions. -/
def join : Connective → Nat → Expr → Expr → Expr
  | logical op => .logical op
  | binary op => .binary op

end Connective

/-- The operator that a kind of token stands for in front of an expression. -/
def unaryOp? : Kind → Option UnaryOp
  | .symbol .bang => some .not
  | .symbol .minus => some .negate
  | _ => none

end Lox.Grammar
