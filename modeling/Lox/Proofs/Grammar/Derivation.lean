import Lox.Grammar.Program

/-!
# Derivations

The grammar as a set of rules, without saying how a program is read.  `Expression before
tree after` says that the tokens from `before` up to `after` make an expression with this
tree; it is the same with the other words of the grammar.

- An operation is written with its operators from the left, so they group to the left.
- The target of an assignment is a name, or the property of a call.
- An `if` without an `else` does not stand in front of an `else`: this belongs to the
  nearest `if`.
- A `break` stands in the body of a loop, and in no function inside.
- An expression statement lacks its semicolon only at the end of the input.
-/

namespace Lox.Derivation

open Grammar (Connective Level forLoop)

/-- A place in a program. -/
structure Position where
  /-- The tokens that are left, without the end of the input. -/
  rest : List Token
  /-- The first id that no expression has yet. -/
  nextId : Nat

/-! ## Tokens -/

/-- A token of a kind. -/
structure Reads (kind : Kind) (before : Position) (token : Token) (after : Position) : Prop where
  rest : before.rest = token :: after.rest
  kind : token.kind = kind
  nextId : after.nextId = before.nextId

/-- A token of a kind, whatever it is. -/
def Skips (kind : Kind) (before after : Position) : Prop :=
  ∃ token, Reads kind before token after

/-- A token of a kind comes next. -/
def Position.Sees (kind : Kind) (position : Position) : Prop :=
  ∃ after, Skips kind position after

/-- An expression gets the next id. -/
structure Numbers (before : Position) (id : Nat) (after : Position) : Prop where
  rest : after.rest = before.rest
  id : id = before.nextId
  nextId : after.nextId = before.nextId + 1

inductive ReadsName : Position → Name → Position → Prop where
  | name (word : Reads .identifier before token after) :
      ReadsName before ⟨token.lexeme, token.line⟩ after

/-- The name of a variable that is used. -/
inductive ReadsVariable : Position → Reference → Position → Prop where
  | reference (name : ReadsName before text middle) (numbers : Numbers middle number after) :
      ReadsVariable before ⟨number, text⟩ after

/-! ## Operators and literals -/

/-- The operators between two expressions on each level. -/
inductive Joins : Level → Kind → Connective → Prop where
  | or : Joins .or (.keyword .orWord) (.logical .or)
  | and : Joins .and (.keyword .andWord) (.logical .and)
  | notEqual : Joins .equality (.symbol .bangEqual) (.binary .notEqual)
  | equal : Joins .equality (.symbol .equalEqual) (.binary .equal)
  | greater : Joins .comparison (.symbol .greater) (.binary .greater)
  | greaterEqual : Joins .comparison (.symbol .greaterEqual) (.binary .greaterEqual)
  | less : Joins .comparison (.symbol .less) (.binary .less)
  | lessEqual : Joins .comparison (.symbol .lessEqual) (.binary .lessEqual)
  | subtract : Joins .term (.symbol .minus) (.binary .subtract)
  | add : Joins .term (.symbol .plus) (.binary .add)
  | multiply : Joins .factor (.symbol .star) (.binary .multiply)
  | divide : Joins .factor (.symbol .slash) (.binary .divide)

/-- The level of the operands of another level. -/
inductive Tightens : Level → Level → Prop where
  | or : Tightens .or .and
  | and : Tightens .and .equality
  | equality : Tightens .equality .comparison
  | comparison : Tightens .comparison .term
  | term : Tightens .term .factor

/-- The operators in front of an expression. -/
inductive Precedes : Kind → UnaryOp → Prop where
  | not : Precedes (.symbol .bang) .not
  | negate : Precedes (.symbol .minus) .negate

inductive Denotes : Kind → Literal → Prop where
  | nil : Denotes (.keyword .nilWord) .nil
  | isTrue : Denotes (.keyword .trueWord) (.bool true)
  | isFalse : Denotes (.keyword .falseWord) (.bool false)
  | number (value : Float) : Denotes (.number value) (.number value)
  | string (contents : String) : Denotes (.string contents) (.string contents)

/-! ## Parameters -/

/-- At least one name, with commas between. -/
inductive Names : Position → List Name → Position → Prop where
  | last (name : ReadsName before text after) : Names before [text] after
  | more (name : ReadsName before text first) (comma : Skips (.symbol .comma) first second)
      (others : Names second texts after) : Names before (text :: texts) after

inductive Parameters : Position → List Name → Position → Prop where
  | none : Parameters before [] before
  | some (names : Names before texts after) (few : texts.length ≤ 255) :
      Parameters before texts after

/-- What a class extends. -/
inductive Superclass : Position → Option Reference → Position → Prop where
  | none : Superclass before none before
  | some (sign : Skips (.symbol .less) before middle)
      (name : ReadsVariable middle reference after) : Superclass before (some reference) after

/-! ## Expressions and statements -/

mutual

/-- `( call "." )? NAME "=" expression`, or an operation. -/
inductive Expression : Position → Expr → Position → Prop where
  | operation (inner : Operation .or before tree after) : Expression before tree after
  | assign (target : ReadsVariable before reference first)
      (sign : Skips (.symbol .equal) first second) (value : Expression second tree after) :
      Expression before (.assign reference tree) after
  | set (object : Call before tree first) (dot : Skips (.symbol .dot) first second)
      (name : ReadsName second text third) (sign : Skips (.symbol .equal) third fourth)
      (value : Expression fourth tree' after) : Expression before (.set tree text tree') after

/-- Operands with operators of a level between. -/
inductive Operation : Level → Position → Expr → Position → Prop where
  | operand (inner : Operand level before tree after) : Operation level before tree after
  | join (left : Operation level before tree first) (joins : Joins level kind connective)
      (sign : Reads kind first token second) (right : Operand level second tree' after) :
      Operation level before (connective.join token.line tree tree') after

/-- An operation of the next level, or an operand of the last level. -/
inductive Operand : Level → Position → Expr → Position → Prop where
  | tighter (tightens : Tightens level next) (inner : Operation next before tree after) :
      Operand level before tree after
  | unary (inner : Unary before tree after) : Operand .factor before tree after

/-- `( "!" | "-" ) unary`, or a call. -/
inductive Unary : Position → Expr → Position → Prop where
  | operator (precedes : Precedes kind op) (sign : Reads kind before token middle)
      (operand : Unary middle tree after) : Unary before (.unary op token.line tree) after
  | call (inner : Call before tree after) : Unary before tree after

/-- `primary ( "(" arguments? ")" | "." NAME )*` -/
inductive Call : Position → Expr → Position → Prop where
  | primary (inner : Primary before tree after) : Call before tree after
  | call (callee : Call before tree first) (opening : Skips (.symbol .leftParen) first second)
      (arguments : Arguments second trees third)
      (closing : Reads (.symbol .rightParen) third token after) :
      Call before (.call tree token.line trees) after
  | get (object : Call before tree first) (dot : Skips (.symbol .dot) first second)
      (name : ReadsName second text after) : Call before (.get tree text) after

inductive Arguments : Position → List Expr → Position → Prop where
  | none : Arguments before [] before
  | some (values : Values before trees after) (few : trees.length ≤ 255) :
      Arguments before trees after

/-- At least one expression, with commas between. -/
inductive Values : Position → List Expr → Position → Prop where
  | last (value : Expression before tree after) : Values before [tree] after
  | more (value : Expression before tree first) (comma : Skips (.symbol .comma) first second)
      (others : Values second trees after) : Values before (tree :: trees) after

/-- A literal, a name, `this`, a method of `super`, a group or a function. -/
inductive Primary : Position → Expr → Position → Prop where
  | literal (denotes : Denotes kind value) (word : Reads kind before token after) :
      Primary before (.literal value) after
  | read (name : ReadsVariable before reference after) : Primary before (.read reference) after
  | this (word : Reads (.keyword .thisWord) before token middle)
      (numbers : Numbers middle number after) : Primary before (.this number token.line) after
  | super (word : Reads (.keyword .superWord) before token first)
      (dot : Skips (.symbol .dot) first second) (name : ReadsName second text third)
      (numbers : Numbers third number after) : Primary before (.super number token.line text) after
  | group (opening : Skips (.symbol .leftParen) before first)
      (inner : Expression first tree second) (closing : Skips (.symbol .rightParen) second after) :
      Primary before (.group tree) after
  | function (word : Skips (.keyword .funWord) before middle)
      (definition : Definition middle tree after) : Primary before (.function tree) after

/-- `"(" parameters? ")" block` -/
inductive Definition : Position → Function → Position → Prop where
  | function (opening : Skips (.symbol .leftParen) before first)
      (parameters : Parameters first texts second)
      (closing : Skips (.symbol .rightParen) second third) (body : Block false third trees after) :
      Definition before (.mk texts trees) after

/-- `NAME "(" parameters? ")" block` -/
inductive NamedDefinition : Position → NamedFunction → Position → Prop where
  | function (name : ReadsName before text middle) (definition : Definition middle tree after) :
      NamedDefinition before (.mk text tree) after

/-- `"{" declaration* "}"`; the index says whether a `break` may stand in it. -/
inductive Block : Bool → Position → List Stmt → Position → Prop where
  | block (opening : Skips (.symbol .leftBrace) before first)
      (inner : Declarations breakable first trees second)
      (closing : Skips (.symbol .rightBrace) second after) : Block breakable before trees after

inductive Declarations : Bool → Position → List Stmt → Position → Prop where
  | nil : Declarations breakable before [] before
  | cons (first : Declaration breakable before tree middle)
      (others : Declarations breakable middle trees after) :
      Declarations breakable before (tree :: trees) after

/-- A class, a function, a variable or a statement. -/
inductive Declaration : Bool → Position → Stmt → Position → Prop where
  | classDecl (word : Skips (.keyword .classWord) before first) (name : ReadsName first text second)
      (superclass : Superclass second target third)
      (opening : Skips (.symbol .leftBrace) third fourth)
      (inner : Methods fourth methods classMethods fifth)
      (closing : Skips (.symbol .rightBrace) fifth after) :
      Declaration breakable before (.classDecl text target methods classMethods) after
  | funDecl (word : Skips (.keyword .funWord) before middle)
      (definition : NamedDefinition middle tree after) :
      Declaration breakable before (.funDecl tree) after
  | varDecl (inner : Variable before tree after) : Declaration breakable before tree after
  | statement (inner : Statement breakable before tree after) :
      Declaration breakable before tree after

/-- The instance methods and the class methods of a class: `( "class"? function )*` -/
inductive Methods : Position → List NamedFunction → List NamedFunction → Position → Prop where
  | nil : Methods before [] [] before
  | method (first : NamedDefinition before tree middle)
      (others : Methods middle methods classMethods after) :
      Methods before (tree :: methods) classMethods after
  | classMethod (word : Skips (.keyword .classWord) before first)
      (definition : NamedDefinition first tree second)
      (others : Methods second methods classMethods after) :
      Methods before methods (tree :: classMethods) after

/-- `"var" NAME ( "=" expression )? ";"` -/
inductive Variable : Position → Stmt → Position → Prop where
  | bare (word : Skips (.keyword .varWord) before first) (name : ReadsName first text second)
      (ending : Skips (.symbol .semicolon) second after) :
      Variable before (.varDecl text none) after
  | initialised (word : Skips (.keyword .varWord) before first)
      (name : ReadsName first text second) (sign : Skips (.symbol .equal) second third)
      (value : Expression third tree fourth) (ending : Skips (.symbol .semicolon) fourth after) :
      Variable before (.varDecl text (some tree)) after

inductive Statement : Bool → Position → Stmt → Position → Prop where
  | expression (inner : ExpressionStatement before tree after) :
      Statement breakable before tree after
  | print (word : Skips (.keyword .printWord) before first) (value : Expression first tree second)
      (ending : Skips (.symbol .semicolon) second after) :
      Statement breakable before (.print tree) after
  | block (inner : Block breakable before trees after) :
      Statement breakable before (.block trees) after
  | ifOnly (word : Skips (.keyword .ifWord) before first)
      (opening : Skips (.symbol .leftParen) first second)
      (condition : Expression second test third)
      (closing : Skips (.symbol .rightParen) third fourth)
      (whenTrue : Statement breakable fourth tree after)
      (alone : ¬ after.Sees (.keyword .elseWord)) :
      Statement breakable before (.ifElse test tree none) after
  | ifElse (word : Skips (.keyword .ifWord) before first)
      (opening : Skips (.symbol .leftParen) first second)
      (condition : Expression second test third)
      (closing : Skips (.symbol .rightParen) third fourth)
      (whenTrue : Statement breakable fourth tree fifth)
      (otherwise : Skips (.keyword .elseWord) fifth sixth)
      (whenFalse : Statement breakable sixth tree' after) :
      Statement breakable before (.ifElse test tree (some tree')) after
  | whileLoop (word : Skips (.keyword .whileWord) before first)
      (opening : Skips (.symbol .leftParen) first second)
      (condition : Expression second test third)
      (closing : Skips (.symbol .rightParen) third fourth)
      (body : Statement true fourth tree after) :
      Statement breakable before (.whileLoop test tree) after
  | forLoop (word : Skips (.keyword .forWord) before first)
      (opening : Skips (.symbol .leftParen) first second)
      (initial : ForInitial second start third)
      (condition : OptionalExpression third test fourth)
      (separator : Skips (.symbol .semicolon) fourth fifth)
      (increment : OptionalExpression fifth step sixth)
      (closing : Skips (.symbol .rightParen) sixth seventh)
      (body : Statement true seventh tree after) :
      Statement breakable before (forLoop start test step tree) after
  | breakLoop (word : Reads (.keyword .breakWord) before token middle)
      (ending : Skips (.symbol .semicolon) middle after) :
      Statement true before (.breakLoop token.line) after
  | returnValue (word : Reads (.keyword .returnWord) before token first)
      (value : OptionalExpression first tree second)
      (ending : Skips (.symbol .semicolon) second after) :
      Statement breakable before (.returnValue token.line tree) after

/-- An expression with a semicolon, or at the end of the input. -/
inductive ExpressionStatement : Position → Stmt → Position → Prop where
  | closed (value : Expression before tree middle)
      (ending : Skips (.symbol .semicolon) middle after) :
      ExpressionStatement before (.expression tree) after
  | last (value : Expression before tree after) (atEnd : after.rest = []) :
      ExpressionStatement before (.expression tree) after

/-- The first clause of a `for` loop with its semicolon. -/
inductive ForInitial : Position → Option Stmt → Position → Prop where
  | none (ending : Skips (.symbol .semicolon) before after) : ForInitial before none after
  | varDecl (inner : Variable before tree after) : ForInitial before (some tree) after
  | expression (inner : ExpressionStatement before tree after) :
      ForInitial before (some tree) after

inductive OptionalExpression : Position → Option Expr → Position → Prop where
  | none : OptionalExpression before none before
  | some (value : Expression before tree after) : OptionalExpression before (some tree) after

end

/-- At least one declaration, up to the end of the input. -/
inductive Program : Position → List Stmt → (nextId : Nat) → Prop where
  | program (inner : Declarations false before trees after) (nonempty : trees ≠ [])
      (atEnd : after.rest = []) : Program before trees after.nextId

end Lox.Derivation
