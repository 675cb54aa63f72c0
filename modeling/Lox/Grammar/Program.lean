import Lox.Grammar.Precedence
import Lox.Grammar.Rule

/-!
# The grammar of programs

```
program     → declaration+
declaration → "class" NAME ( "<" NAME )? "{" ( "class"? function )* "}"
            | "fun" function | "var" NAME ( "=" expression )? ";" | statement
function    → NAME "(" parameters? ")" block
statement   → expression ";" | "print" expression ";" | "return" expression? ";"
            | "break" ";" | block | "while" "(" expression ")" statement
            | "if" "(" expression ")" statement ( "else" statement )?
            | "for" "(" ( "var" … | expression ";" | ";" ) expression? ";" expression? ")" statement
block       → "{" declaration* "}"
expression  → ( call "." )? NAME "=" expression | disjunction
disjunction → … operators on six levels, each grouping to the left …
unary       → ( "!" | "-" ) unary | call
call        → primary ( "(" arguments? ")" | "." NAME )*
primary     → NUMBER | STRING | "true" | "false" | "nil" | "this" | NAME
            | "super" "." NAME | "(" expression ")" | "fun" "(" parameters? ")" block
```

The last expression statement of a program may lack its semicolon.  A `for` loop
becomes a `while` loop in a block.  The rules take a bound on the depth of their
calls; `parse` gives them a bound that the number of tokens makes sufficient.
-/

namespace Lox.Grammar

/-! ## Rules that need no expressions -/

/-- The operator of a level, if it is the next token, and its line. -/
def nextConnective? (level : Level) : Rule (Option (Connective × Nat)) := do
  let token ← peek
  match Connective.ofKind? token.kind with
  | some connective =>
    if connective.level = level then
      skip
      return some (connective, token.line)
    else
      return none
  | none => return none

/-- The operator in front of an expression, if it is the next token, and its line. -/
def nextUnaryOp? : Rule (Option (UnaryOp × Nat)) := do
  let token ← peek
  match unaryOp? token.kind with
  | some op =>
    skip
    return some (op, token.line)
  | none => return none

/-- Notes the next token if a list that holds `count` things already is full. -/
def noteOverflow (count : Nat) (fault : SyntaxFault) : Rule Unit := do
  if maximalArity ≤ count then
    note (← peek) fault

/-- The names of parameters, of which `count` have been read; at least one follows. -/
def parameterNames : Nat → (count : Nat) → Rule (List Name)
  | 0, _ => throw .exhausted
  | fuel + 1, count => do
    noteOverflow count .tooManyParameters
    let name ← demandName .parameterName
    if ← accepts (.symbol .comma) then
      return name :: (← parameterNames fuel (count + 1))
    else
      return [name]

/-- The names of parameters up to the closing parenthesis, which is not read. -/
def parameters (fuel : Nat) : Rule (List Name) := do
  if ← sees (.symbol .rightParen) then
    return []
  else
    parameterNames fuel 0

/-- Whether a declaration of a function comes next, and not a function without a name. -/
def seesFunctionDeclaration : Rule Bool := do
  match (← get).rest with
  | [token] => return token.kind.same (.keyword .funWord)
  | token :: next :: _ =>
    return token.kind.same (.keyword .funWord) && !next.kind.same (.symbol .leftParen)
  | [] => return false

/--
The tree of a `for` loop: a block that runs the initial statement once and then
loops; the body of the loop ends with the increment.
-/
def forLoop (initial : Option Stmt) (condition increment : Option Expr) (body : Stmt) : Stmt :=
  let body :=
    match increment with
    | some increment => .block [body, .expression increment]
    | none => body
  let loop := .whileLoop (condition.getD (.literal (.bool true))) body
  .block (initial.toList ++ [loop])

/-- An assignment to what an expression denotes; what is no target is noted at the sign. -/
def assignment (target : Expr) (sign : Token) (value : Expr) : Rule Expr := do
  match target with
  | .read target => return .assign target value
  | .get object name => return .set object name value
  | other =>
    note sign .invalidTarget
    return other

/-! ## Mutually recursive rules -/

mutual

/-- An expression. -/
def expression : Nat → Rule Expr
  | 0 => throw .exhausted
  | fuel + 1 => do
    let target ← operation fuel .or
    match ← accept (.symbol .equal) with
    | some sign => assignment target sign (← expression fuel)
    | none => return target

/-- Operands joined by the operators of a level and of tighter levels. -/
def operation : Nat → Level → Rule Expr
  | 0, _ => throw .exhausted
  | fuel + 1, level => do
    operationRest fuel level (← operand fuel level)

/-- What joins further operands to the left side of a level. -/
def operationRest : Nat → Level → Expr → Rule Expr
  | 0, _, _ => throw .exhausted
  | fuel + 1, level, left => do
    match ← nextConnective? level with
    | some (connective, line) =>
      let right ← operand fuel level
      operationRest fuel level (connective.join line left right)
    | none => return left

/-- An operand of the operators of a level. -/
def operand : Nat → Level → Rule Expr
  | 0, _ => throw .exhausted
  | fuel + 1, level =>
    match level.tighter? with
    | some tighter => operation fuel tighter
    | none => unary fuel

/-- Operators in front of a call. -/
def unary : Nat → Rule Expr
  | 0 => throw .exhausted
  | fuel + 1 => do
    match ← nextUnaryOp? with
    | some (op, line) => return .unary op line (← unary fuel)
    | none => calls fuel (← primary fuel)

/-- The calls and property accesses that follow an expression. -/
def calls : Nat → Expr → Rule Expr
  | 0, _ => throw .exhausted
  | fuel + 1, callee => do
    if ← accepts (.symbol .leftParen) then
      let arguments ← arguments fuel
      let closing ← demand (.symbol .rightParen) .argumentsEnd
      calls fuel (.call callee closing.line arguments)
    else if ← accepts (.symbol .dot) then
      let name ← demandName .propertyName
      calls fuel (.get callee name)
    else
      return callee

/-- The arguments up to the closing parenthesis, which is not read. -/
def arguments : Nat → Rule (List Expr)
  | 0 => throw .exhausted
  | fuel + 1 => do
    if ← sees (.symbol .rightParen) then
      return []
    else
      argumentValues fuel 0

/-- Arguments, of which `count` have been read; at least one follows. -/
def argumentValues : Nat → (count : Nat) → Rule (List Expr)
  | 0, _ => throw .exhausted
  | fuel + 1, count => do
    noteOverflow count .tooManyArguments
    let value ← expression fuel
    if ← accepts (.symbol .comma) then
      return value :: (← argumentValues fuel (count + 1))
    else
      return [value]

/-- An expression that is complete in itself. -/
def primary : Nat → Rule Expr
  | 0 => throw .exhausted
  | fuel + 1 => do
    let token ← peek
    match token.kind with
    | .keyword .falseWord =>
      skip
      return .literal (.bool false)
    | .keyword .trueWord =>
      skip
      return .literal (.bool true)
    | .keyword .nilWord =>
      skip
      return .literal .nil
    | .number value =>
      skip
      return .literal (.number value)
    | .string contents =>
      skip
      return .literal (.string contents)
    | .keyword .thisWord =>
      skip
      return .this (← freshId) token.line
    | .keyword .superWord =>
      skip
      demandSymbol .dot .superDot
      let method ← demandName .superMethodName
      return .super (← freshId) token.line method
    | .identifier =>
      skip
      return .read ⟨← freshId, ⟨token.lexeme, token.line⟩⟩
    | .symbol .leftParen =>
      skip
      let inner ← expression fuel
      demandSymbol .rightParen .groupEnd
      return .group inner
    | .keyword .funWord =>
      skip
      demandSymbol .leftParen .lambdaParametersStart
      return .function (← functionRest fuel .function)
    | _ => fail .expectedExpression

/-- A function from behind its opening parenthesis on. -/
def functionRest : Nat → FunctionRole → Rule Function
  | 0, _ => throw .exhausted
  | fuel + 1, role => do
    let parameters ← parameters fuel
    demandSymbol .rightParen .parametersEnd
    demandSymbol .leftBrace (.bodyStart role)
    return .mk parameters (← blockRest fuel false)

/-- A function from its name on. -/
def namedFunction : Nat → FunctionRole → Rule NamedFunction
  | 0, _ => throw .exhausted
  | fuel + 1, role => do
    let name ← demandName (.functionName role)
    demandSymbol .leftParen (.parametersStart role)
    return .mk name (← functionRest fuel role)

/-- The declarations of a block and its closing brace. -/
def blockRest : Nat → (breakable : Bool) → Rule (List Stmt)
  | 0, _ => throw .exhausted
  | fuel + 1, breakable => do
    if (← sees (.symbol .rightBrace)) || (← atEnd) then
      demandSymbol .rightBrace .blockEnd
      return []
    else
      let first ← recovering (declaration fuel breakable)
      return first.toList ++ (← blockRest fuel breakable)

/-- A declaration; `breakable` says whether it is in the body of a loop. -/
def declaration : Nat → (breakable : Bool) → Rule Stmt
  | 0, _ => throw .exhausted
  | fuel + 1, breakable => do
    if ← accepts (.keyword .classWord) then
      classRest fuel
    else if ← seesFunctionDeclaration then
      skip
      return .funDecl (← namedFunction fuel .function)
    else if ← accepts (.keyword .varWord) then
      variableRest fuel
    else
      statement fuel breakable

/-- A class from its name on. -/
def classRest : Nat → Rule Stmt
  | 0 => throw .exhausted
  | fuel + 1 => do
    let name ← demandName .className
    let superclass ←
      if ← accepts (.symbol .less) then
        let superName ← demandName .superclassName
        pure (some ⟨← freshId, superName⟩)
      else
        pure none
    demandSymbol .leftBrace .classBodyStart
    let (methods, classMethods) ← methodsRest fuel
    return .classDecl name superclass methods classMethods

/-- The instance methods and the class methods of a class, and its closing brace. -/
def methodsRest : Nat → Rule (List NamedFunction × List NamedFunction)
  | 0 => throw .exhausted
  | fuel + 1 => do
    if (← sees (.symbol .rightBrace)) || (← atEnd) then
      demandSymbol .rightBrace .classBodyEnd
      return ([], [])
    else if ← accepts (.keyword .classWord) then
      let first ← namedFunction fuel .method
      let (methods, classMethods) ← methodsRest fuel
      return (methods, first :: classMethods)
    else
      let first ← namedFunction fuel .method
      let (methods, classMethods) ← methodsRest fuel
      return (first :: methods, classMethods)

/-- A variable declaration from its name on. -/
def variableRest : Nat → Rule Stmt
  | 0 => throw .exhausted
  | fuel + 1 => do
    let name ← demandName .variableName
    let initial ←
      if ← accepts (.symbol .equal) then
        pure (some (← expression fuel))
      else
        pure none
    demandSymbol .semicolon .variableEnd
    return .varDecl name initial

/-- A statement; `breakable` says whether it is in the body of a loop. -/
def statement : Nat → (breakable : Bool) → Rule Stmt
  | 0, _ => throw .exhausted
  | fuel + 1, breakable => do
    let token ← peek
    match token.kind with
    | .keyword .forWord =>
      skip
      forRest fuel
    | .keyword .ifWord =>
      skip
      demandSymbol .leftParen .ifStart
      let condition ← expression fuel
      demandSymbol .rightParen .ifEnd
      let whenTrue ← statement fuel breakable
      if ← accepts (.keyword .elseWord) then
        return .ifElse condition whenTrue (some (← statement fuel breakable))
      else
        return .ifElse condition whenTrue none
    | .keyword .whileWord =>
      skip
      demandSymbol .leftParen .whileStart
      let condition ← expression fuel
      demandSymbol .rightParen .whileEnd
      return .whileLoop condition (← statement fuel true)
    | .keyword .returnWord =>
      skip
      let value ← optionalExpression fuel .semicolon
      demandSymbol .semicolon .returnEnd
      return .returnValue token.line value
    | .keyword .breakWord =>
      skip
      unless breakable do
        note (← peek) .breakOutsideLoop
      demandSymbol .semicolon .breakEnd
      return .breakLoop token.line
    | .symbol .leftBrace =>
      skip
      return .block (← blockRest fuel breakable)
    | .keyword .printWord =>
      skip
      let value ← expression fuel
      demandSymbol .semicolon .printEnd
      return .print value
    | _ => expressionStatement fuel

/-- A `for` loop from behind its first word on. -/
def forRest : Nat → Rule Stmt
  | 0 => throw .exhausted
  | fuel + 1 => do
    demandSymbol .leftParen .forStart
    let initial ← forInitial fuel
    let condition ← optionalExpression fuel .semicolon
    demandSymbol .semicolon .loopConditionEnd
    let increment ← optionalExpression fuel .rightParen
    demandSymbol .rightParen .forEnd
    return forLoop initial condition increment (← statement fuel true)

/-- The first clause of a `for` loop with its semicolon. -/
def forInitial : Nat → Rule (Option Stmt)
  | 0 => throw .exhausted
  | fuel + 1 => do
    if ← accepts (.symbol .semicolon) then
      return none
    else if ← accepts (.keyword .varWord) then
      return some (← variableRest fuel)
    else
      return some (← expressionStatement fuel)

/-- An expression, unless the symbol comes next that follows it. -/
def optionalExpression : Nat → (follower : Symbol) → Rule (Option Expr)
  | 0, _ => throw .exhausted
  | fuel + 1, follower => do
    if ← sees (.symbol follower) then
      return none
    else
      return some (← expression fuel)

/-- An expression as a statement.  Its semicolon may be missing at the end of the input. -/
def expressionStatement : Nat → Rule Stmt
  | 0 => throw .exhausted
  | fuel + 1 => do
    let value ← expression fuel
    unless ← atEnd do
      demandSymbol .semicolon .expressionEnd
    return .expression value

end

/-! ## Programs -/

/-- At least one declaration, up to the end of the input. -/
def declarations : Nat → Rule (List Stmt)
  | 0 => throw .exhausted
  | fuel + 1 => do
    let first ← recovering (declaration fuel false)
    if ← atEnd then
      return first.toList
    else
      return first.toList ++ (← declarations fuel)

/-- What reading the tokens of a program yields. -/
structure Parsed where
  /-- The statements that could be read. -/
  statements : List Stmt
  errors : List SyntaxError
  /-- The first id that no expression has. -/
  nextId : Nat

/-- Between two tokens that are read, this many calls of rules suffice. -/
def depthPerToken : Nat := 32

/--
Reads tokens up to the end of the input that is among them.  The ids of
expressions start at `firstId`.
-/
def parse (firstId : Nat) (tokens : List Token) : Parsed :=
  let start := State.start firstId tokens
  match declarations (depthPerToken * (start.rest.length + 1)) start with
  | .ok statements state => ⟨statements, state.errors.toList, state.nextId⟩
  | .error _ state => ⟨[], state.errors.toList, state.nextId⟩

end Lox.Grammar
