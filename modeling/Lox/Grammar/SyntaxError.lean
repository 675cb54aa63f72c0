import Lox.Token.Basic

/-!
# Syntax errors

What can be wrong with the order of the tokens of a program, and where.
-/

namespace Lox

/-- What a function belongs to. -/
inductive FunctionRole where
  | function
  | method
deriving DecidableEq, Repr

/-- The word for a function in error messages. -/
def FunctionRole.word : FunctionRole → String
  | function => "function"
  | method => "method"

/-- A token that the grammar demands at some place. -/
inductive Demand where
  | className
  | superclassName
  | classBodyStart
  | classBodyEnd
  | functionName (role : FunctionRole)
  | parametersStart (role : FunctionRole)
  | lambdaParametersStart
  | parameterName
  | parametersEnd
  | bodyStart (role : FunctionRole)
  | blockEnd
  | variableName
  | variableEnd
  | forStart
  | loopConditionEnd
  | forEnd
  | ifStart
  | ifEnd
  | whileStart
  | whileEnd
  | printEnd
  | expressionEnd
  | returnEnd
  | breakEnd
  | propertyName
  | argumentsEnd
  | superDot
  | superMethodName
  | groupEnd
deriving DecidableEq, Repr

/-- The message for a demanded token that is not there. -/
def Demand.message : Demand → String
  | className => "Expect class name."
  | superclassName => "Expect superclass name."
  | classBodyStart => "Expect '\x7b' before class body."
  | classBodyEnd => "Expect '\x7d' after class body."
  | functionName role => "Expect " ++ role.word ++ " name."
  | parametersStart role => "Expect '(' after " ++ role.word ++ " name."
  | lambdaParametersStart => "Expect '(' after 'fun'."
  | parameterName => "Expect parameter name."
  | parametersEnd => "Expect ')' after parameters."
  | bodyStart role => "Expect '\x7b' before " ++ role.word ++ " body."
  | blockEnd => "Expect '\x7d' after block."
  | variableName => "Expect variable name."
  | variableEnd => "Expect ';' after variable declaration"
  | forStart => "Expect '(' after 'for'."
  | loopConditionEnd => "Expect ';' after loop condition."
  | forEnd => "Expect ')' after for clauses."
  | ifStart => "Expect '(' after 'if'."
  | ifEnd => "Expect ')' after if condition."
  | whileStart => "Expect '(' after 'while'."
  | whileEnd => "Expect ')' after condition."
  | printEnd => "Expect ';' after value."
  | expressionEnd => "Expect ';' after expression."
  | returnEnd => "Expect ';' after return value."
  | breakEnd => "Expect ';' after 'break'."
  | propertyName => "Expect property name after '.'."
  | argumentsEnd => "Expect ')' after arguments."
  | superDot => "Expect '.' after 'super'."
  | superMethodName => "Expect superclass method name."
  | groupEnd => "Expect ')' after expression."

/-- Why tokens follow no rule of the grammar. -/
inductive SyntaxFault where
  | missing (demand : Demand)
  | expectedExpression
  | invalidTarget
  | breakOutsideLoop
  | tooManyParameters
  | tooManyArguments
deriving DecidableEq, Repr

/-- The largest number of parameters of a function and of arguments of a call. -/
def maximalArity : Nat := 255

/-- The wording of a syntax fault. -/
def SyntaxFault.message : SyntaxFault → String
  | missing demand => demand.message
  | expectedExpression => "Expected expression."
  | invalidTarget => "Invalid assignment target."
  | breakOutsideLoop => "'break' not inside a loop."
  | tooManyParameters => "Can't have more than " ++ maximalArity.repr ++ " parameters."
  | tooManyArguments => "Can't have more than " ++ maximalArity.repr ++ " arguments."

/-- The place of a syntax error: the end of the input or a token. -/
inductive Location where
  | ending
  | lexeme (text : String)
deriving DecidableEq, Repr

/-- How a place is named in an error message. -/
def Location.text : Location → String
  | ending => " at end"
  | lexeme text => " at '" ++ text ++ "'"

/-- A syntax fault, the line and the token it is reported at. -/
structure SyntaxError where
  line : Nat
  location : Location
  fault : SyntaxFault
deriving DecidableEq, Repr

/-- A syntax fault reported at this token. -/
def SyntaxError.at (token : Token) (fault : SyntaxFault) : SyntaxError where
  line := token.line
  location := if token.kind.isEnding then .ending else .lexeme token.lexeme
  fault := fault

end Lox
