/-!
# Tokens

The words of a program: operators and punctuation, reserved words, names,
literals, and the mark that ends the input.
-/

namespace Lox

/-! ## Symbols and reserved words -/

/-- Punctuation and operators. -/
inductive Symbol where
  | leftParen
  | rightParen
  | leftBrace
  | rightBrace
  | comma
  | dot
  | minus
  | plus
  | semicolon
  | slash
  | star
  | bang
  | bangEqual
  | equal
  | equalEqual
  | greater
  | greaterEqual
  | less
  | lessEqual
deriving DecidableEq, Repr

namespace Symbol

/-- How a symbol is spelt. -/
def text : Symbol → String
  | leftParen => "("
  | rightParen => ")"
  | leftBrace => "\x7b"
  | rightBrace => "\x7d"
  | comma => ","
  | dot => "."
  | minus => "-"
  | plus => "+"
  | semicolon => ";"
  | slash => "/"
  | star => "*"
  | bang => "!"
  | bangEqual => "!="
  | equal => "="
  | equalEqual => "=="
  | greater => ">"
  | greaterEqual => ">="
  | less => "<"
  | lessEqual => "<="

/-- The name of a symbol in token listings. -/
def name : Symbol → String
  | leftParen => "LEFT_PAREN"
  | rightParen => "RIGHT_PAREN"
  | leftBrace => "LEFT_BRACE"
  | rightBrace => "RIGHT_BRACE"
  | comma => "COMMA"
  | dot => "DOT"
  | minus => "MINUS"
  | plus => "PLUS"
  | semicolon => "SEMICOLON"
  | slash => "SLASH"
  | star => "STAR"
  | bang => "BANG"
  | bangEqual => "BANG_EQUAL"
  | equal => "EQUAL"
  | equalEqual => "EQUAL_EQUAL"
  | greater => "GREATER"
  | greaterEqual => "GREATER_EQUAL"
  | less => "LESS"
  | lessEqual => "LESS_EQUAL"

end Symbol

/-- Reserved words. -/
inductive Keyword where
  | andWord
  | breakWord
  | classWord
  | elseWord
  | falseWord
  | funWord
  | forWord
  | ifWord
  | nilWord
  | orWord
  | printWord
  | returnWord
  | superWord
  | thisWord
  | trueWord
  | varWord
  | whileWord
deriving DecidableEq, Repr

namespace Keyword

/-- How a reserved word is spelt. -/
def text : Keyword → String
  | andWord => "and"
  | breakWord => "break"
  | classWord => "class"
  | elseWord => "else"
  | falseWord => "false"
  | funWord => "fun"
  | forWord => "for"
  | ifWord => "if"
  | nilWord => "nil"
  | orWord => "or"
  | printWord => "print"
  | returnWord => "return"
  | superWord => "super"
  | thisWord => "this"
  | trueWord => "true"
  | varWord => "var"
  | whileWord => "while"

/-- The name of a reserved word in token listings. -/
def name : Keyword → String
  | andWord => "AND"
  | breakWord => "BREAK"
  | classWord => "CLASS"
  | elseWord => "ELSE"
  | falseWord => "FALSE"
  | funWord => "FUN"
  | forWord => "FOR"
  | ifWord => "IF"
  | nilWord => "NIL"
  | orWord => "OR"
  | printWord => "PRINT"
  | returnWord => "RETURN"
  | superWord => "SUPER"
  | thisWord => "THIS"
  | trueWord => "TRUE"
  | varWord => "VAR"
  | whileWord => "WHILE"

/-- Every reserved word. -/
def all : List Keyword :=
  [andWord, breakWord, classWord, elseWord, falseWord, funWord, forWord, ifWord, nilWord,
    orWord, printWord, returnWord, superWord, thisWord, trueWord, varWord, whileWord]

/-- The list of reserved words is complete. -/
theorem mem_all (keyword : Keyword) : keyword ∈ all := by
  cases keyword <;> decide

/-- The reserved word with this spelling. -/
def ofText? (word : String) : Option Keyword :=
  all.find? (·.text == word)

end Keyword

/-! ## Tokens -/

/-- What a token is.  Literals carry what they stand for. -/
inductive Kind where
  | symbol (sign : Symbol)
  | keyword (word : Keyword)
  | identifier
  /-- A string literal with the text between its quotes. -/
  | string (contents : String)
  | number (value : Float)
  /-- The end of the input. -/
  | ending

namespace Kind

/-- The name of a kind in token listings, without what a literal stands for. -/
def name : Kind → String
  | symbol sign => sign.name
  | keyword word => word.name
  | identifier => "IDENTIFIER"
  | string _ => "STRING"
  | number _ => "NUMBER"
  | ending => "EOF"

/-- Whether two kinds agree up to what a literal stands for. -/
def same : Kind → Kind → Bool
  | symbol left, symbol right => left == right
  | keyword left, keyword right => left == right
  | identifier, identifier => true
  | string _, string _ => true
  | number _, number _ => true
  | ending, ending => true
  | _, _ => false

/-- A kind agrees with itself. -/
@[simp] theorem same_self (kind : Kind) : kind.same kind = true := by
  cases kind <;> simp [same]

/-- Whether this is the end of the input. -/
def isEnding : Kind → Bool
  | ending => true
  | _ => false

end Kind

/-- A token with its spelling and the line that its spelling ends on, counted from one. -/
structure Token where
  kind : Kind
  lexeme : String
  line : Nat

namespace Token

/-- Whether two tokens have the same kind, spelling and line. -/
def same (left right : Token) : Bool :=
  left.kind.same right.kind && left.lexeme == right.lexeme && left.line == right.line

/-- The mark that ends an input on this line. -/
def ending (line : Nat) : Token :=
  ⟨.ending, "", line⟩

end Token

end Lox
