import Lox.Proofs.Printing.Form
import Lox.Proofs.Renaming.Tree

/-!
# Forms of trees

A tree is printed as a form: `Stmt.toList_text`.
-/

namespace Lox

/-! ## Forms -/

/-- A symbol as a form. -/
abbrev Form.symbol (sign : Symbol) : Form :=
  .atom (.symbol sign)

/-- A reserved word as a form. -/
abbrev Form.keyword (word : Keyword) : Form :=
  .atom (.keyword word)

/-- A name as a form. -/
abbrev Form.name (text : String) : Form :=
  .atom (.name text)

/-- The form of a constant. -/
def Literal.form : Literal → Form
  | nil => .keyword .nilWord
  | bool true => .keyword .trueWord
  | bool false => .keyword .falseWord
  | number value => .atom (.number value)
  | string value => .quoted value

mutual

/-- The form of an expression. -/
def Expr.form : Expr → Form
  | .literal value => value.form
  | .group inner => .round [.name "group", inner.form]
  | .unary op _ operand => .round [.symbol op.symbol, operand.form]
  | .binary op _ left right => .round [.symbol op.symbol, left.form, right.form]
  | .logical op _ left right => .round [.keyword op.keyword, left.form, right.form]
  | .read target => .name target.name.text
  | .assign target value => .round [.symbol .equal, .name target.name.text, value.form]
  | .call callee _ arguments => .round (.name "call" :: callee.form :: Expr.forms arguments)
  | .function definition => .round (.keyword .funWord :: definition.forms)
  | .get object name => .round [.symbol .dot, object.form, .name name.text]
  | .set object name value =>
    .round [.symbol .equal, .round [.symbol .dot, object.form, .name name.text], value.form]
  | .this _ _ => .keyword .thisWord
  | .super _ _ method => .round [.keyword .superWord, .name method.text]

/-- The forms of expressions. -/
def Expr.forms : List Expr → List Form
  | [] => []
  | first :: others => first.form :: Expr.forms others

/-- The forms of the parameters and of the body of a function. -/
def Function.forms : Function → List Form
  | .mk parameters body =>
    [.round (parameters.map fun name => .name name.text), .curly (Stmt.forms body)]

/-- The forms of methods; in front of their names stand the same words. -/
def NamedFunction.forms (marks : List Form) : List NamedFunction → List Form
  | [] => []
  | .mk name definition :: others =>
    .round (marks ++ .name name.text :: definition.forms) :: NamedFunction.forms marks others

/-- The form of a statement. -/
def Stmt.form : Stmt → Form
  | .expression value => .round [.symbol .semicolon, value.form]
  | .print value => .round [.keyword .printWord, value.form]
  | .varDecl name none => .round [.keyword .varWord, .name name.text]
  | .varDecl name (some initial) => .round [.keyword .varWord, .name name.text, initial.form]
  | .block body => .curly (Stmt.forms body)
  | .ifElse condition whenTrue none =>
    .round [.keyword .ifWord, condition.form, whenTrue.form]
  | .ifElse condition whenTrue (some whenFalse) =>
    .round [.keyword .ifWord, condition.form, whenTrue.form, whenFalse.form]
  | .whileLoop condition body => .round [.keyword .whileWord, condition.form, body.form]
  | .breakLoop _ => .round [.keyword .breakWord]
  | .funDecl (.mk name definition) =>
    .round (.keyword .funWord :: .name name.text :: definition.forms)
  | .returnValue _ none => .round [.keyword .returnWord]
  | .returnValue _ (some value) => .round [.keyword .returnWord, value.form]
  | .classDecl name superclass methods classMethods =>
    .round (.keyword .classWord :: .name name.text ::
      ((superclass.toList.map fun target => .round [.symbol .less, .name target.name.text]) ++
        (NamedFunction.forms [.keyword .classWord] classMethods ++
          NamedFunction.forms [] methods)))

/-- The forms of statements. -/
def Stmt.forms : List Stmt → List Form
  | [] => []
  | first :: others => first.form :: Stmt.forms others

end

theorem Stmt.forms_eq_map (statements : List Stmt) :
    Stmt.forms statements = statements.map Stmt.form := by
  induction statements with
  | nil => rfl
  | cons first others induction => rw [Stmt.forms, induction, List.map_cons]

/-! ## Printed trees -/

theorem Literal.toList_text : ∀ literal : Literal, literal.text.toList = literal.form.chars
  | nil => rfl
  | bool true => rfl
  | bool false => rfl
  | number _ => rfl
  | string value => by simp [text, form]

theorem intercalate_names (parameters : List Name) :
    [' '].intercalate (parameters.map (String.toList ∘ Name.text)) =
      Form.charsJoined (parameters.map fun name => .name name.text) := by
  induction parameters with
  | nil => rfl
  | cons first others induction =>
    cases others with
    | nil => simp
    | cons second others =>
      simp only [List.map_cons, List.intercalate_cons_cons] at induction ⊢
      rw [induction]
      simp

mutual

theorem Expr.toList_text : ∀ expression : Expr, expression.text.toList = expression.form.chars
  | .literal value => value.toList_text
  | .group inner => by
    simp [Expr.text, Expr.form, inner.toList_text]
  | .unary _ _ operand => by
    simp [Expr.text, Expr.form, Symbol.text, operand.toList_text]
  | .binary _ _ left right => by
    simp [Expr.text, Expr.form, Symbol.text, left.toList_text, right.toList_text]
  | .logical _ _ left right => by
    simp [Expr.text, Expr.form, Keyword.text, left.toList_text, right.toList_text]
  | .read _ => rfl
  | .assign _ value => by
    simp [Expr.text, Expr.form, Symbol.text, value.toList_text]
  | .call callee _ arguments => by
    simp [Expr.text, Expr.form, callee.toList_text, Expr.toList_textAll arguments]
  | .function definition => by
    simp [Expr.text, Expr.form, Keyword.text, definition.charsAll_forms]
  | .get object _ => by
    simp [Expr.text, Expr.form, Symbol.text, object.toList_text]
  | .set object _ value => by
    simp [Expr.text, Expr.form, Symbol.text, object.toList_text, value.toList_text]
  | .this _ _ => rfl
  | .super _ _ _ => by
    simp [Expr.text, Expr.form, Keyword.text]

theorem Expr.toList_textAll : ∀ expressions : List Expr,
    (Expr.textAll expressions).toList = Form.charsAll (Expr.forms expressions)
  | [] => rfl
  | first :: others => by
    simp [Expr.textAll, Expr.forms, first.toList_text, Expr.toList_textAll others]

theorem Function.charsAll_forms : ∀ definition : Function,
    Form.charsAll definition.forms = ' ' :: definition.text.toList
  | .mk parameters body => by
    simp [Function.text, Function.forms, intercalate_names, Stmt.toList_textAll body]

theorem NamedFunction.toList_textAll {mark : String} {marks : List Form}
    (same : ∀ first others, Form.charsJoined (marks ++ first :: others) =
      mark.toList ++ (first.chars ++ Form.charsAll others)) :
    ∀ methods : List NamedFunction, (NamedFunction.textAll mark methods).toList =
      Form.charsAll (NamedFunction.forms marks methods)
  | [] => rfl
  | .mk name definition :: others => by
    simp [NamedFunction.textAll, NamedFunction.forms, same, definition.charsAll_forms,
      NamedFunction.toList_textAll same others]

theorem Stmt.toList_text : ∀ statement : Stmt, statement.text.toList = statement.form.chars
  | .expression value => by
    simp [Stmt.text, Stmt.form, Symbol.text, value.toList_text]
  | .print value => by
    simp [Stmt.text, Stmt.form, Keyword.text, value.toList_text]
  | .varDecl _ none => by
    simp [Stmt.text, Stmt.form, Keyword.text]
  | .varDecl _ (some initial) => by
    simp [Stmt.text, Stmt.form, Keyword.text, initial.toList_text]
  | .block body => by
    simp [Stmt.text, Stmt.form, Stmt.toList_textAll body]
  | .ifElse condition whenTrue none => by
    simp [Stmt.text, Stmt.form, Keyword.text, condition.toList_text, whenTrue.toList_text]
  | .ifElse condition whenTrue (some whenFalse) => by
    simp [Stmt.text, Stmt.form, Keyword.text, condition.toList_text, whenTrue.toList_text,
      whenFalse.toList_text]
  | .whileLoop condition body => by
    simp [Stmt.text, Stmt.form, Keyword.text, condition.toList_text, body.toList_text]
  | .breakLoop _ => by
    simp [Stmt.text, Stmt.form, Keyword.text]
  | .funDecl (.mk _ definition) => by
    simp [Stmt.text, Stmt.form, Keyword.text, definition.charsAll_forms]
  | .returnValue _ none => by
    simp [Stmt.text, Stmt.form, Keyword.text]
  | .returnValue _ (some value) => by
    simp [Stmt.text, Stmt.form, Keyword.text, value.toList_text]
  | .classDecl name superclass methods classMethods => by
    have plain : (NamedFunction.textAll "" methods).toList =
        Form.charsAll (NamedFunction.forms [] methods) :=
      NamedFunction.toList_textAll (fun _ _ => rfl) methods
    have marked : (NamedFunction.textAll "class " classMethods).toList =
        Form.charsAll (NamedFunction.forms [.keyword .classWord] classMethods) :=
      NamedFunction.toList_textAll (fun _ _ => by simp [Keyword.text]) classMethods
    cases superclass <;>
      simp [Stmt.text, Stmt.form, Symbol.text, Keyword.text, plain, marked]

theorem Stmt.toList_textAll : ∀ statements : List Stmt,
    (Stmt.textAll statements).toList = Form.charsAll (Stmt.forms statements)
  | [] => rfl
  | first :: others => by
    simp [Stmt.textAll, Stmt.forms, first.toList_text, Stmt.toList_textAll others]

end

end Lox
