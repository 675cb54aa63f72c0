import Lox.Proofs.Printing.Tree

/-!
# Reading trees off their forms

Ids and lines are not printed.  All the rest of a tree can be told from its form
(`Stmt.rename_erasing`), and so from what is printed.
-/

namespace Lox

/-- All ids and lines are the same. -/
def Renaming.erasing : Renaming :=
  ⟨fun _ => 0, fun _ => 0⟩

section

variable {literal : Literal} {parts : List Form}

@[simp]
theorem Literal.form_ne_round : literal.form ≠ .round parts := by
  rcases literal with _ | (_ | _) | _ | _ <;> rintro ⟨⟩

@[simp]
theorem Literal.round_ne_form : .round parts ≠ literal.form :=
  form_ne_round.symm

@[simp]
theorem Literal.form_ne_name {text : String} : literal.form ≠ .name text := by
  rcases literal with _ | (_ | _) | _ | _ <;> rintro ⟨⟩

@[simp]
theorem Literal.name_ne_form {text : String} : .name text ≠ literal.form :=
  form_ne_name.symm

@[simp]
theorem Literal.form_ne_this : literal.form ≠ .keyword .thisWord := by
  rcases literal with _ | (_ | _) | _ | _ <;> rintro ⟨⟩

@[simp]
theorem Literal.this_ne_form : .keyword .thisWord ≠ literal.form :=
  form_ne_this.symm

theorem Literal.eq_of_form_eq {other : Literal} (same : literal.form = other.form) :
    literal = other := by
  rcases literal with _ | (_ | _) | _ | _ <;> rcases other with _ | (_ | _) | _ | _ <;>
    cases same <;> rfl

end

theorem UnaryOp.eq_of_symbol_eq {op op' : UnaryOp} (same : op.symbol = op'.symbol) : op = op' := by
  cases op <;> cases op' <;> first | rfl | cases same

theorem BinaryOp.eq_of_symbol_eq {op op' : BinaryOp} (same : op.symbol = op'.symbol) :
    op = op' := by
  cases op <;> cases op' <;> first | rfl | cases same

theorem LogicalOp.eq_of_keyword_eq {op op' : LogicalOp} (same : op.keyword = op'.keyword) :
    op = op' := by
  cases op <;> cases op' <;> first | rfl | cases same

theorem Name.rename_erasing {name name' : Name} (same : name.text = name'.text) :
    name.rename .erasing = name'.rename .erasing := by
  rw [Name.rename, Name.rename, same]
  rfl

theorem Reference.rename_erasing {target target' : Reference}
    (same : target.name.text = target'.name.text) :
    target.rename .erasing = target'.rename .erasing := by
  rw [Reference.rename, Reference.rename, Name.rename_erasing same]
  rfl

theorem names_rename_erasing {parameters parameters' : List Name}
    (same : parameters.map (fun name => Form.name name.text) =
      parameters'.map fun name => .name name.text) :
    parameters.map (Name.rename .erasing) = parameters'.map (Name.rename .erasing) := by
  induction parameters generalizing parameters' with
  | nil =>
    cases List.map_eq_nil_iff.mp same.symm
    rfl
  | cons first others induction =>
    rcases parameters' with _ | ⟨first', others'⟩
    · cases same
    · rcases List.cons.inj same with ⟨names, behind⟩
      rw [List.map_cons, List.map_cons, induction behind,
        Name.rename_erasing (Word.name.inj (Form.atom.inj names))]

section

variable {methods methods' classMethods classMethods' : List NamedFunction}

/-- Class methods stand in front of instance methods and can be told from them by their mark. -/
theorem NamedFunction.forms_inj
    (same : NamedFunction.forms [.keyword .classWord] classMethods ++
        NamedFunction.forms [] methods =
      NamedFunction.forms [.keyword .classWord] classMethods' ++ NamedFunction.forms [] methods') :
    NamedFunction.forms [.keyword .classWord] classMethods =
        NamedFunction.forms [.keyword .classWord] classMethods' ∧
      NamedFunction.forms [] methods = NamedFunction.forms [] methods' := by
  induction classMethods generalizing classMethods' with
  | nil =>
    rcases classMethods' with _ | ⟨⟨_, _⟩, _⟩
    · exact ⟨rfl, same⟩
    · rcases methods with _ | ⟨⟨_, _⟩, _⟩ <;> simp [NamedFunction.forms] at same
  | cons first others induction =>
    rcases first with ⟨name, definition⟩
    rcases classMethods' with _ | ⟨⟨_, _⟩, others'⟩
    · rcases methods' with _ | ⟨⟨_, _⟩, _⟩ <;> simp [NamedFunction.forms] at same
    · rcases List.cons.inj same with ⟨here, behind⟩
      rcases induction behind with ⟨marked, plain⟩
      exact ⟨congrArg₂ List.cons here marked, plain⟩

/-- The form of what a class extends. -/
def extendingForms (superclass : Option Reference) : List Form :=
  superclass.toList.map fun target => .round [.symbol .less, .name target.name.text]

/-- What a class extends stands in front of the methods and can be told from them by its sign. -/
theorem superclass_rename_erasing {superclass superclass' : Option Reference}
    (same : extendingForms superclass ++
        (NamedFunction.forms [.keyword .classWord] classMethods ++
          NamedFunction.forms [] methods) =
      extendingForms superclass' ++
        (NamedFunction.forms [.keyword .classWord] classMethods' ++
          NamedFunction.forms [] methods')) :
    superclass.map (Reference.rename .erasing) = superclass'.map (Reference.rename .erasing) ∧
      NamedFunction.forms [.keyword .classWord] classMethods ++ NamedFunction.forms [] methods =
        NamedFunction.forms [.keyword .classWord] classMethods' ++
          NamedFunction.forms [] methods' := by
  cases superclass with
  | none =>
    cases superclass' with
    | none => exact ⟨rfl, same⟩
    | some target' =>
      rcases classMethods with _ | ⟨⟨_, _⟩, _⟩ <;> rcases methods with _ | ⟨⟨_, _⟩, _⟩ <;>
        simp [extendingForms, NamedFunction.forms] at same
  | some target =>
    cases superclass' with
    | none =>
      rcases classMethods' with _ | ⟨⟨_, _⟩, _⟩ <;> rcases methods' with _ | ⟨⟨_, _⟩, _⟩ <;>
        simp [extendingForms, NamedFunction.forms] at same
    | some target' =>
      rcases List.cons.inj same with ⟨here, behind⟩
      simp only [Form.round.injEq, List.cons.injEq, Form.atom.injEq, Word.name.injEq, true_and,
        and_true] at here
      exact ⟨congrArg some (Reference.rename_erasing here), behind⟩

end

/-! ### Statements with parts that may be missing -/

@[simp]
theorem Stmt.form_varDecl {name : Name} {initial : Option Expr} :
    (Stmt.varDecl name initial).form =
      .round (.keyword .varWord :: .name name.text :: initial.toList.map Expr.form) := by
  cases initial <;> rfl

@[simp]
theorem Stmt.form_ifElse {condition : Expr} {whenTrue : Stmt} {whenFalse : Option Stmt} :
    (Stmt.ifElse condition whenTrue whenFalse).form =
      .round (.keyword .ifWord :: condition.form :: whenTrue.form ::
        whenFalse.toList.map Stmt.form) := by
  cases whenFalse <;> rfl

@[simp]
theorem Stmt.form_funDecl {function : NamedFunction} :
    (Stmt.funDecl function).form =
      .round (.keyword .funWord :: .name function.name.text :: function.definition.forms) := by
  cases function
  rfl

@[simp]
theorem Stmt.form_returnValue {line : Nat} {value : Option Expr} :
    (Stmt.returnValue line value).form =
      .round (.keyword .returnWord :: value.toList.map Expr.form) := by
  cases value <;> rfl

mutual

/-- What is printed alike is the same expression, but for ids and lines. -/
theorem Expr.rename_erasing : ∀ (expression : Expr) {other : Expr},
    expression.form = other.form → expression.rename .erasing = other.rename .erasing
  | .literal value, other, same => by
    cases other with
    | literal value' => rw [Literal.eq_of_form_eq same]
    | _ => simp [Expr.form] at same
  | .group inner, other, same => by
    cases other with
    | group inner' =>
      simp only [Expr.form, Form.round.injEq, List.cons.injEq, true_and, and_true] at same
      rw [Expr.rename, Expr.rename, inner.rename_erasing same]
    | _ => simp [Expr.form] at same
  | .unary op line operand, other, same => by
    cases other with
    | unary op' line' operand' =>
      simp only [Expr.form, Form.round.injEq, List.cons.injEq, Form.atom.injEq,
        Word.symbol.injEq, and_true] at same
      rw [Expr.rename, Expr.rename, UnaryOp.eq_of_symbol_eq same.1, operand.rename_erasing same.2]
      rfl
    | _ => simp [Expr.form] at same
  | .binary op line left right, other, same => by
    cases other with
    | binary op' line' left' right' =>
      simp only [Expr.form, Form.round.injEq, List.cons.injEq, Form.atom.injEq,
        Word.symbol.injEq, and_true] at same
      rw [Expr.rename, Expr.rename, BinaryOp.eq_of_symbol_eq same.1, left.rename_erasing same.2.1,
        right.rename_erasing same.2.2]
      rfl
    | assign | get | set => cases op <;> simp [Expr.form, BinaryOp.symbol] at same
    | _ => simp [Expr.form] at same
  | .logical op line left right, other, same => by
    cases other with
    | logical op' line' left' right' =>
      simp only [Expr.form, Form.round.injEq, List.cons.injEq, Form.atom.injEq,
        Word.keyword.injEq, and_true] at same
      rw [Expr.rename, Expr.rename, LogicalOp.eq_of_keyword_eq same.1,
        left.rename_erasing same.2.1, right.rename_erasing same.2.2]
      rfl
    | function => cases op <;> simp [Expr.form, LogicalOp.keyword] at same
    | _ => simp [Expr.form] at same
  | .read target, other, same => by
    cases other with
    | read target' =>
      simp only [Expr.form, Form.atom.injEq, Word.name.injEq] at same
      rw [Expr.rename, Expr.rename, Reference.rename_erasing same]
    | _ => simp [Expr.form] at same
  | .assign target value, other, same => by
    cases other with
    | assign target' value' =>
      simp only [Expr.form, Form.round.injEq, List.cons.injEq, Form.atom.injEq, Word.name.injEq,
        true_and, and_true] at same
      rw [Expr.rename, Expr.rename, Reference.rename_erasing same.1, value.rename_erasing same.2]
    | binary op => cases op <;> simp [Expr.form, BinaryOp.symbol] at same
    | _ => simp [Expr.form] at same
  | .call callee line arguments, other, same => by
    cases other with
    | call callee' line' arguments' =>
      simp only [Expr.form, Form.round.injEq, List.cons.injEq, true_and] at same
      rw [Expr.rename, Expr.rename, callee.rename_erasing same.1,
        Expr.renameAll_erasing arguments same.2]
      rfl
    | _ => simp [Expr.form] at same
  | .function definition, other, same => by
    cases other with
    | function definition' =>
      simp only [Expr.form, Form.round.injEq, List.cons.injEq, true_and] at same
      rw [Expr.rename, Expr.rename, definition.rename_erasing same]
    | logical op => cases op <;> simp [Expr.form, LogicalOp.keyword] at same
    | _ => simp [Expr.form] at same
  | .get object name, other, same => by
    cases other with
    | get object' name' =>
      simp only [Expr.form, Form.round.injEq, List.cons.injEq, Form.atom.injEq, Word.name.injEq,
        true_and, and_true] at same
      rw [Expr.rename, Expr.rename, object.rename_erasing same.1, Name.rename_erasing same.2]
    | binary op => cases op <;> simp [Expr.form, BinaryOp.symbol] at same
    | _ => simp [Expr.form] at same
  | .set object name value, other, same => by
    cases other with
    | set object' name' value' =>
      simp only [Expr.form, Form.round.injEq, List.cons.injEq, Form.atom.injEq, Word.name.injEq,
        true_and, and_true] at same
      rw [Expr.rename, Expr.rename, object.rename_erasing same.1.1,
        Name.rename_erasing same.1.2, value.rename_erasing same.2]
    | binary op => cases op <;> simp [Expr.form, BinaryOp.symbol] at same
    | _ => simp [Expr.form] at same
  | .this id line, other, same => by
    cases other with
    | this => rfl
    | _ => simp [Expr.form] at same
  | .super id line method, other, same => by
    cases other with
    | super id' line' method' =>
      simp only [Expr.form, Form.round.injEq, List.cons.injEq, Form.atom.injEq, Word.name.injEq,
        true_and, and_true] at same
      rw [Expr.rename, Expr.rename, Name.rename_erasing same]
      rfl
    | _ => simp [Expr.form] at same

theorem Expr.renameAll_erasing : ∀ (expressions : List Expr) {others : List Expr},
    Expr.forms expressions = Expr.forms others →
      Expr.renameAll .erasing expressions = Expr.renameAll .erasing others
  | [], others, same => by
    cases others with
    | nil => rfl
    | cons => cases same
  | first :: others, others', same => by
    cases others' with
    | nil => cases same
    | cons first' others' =>
      rcases List.cons.inj same with ⟨here, behind⟩
      rw [Expr.renameAll, Expr.renameAll, first.rename_erasing here,
        Expr.renameAll_erasing others behind]

theorem Function.rename_erasing : ∀ (definition : Function) {other : Function},
    definition.forms = other.forms → definition.rename .erasing = other.rename .erasing
  | .mk parameters body, .mk parameters' body', same => by
    simp only [Function.forms, List.cons.injEq, Form.round.injEq, Form.curly.injEq,
      and_true] at same
    rw [Function.rename, Function.rename, names_rename_erasing same.1,
      Stmt.renameAll_erasing body same.2]

theorem NamedFunction.renameAll_erasing : ∀ (methods : List NamedFunction)
    {methods' : List NamedFunction} {marks : List Form},
    NamedFunction.forms marks methods = NamedFunction.forms marks methods' →
      NamedFunction.renameAll .erasing methods = NamedFunction.renameAll .erasing methods'
  | [], methods', marks, same => by
    rcases methods' with _ | ⟨⟨_, _⟩, _⟩
    · rfl
    · cases same
  | .mk name definition :: others, methods', marks, same => by
    rcases methods' with _ | ⟨⟨name', definition'⟩, others'⟩
    · cases same
    · simp only [NamedFunction.forms, List.cons.injEq, Form.round.injEq,
        List.append_cancel_left_eq, Form.atom.injEq, Word.name.injEq] at same
      rw [NamedFunction.renameAll, NamedFunction.renameAll, Name.rename_erasing same.1.1,
        definition.rename_erasing same.1.2, NamedFunction.renameAll_erasing others same.2]

/-- What is printed alike is the same statement, but for ids and lines. -/
theorem Stmt.rename_erasing : ∀ (statement : Stmt) {other : Stmt},
    statement.form = other.form → statement.rename .erasing = other.rename .erasing
  | .expression value, other, same => by
    cases other with
    | expression value' =>
      simp only [Stmt.form, Form.round.injEq, List.cons.injEq, true_and, and_true] at same
      rw [Stmt.rename, Stmt.rename, value.rename_erasing same]
    | _ => simp [Stmt.form] at same
  | .print value, other, same => by
    cases other with
    | print value' =>
      simp only [Stmt.form, Form.round.injEq, List.cons.injEq, true_and, and_true] at same
      rw [Stmt.rename, Stmt.rename, value.rename_erasing same]
    | _ => simp [Stmt.form] at same
  | .varDecl name none, other, same => by
    cases other with
    | varDecl name' initial' =>
      cases initial' with
      | none =>
        simp only [Stmt.form, Form.round.injEq, List.cons.injEq, Form.atom.injEq, Word.name.injEq,
          true_and, and_true] at same
        rw [Stmt.rename, Stmt.rename, Name.rename_erasing same]
      | some => simp [Stmt.form] at same
    | _ => simp [Stmt.form] at same
  | .varDecl name (some initial), other, same => by
    cases other with
    | varDecl name' initial' =>
      cases initial' with
      | none => simp [Stmt.form] at same
      | some initial' =>
        simp only [Stmt.form, Form.round.injEq, List.cons.injEq, Form.atom.injEq, Word.name.injEq,
          true_and, and_true] at same
        rw [Stmt.rename, Stmt.rename, Name.rename_erasing same.1, initial.rename_erasing same.2]
    | _ => simp [Stmt.form] at same
  | .block body, other, same => by
    cases other with
    | block body' =>
      rw [Stmt.rename, Stmt.rename, Stmt.renameAll_erasing body (Form.curly.inj same)]
    | _ => simp [Stmt.form] at same
  | .ifElse condition whenTrue none, other, same => by
    cases other with
    | ifElse condition' whenTrue' whenFalse' =>
      cases whenFalse' with
      | none =>
        simp only [Stmt.form, Form.round.injEq, List.cons.injEq, true_and, and_true] at same
        rw [Stmt.rename, Stmt.rename, condition.rename_erasing same.1,
          whenTrue.rename_erasing same.2]
      | some => simp [Stmt.form] at same
    | _ => simp [Stmt.form] at same
  | .ifElse condition whenTrue (some whenFalse), other, same => by
    cases other with
    | ifElse condition' whenTrue' whenFalse' =>
      cases whenFalse' with
      | none => simp [Stmt.form] at same
      | some whenFalse' =>
        simp only [Stmt.form, Form.round.injEq, List.cons.injEq, true_and, and_true] at same
        rw [Stmt.rename, Stmt.rename, condition.rename_erasing same.1,
          whenTrue.rename_erasing same.2.1, whenFalse.rename_erasing same.2.2]
    | _ => simp [Stmt.form] at same
  | .whileLoop condition body, other, same => by
    cases other with
    | whileLoop condition' body' =>
      simp only [Stmt.form, Form.round.injEq, List.cons.injEq, true_and, and_true] at same
      rw [Stmt.rename, Stmt.rename, condition.rename_erasing same.1, body.rename_erasing same.2]
    | _ => simp [Stmt.form] at same
  | .breakLoop line, other, same => by
    cases other with
    | breakLoop =>
      rfl
    | _ => simp [Stmt.form] at same
  | .funDecl (.mk name definition), other, same => by
    cases other with
    | funDecl function' =>
      rcases function' with ⟨name', definition'⟩
      simp only [Stmt.form, Form.round.injEq, List.cons.injEq, Form.atom.injEq, Word.name.injEq,
        true_and] at same
      rw [Stmt.rename, Stmt.rename, Name.rename_erasing same.1, definition.rename_erasing same.2]
    | _ => simp [Stmt.form] at same
  | .returnValue line none, other, same => by
    cases other with
    | returnValue line' value' =>
      cases value' with
      | none => rfl
      | some => simp [Stmt.form] at same
    | _ => simp [Stmt.form] at same
  | .returnValue line (some value), other, same => by
    cases other with
    | returnValue line' value' =>
      cases value' with
      | none => simp [Stmt.form] at same
      | some value' =>
        simp only [Stmt.form, Form.round.injEq, List.cons.injEq, true_and, and_true] at same
        rw [Stmt.rename, Stmt.rename, value.rename_erasing same]
        rfl
    | _ => simp [Stmt.form] at same
  | .classDecl name superclass methods classMethods, other, same => by
    cases other with
    | classDecl name' superclass' methods' classMethods' =>
      simp only [Stmt.form, Form.round.injEq, List.cons.injEq, Form.atom.injEq, Word.name.injEq,
        true_and] at same
      rcases superclass_rename_erasing same.2 with ⟨extended, behind⟩
      rcases NamedFunction.forms_inj behind with ⟨marked, plain⟩
      rw [Stmt.rename, Stmt.rename, Name.rename_erasing same.1, extended,
        NamedFunction.renameAll_erasing methods plain,
        NamedFunction.renameAll_erasing classMethods marked]
    | _ => simp [Stmt.form] at same

theorem Stmt.renameAll_erasing : ∀ (statements : List Stmt) {others : List Stmt},
    Stmt.forms statements = Stmt.forms others →
      Stmt.renameAll .erasing statements = Stmt.renameAll .erasing others
  | [], others, same => by
    cases others with
    | nil => rfl
    | cons => cases same
  | first :: others, others', same => by
    cases others' with
    | nil => cases same
    | cons first' others' =>
      rcases List.cons.inj same with ⟨here, behind⟩
      rw [Stmt.renameAll, Stmt.renameAll, first.rename_erasing here,
        Stmt.renameAll_erasing others behind]

end

end Lox
