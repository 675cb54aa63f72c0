import Lox.Proofs.Grammar.Exactness
import Lox.Proofs.Printing.Injectivity

/-!
# Printed programs

The words of a tree that is read without errors are tokens, or words that printing adds, so its
form is fit (`Derivation.Program.yields`).  Therefore two statements of such programs that are
printed alike are the same but for ids and lines: `Reading.rename_erasing_of_text_eq`.
-/

namespace Lox

/-- A token that is spelt as its kind demands; the numbers are these. -/
structure Token.IsFit (numbers : Float → Prop) (token : Token) : Prop where
  spelt : token.kind.IsSpelt token.lexeme.toList
  number : ∀ value, token.kind = .number value → numbers value

namespace Form

variable {numbers : Float → Prop}

theorem isFit_symbol {sign : Symbol} (plain : sign.text.toList.all isPlain) :
    (Form.symbol sign).IsFit numbers :=
  List.all_eq_true.mp plain

theorem isFit_unaryOp (op : UnaryOp) : (Form.symbol op.symbol).IsFit numbers :=
  isFit_symbol (by cases op <;> rfl)

theorem isFit_binaryOp (op : BinaryOp) : (Form.symbol op.symbol).IsFit numbers :=
  isFit_symbol (by cases op <;> rfl)

theorem isFit_keyword (word : Keyword) : (Form.keyword word).IsFit numbers :=
  trivial

theorem isFit_group : (Form.name "group").IsFit numbers :=
  .identifier rfl (List.all_eq_true.mp rfl) fun word => by cases word <;> rintro ⟨⟩

theorem isFit_call : (Form.name "call").IsFit numbers :=
  .identifier rfl (List.all_eq_true.mp rfl) fun word => by cases word <;> rintro ⟨⟩

theorem areFit_iff {forms : List Form} :
    AreFit numbers forms ↔ ∀ form ∈ forms, form.IsFit numbers := by
  induction forms with
  | nil => exact iff_of_true trivial (List.forall_mem_nil _)
  | cons first others induction =>
    rw [AreFit, induction, List.forall_mem_cons]

end Form

namespace Derivation

open Grammar (Connective Level forLoop)

/-! ## Forms of derived trees -/

/-- From fit tokens fit forms are made, and the tokens that are left are fit. -/
def Yields (numbers : Float → Prop) (before : Position) (forms : List Form)
    (after : Position) : Prop :=
  (∀ token ∈ before.rest, token.IsFit numbers) →
    Form.AreFit numbers forms ∧ ∀ token ∈ after.rest, token.IsFit numbers

variable {numbers : Float → Prop} {kind : Kind} {token : Token}
  {before middle after : Position}

namespace Yields

variable {forms forms' : List Form}

theorem nil (position : Position) : Yields numbers position [] position :=
  fun fit => ⟨trivial, fit⟩

theorem trans (first : Yields numbers before forms middle)
    (second : Yields numbers middle forms' after) :
    Yields numbers before (forms ++ forms') after := by
  intro fit
  rcases first fit with ⟨here, fit⟩
  rcases second fit with ⟨there, fit⟩
  exact ⟨Form.areFit_append.mpr ⟨here, there⟩, fit⟩

theorem imp (yields : Yields numbers before forms after)
    (implied : Form.AreFit numbers forms → Form.AreFit numbers forms') :
    Yields numbers before forms' after :=
  fun fit => (yields fit).imp_left implied

theorem perm (yields : Yields numbers before forms after) (same : forms.Perm forms') :
    Yields numbers before forms' after :=
  yields.imp fun fit => Form.areFit_iff.mpr fun form member =>
    Form.areFit_iff.mp fit form (same.mem_iff.mpr member)

/-- Forms are put into parentheses. -/
theorem enclose (yields : Yields numbers before forms after) :
    Yields numbers before [.round forms] after :=
  yields.imp fun fit => ⟨fit, trivial⟩

/-- Forms are put into parentheses, behind a head. -/
theorem round (yields : Yields numbers before forms after) {head : Form}
    (fit : head.IsFit numbers) : Yields numbers before [.round (head :: forms)] after :=
  yields.imp fun others => ⟨⟨fit, others⟩, trivial⟩

theorem skip (yields : Yields numbers before forms middle) (skips : Skips kind middle after) :
    Yields numbers before forms after := by
  rcases skips with ⟨token, reads⟩
  intro fit
  refine ⟨(yields fit).1, fun later member => (yields fit).2 later ?_⟩
  rw [reads.rest]
  exact List.mem_cons_of_mem _ member

theorem number {number : Nat} (yields : Yields numbers before forms middle)
    (counts : Numbers middle number after) : Yields numbers before forms after := by
  rw [Yields, counts.rest]
  exact yields

end Yields

theorem Skips.yields (skips : Skips kind before after) : Yields numbers before [] after :=
  (Yields.nil before).skip skips

theorem Reads.isFit (reads : Reads kind before token after)
    (fit : ∀ token ∈ before.rest, token.IsFit numbers) : token.IsFit numbers :=
  fit token (by rw [reads.rest]; exact List.mem_cons_self)

theorem ReadsName.yields {name : Name} (reads : ReadsName before name after) :
    Yields numbers before [.name name.text] after := by
  cases reads with
  | name word =>
    rename_i token
    intro fit
    have spelt := (word.isFit fit).spelt
    rw [word.kind] at spelt
    exact ⟨⟨spelt, trivial⟩, (word.skips.yields fit).2⟩

theorem ReadsVariable.yields {target : Reference} (reads : ReadsVariable before target after) :
    Yields numbers before [.name target.name.text] after := by
  cases reads with
  | reference name counts => exact name.yields.number counts

theorem Names.yields {names : List Name} (derives : Names before names after) :
    Yields numbers before (names.map fun name => .name name.text) after := by
  induction derives with
  | last name => exact name.yields
  | more name comma _ induction => exact name.yields.trans (comma.yields.trans induction)

theorem Parameters.yields {names : List Name} (derives : Parameters before names after) :
    Yields numbers before [.round (names.map fun name => .name name.text)] after := by
  cases derives with
  | none => exact (Yields.nil _).enclose
  | some names _ => exact names.yields.enclose

theorem Superclass.yields {target : Option Reference} (derives : Superclass before target after) :
    Yields numbers before (extendingForms target) after := by
  cases derives with
  | none => exact .nil _
  | some sign name => exact (sign.yields.trans name.yields).round (Form.isFit_symbol rfl)

theorem Denotes.isFit_form {value : Literal} (denotes : Denotes kind value)
    (reads : Reads kind before token after)
    (fit : ∀ token ∈ before.rest, token.IsFit numbers) : value.form.IsFit numbers := by
  have fit := reads.isFit fit
  cases denotes with
  | nil => exact Form.isFit_keyword _
  | isTrue => exact Form.isFit_keyword _
  | isFalse => exact Form.isFit_keyword _
  | number value => exact fit.number value reads.kind
  | string contents =>
    have spelt := fit.spelt
    rw [reads.kind] at spelt
    generalize token.lexeme.toList = text at spelt
    cases spelt with
    | string closed => simpa [Literal.form, Form.IsFit] using closed

theorem Yields.join (connective : Connective) (line : Nat) {left right : Expr}
    (yields : Yields numbers before [left.form, right.form] after) :
    Yields numbers before [(connective.join line left right).form] after := by
  cases connective with
  | logical op => exact yields.round (Form.isFit_keyword _)
  | binary op => exact yields.round (Form.isFit_binaryOp op)

/-- The increment of a `for` loop stands before the body, but in the tree behind it. -/
theorem isFit_forLoop {initial : Option Stmt} {condition increment : Option Expr} {body : Stmt}
    (fit : Form.AreFit numbers (Stmt.forms initial.toList ++ (Expr.forms condition.toList ++
      (Expr.forms increment.toList ++ [body.form])))) :
    Form.AreFit numbers [(forLoop initial condition increment body).form] := by
  have sign : (Form.symbol .semicolon).IsFit numbers := Form.isFit_symbol rfl
  cases initial <;> cases condition <;> cases increment <;>
    simp_all [forLoop, Stmt.form, Stmt.forms, Expr.form, Expr.forms, Literal.form, Form.AreFit,
      Form.IsFit, Word.IsFit]

mutual

theorem Expression.yields {before : Position} {tree : Expr} {after : Position} :
    Expression before tree after → Yields numbers before [tree.form] after
  | .operation inner => inner.yields
  | .assign target sign value =>
    (target.yields.trans (sign.yields.trans value.yields)).round (Form.isFit_symbol rfl)
  | .set object dot name sign value =>
    (((object.yields.trans (dot.yields.trans name.yields)).round (Form.isFit_symbol rfl)).trans
      (sign.yields.trans value.yields)).round (Form.isFit_symbol rfl)

theorem Operation.yields {level : Level} {before : Position} {tree : Expr} {after : Position} :
    Operation level before tree after → Yields numbers before [tree.form] after
  | .operand inner => inner.yields
  | .join left _ sign right =>
    (left.yields.trans (sign.skips.yields.trans right.yields)).join _ _

theorem Operand.yields {level : Level} {before : Position} {tree : Expr} {after : Position} :
    Operand level before tree after → Yields numbers before [tree.form] after
  | .tighter _ inner => inner.yields
  | .unary inner => inner.yields

theorem Unary.yields {before : Position} {tree : Expr} {after : Position} :
    Unary before tree after → Yields numbers before [tree.form] after
  | .operator _ sign operand =>
    (sign.skips.yields.trans operand.yields).round (Form.isFit_unaryOp _)
  | .call inner => inner.yields

theorem Call.yields {before : Position} {tree : Expr} {after : Position} :
    Call before tree after → Yields numbers before [tree.form] after
  | .primary inner => inner.yields
  | .call callee opening arguments closing =>
    (callee.yields.trans (opening.yields.trans (arguments.yields.skip closing.skips))).round
      Form.isFit_call
  | .get object dot name =>
    (object.yields.trans (dot.yields.trans name.yields)).round (Form.isFit_symbol rfl)

theorem Arguments.yields {before : Position} {trees : List Expr} {after : Position} :
    Arguments before trees after → Yields numbers before (Expr.forms trees) after
  | .none => .nil _
  | .some values _ => values.yields

theorem Values.yields {before : Position} {trees : List Expr} {after : Position} :
    Values before trees after → Yields numbers before (Expr.forms trees) after
  | .last value => value.yields
  | .more value comma others => value.yields.trans (comma.yields.trans others.yields)

theorem Primary.yields {before : Position} {tree : Expr} {after : Position} :
    Primary before tree after → Yields numbers before [tree.form] after
  | .literal denotes word => fun fit =>
    ⟨⟨denotes.isFit_form word fit, trivial⟩, (word.skips.yields fit).2⟩
  | .read name => name.yields
  | .this word counts =>
    (word.skips.yields.number counts).imp fun _ => ⟨Form.isFit_keyword _, trivial⟩
  | .super word dot name counts =>
    ((word.skips.yields.trans (dot.yields.trans name.yields)).number counts).round
      (Form.isFit_keyword _)
  | .group opening inner closing =>
    (opening.yields.trans (inner.yields.skip closing)).round Form.isFit_group
  | .function word definition =>
    (word.yields.trans definition.yields).round (Form.isFit_keyword _)

theorem Definition.yields {before : Position} {tree : Function} {after : Position} :
    Definition before tree after → Yields numbers before tree.forms after
  | .function opening parameters closing body =>
    opening.yields.trans (parameters.yields.trans (closing.yields.trans body.yields))

theorem Block.yields {breakable : Bool} {before : Position} {trees : List Stmt}
    {after : Position} : Block breakable before trees after →
      Yields numbers before [.curly (Stmt.forms trees)] after
  | .block opening inner closing =>
    (opening.yields.trans (inner.yields.skip closing)).imp fun fit => ⟨fit, trivial⟩

theorem Declarations.yields {breakable : Bool} {before : Position} {trees : List Stmt}
    {after : Position} :
    Declarations breakable before trees after → Yields numbers before (Stmt.forms trees) after
  | .nil => .nil _
  | .cons first others => first.yields.trans others.yields

theorem Declaration.yields {breakable : Bool} {before : Position} {tree : Stmt}
    {after : Position} :
    Declaration breakable before tree after → Yields numbers before [tree.form] after
  | .classDecl word name superclass opening inner closing =>
    (word.yields.trans (name.yields.trans (superclass.yields.trans
      (opening.yields.trans (inner.yields.skip closing))))).round (Form.isFit_keyword _)
  | .funDecl word (.function name definition) =>
    (word.yields.trans (name.yields.trans definition.yields)).round (Form.isFit_keyword _)
  | .varDecl inner => inner.yields
  | .statement inner => inner.yields

/-- Class methods are printed in front of instance methods. -/
theorem Methods.yields {before : Position} {methods classMethods : List NamedFunction}
    {after : Position} : Methods before methods classMethods after →
      Yields numbers before
        (NamedFunction.forms [.keyword .classWord] classMethods ++ NamedFunction.forms [] methods)
        after
  | .nil => .nil _
  | .method (.function name definition) others =>
    ((name.yields.trans definition.yields).enclose.trans others.yields).perm
      (List.perm_append_comm_assoc _ _ _)
  | .classMethod word (.function name definition) others =>
    ((word.yields.trans (name.yields.trans definition.yields)).round
      (Form.isFit_keyword _)).trans others.yields

theorem Variable.yields {before : Position} {tree : Stmt} {after : Position} :
    Variable before tree after → Yields numbers before [tree.form] after
  | .bare word name ending =>
    (word.yields.trans (name.yields.skip ending)).round (Form.isFit_keyword _)
  | .initialised word name sign value ending =>
    (word.yields.trans (name.yields.trans (sign.yields.trans (value.yields.skip ending)))).round
      (Form.isFit_keyword _)

theorem Statement.yields {breakable : Bool} {before : Position} {tree : Stmt}
    {after : Position} :
    Statement breakable before tree after → Yields numbers before [tree.form] after
  | .expression inner => inner.yields
  | .print word value ending =>
    (word.yields.trans (value.yields.skip ending)).round (Form.isFit_keyword _)
  | .block inner => inner.yields
  | .ifOnly word opening condition closing whenTrue _ =>
    (word.yields.trans (opening.yields.trans (condition.yields.trans
      (closing.yields.trans whenTrue.yields)))).round (Form.isFit_keyword _)
  | .ifElse word opening condition closing whenTrue otherwise whenFalse =>
    (word.yields.trans (opening.yields.trans (condition.yields.trans (closing.yields.trans
      (whenTrue.yields.trans (otherwise.yields.trans whenFalse.yields)))))).round
        (Form.isFit_keyword _)
  | .whileLoop word opening condition closing body =>
    (word.yields.trans (opening.yields.trans (condition.yields.trans
      (closing.yields.trans body.yields)))).round (Form.isFit_keyword _)
  | .forLoop word opening initial condition separator increment closing body =>
    (word.yields.trans (opening.yields.trans (initial.yields.trans (condition.yields.trans
      (separator.yields.trans (increment.yields.trans
        (closing.yields.trans body.yields))))))).imp isFit_forLoop
  | .breakLoop word ending => (word.skips.yields.skip ending).round (Form.isFit_keyword _)
  | .returnValue word .none ending =>
    (word.skips.yields.skip ending).round (Form.isFit_keyword _)
  | .returnValue word (.some value) ending =>
    (word.skips.yields.trans (value.yields.skip ending)).round (Form.isFit_keyword _)

theorem ExpressionStatement.yields {before : Position} {tree : Stmt} {after : Position} :
    ExpressionStatement before tree after → Yields numbers before [tree.form] after
  | .closed value ending => (value.yields.skip ending).round (Form.isFit_symbol rfl)
  | .last value _ => value.yields.round (Form.isFit_symbol rfl)

theorem ForInitial.yields {before : Position} {tree : Option Stmt} {after : Position} :
    ForInitial before tree after → Yields numbers before (Stmt.forms tree.toList) after
  | .none ending => ending.yields
  | .varDecl inner => inner.yields
  | .expression inner => inner.yields

theorem OptionalExpression.yields {before : Position} {tree : Option Expr} {after : Position} :
    OptionalExpression before tree after → Yields numbers before (Expr.forms tree.toList) after
  | .none => .nil _
  | .some value => value.yields

end

/-- The forms of a program from fit tokens are fit. -/
theorem Program.areFit {trees : List Stmt} {nextId : Nat} (derives : Program before trees nextId)
    (fit : ∀ token ∈ before.rest, token.IsFit numbers) :
    Form.AreFit numbers (Stmt.forms trees) := by
  cases derives with
  | program inner _ _ => exact (inner.yields fit).1

end Derivation

/-! ## Statements of source texts -/

/-- The number that a token is. -/
def Token.number? (token : Token) : Option Float :=
  match token.kind with
  | .number value => some value
  | _ => none

/-- The values of the numerals among some items. -/
def Item.numbers (items : List Item) : List Float :=
  (tokens items).filterMap Token.number?

namespace Reading

variable {firstId firstId' : Nat} {source source' : String}

/-- The tokens of a source text up to its end are fit if their numbers are. -/
theorem isFit_rest (firstId : Nat) {numbers : Float → Prop}
    (holds : ∀ value ∈ Item.numbers (Item.scan source), numbers value) :
    ∀ token ∈ (Grammar.State.start firstId (Item.tokens (Item.scan source))).rest,
      token.IsFit numbers := by
  intro token member
  have isFound := List.takeWhile_subset _ member
  have inside : token ∈ Item.tokens (Item.within 1 (Piece.pieces source.toList)) := by
    have isFound := isFound
    rw [Item.scan_eq_within, Item.tokens, List.filterMap_append, List.mem_append] at isFound
    refine isFound.resolve_right fun isEnding => ?_
    rw [List.mem_singleton.mp isEnding] at member
    cases List.mem_takeWhile_imp member
  constructor
  · refine Item.isSpelt_within (fun kind text member => ?_) token inside
    rcases List.append_of_mem member with ⟨earlier, later, split⟩
    exact (Piece.fits_of_pieces_eq split).1
  · intro value isNumber
    apply holds
    exact List.mem_filterMap.mpr ⟨token, isFound, by rw [Token.number?, isNumber]⟩

/-- The forms of statements that are read without syntax errors are fit. -/
theorem isFit_form {numbers : Float → Prop}
    (holds : ∀ value ∈ Item.numbers (Item.scan source), numbers value)
    (noErrors : (ofSource firstId source).syntaxErrors = []) {statement : Stmt}
    (member : statement ∈ (ofSource firstId source).statements) :
    statement.form.IsFit numbers := by
  have derives := Grammar.program_of_parse firstId _ noErrors
  have fit := Form.areFit_iff.mp (derives.areFit (isFit_rest firstId holds))
  apply fit
  rw [Stmt.forms_eq_map]
  exact List.mem_map_of_mem member

/--
The printed tree is unambiguous.  Statements of two source texts that are read without syntax
errors and whose numbers are finite are the same but for ids and lines if they are printed alike,
provided that no two of the numbers are printed alike.
-/
theorem rename_erasing_of_text_eq {statement statement' : Stmt}
    (noErrors : (ofSource firstId source).syntaxErrors = [])
    (noErrors' : (ofSource firstId' source').syntaxErrors = [])
    (member : statement ∈ (ofSource firstId source).statements)
    (member' : statement' ∈ (ofSource firstId' source').statements)
    (legible : AreLegible
      (· ∈ Item.numbers (Item.scan source) ++ Item.numbers (Item.scan source')))
    (same : statement.text = statement'.text) :
    statement.rename .erasing = statement'.rename .erasing := by
  have fit : statement.form.IsFit
      (· ∈ Item.numbers (Item.scan source) ++ Item.numbers (Item.scan source')) :=
    isFit_form (fun _ isNumber => List.mem_append_left _ isNumber) noErrors member
  have fit' : statement'.form.IsFit
      (· ∈ Item.numbers (Item.scan source) ++ Item.numbers (Item.scan source')) :=
    isFit_form (fun _ isNumber => List.mem_append_right _ isNumber) noErrors' member'
  have chars := congrArg String.toList same
  rw [statement.toList_text, statement'.toList_text] at chars
  have stops : Form.StopsWord [] := fun _ impossible => by cases impossible
  have forms := Form.eq_of_chars_append legible statement.form fit fit' stops stops
    (congrArg (· ++ []) chars)
  exact statement.rename_erasing forms.1

/-- A text that looks like a form, and names that forms start with. -/
def oneLine : String := "print \"(a\" + group(call);"

/-- The same on three lines, with a comment. -/
def threeLines : String := "print \"(a\" // (call)\n+ group\n(call);"

/-- Other ids and lines do not matter. -/
theorem rename_erasing_oneLine :
    ∃ statement ∈ (ofSource 0 oneLine).statements,
      ∃ statement' ∈ (ofSource 7 threeLines).statements,
        statement ≠ statement' ∧ statement.rename .erasing = statement'.rename .erasing := by
  let tree (id line line' : Nat) : Stmt :=
    .print (.binary .add line (.literal (.string "(a"))
      (.call (.read ⟨id, ⟨"group", line⟩⟩) line' [.read ⟨id + 1, ⟨"call", line'⟩⟩]))
  have first : ofSource 0 oneLine = ⟨[], [], [tree 0 1 1], 2⟩ := by cbv
  have second : ofSource 7 threeLines = ⟨[], [], [tree 7 2 3], 9⟩ := by cbv
  have none : Item.numbers (Item.scan oneLine) ++ Item.numbers (Item.scan threeLines) = [] := by
    cbv
  have member : tree 0 1 1 ∈ (ofSource 0 oneLine).statements := by
    rw [first]
    exact List.mem_singleton_self _
  have member' : tree 7 2 3 ∈ (ofSource 7 threeLines).statements := by
    rw [second]
    exact List.mem_singleton_self _
  have legible : AreLegible
      (· ∈ Item.numbers (Item.scan oneLine) ++ Item.numbers (Item.scan threeLines)) := by
    rw [none]
    constructor <;> intros <;> contradiction
  refine ⟨_, member, _, member', by rintro ⟨⟩, ?_⟩
  exact rename_erasing_of_text_eq (by rw [first]) (by rw [second]) member member' legible rfl

end Reading

end Lox
