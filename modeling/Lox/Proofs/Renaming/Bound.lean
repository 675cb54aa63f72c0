import Lox.Proofs.Grammar.Building
import Lox.Proofs.Renaming.Grammar
import Lox.Proofs.Renaming.Value

/-!
# Programs with small ids and lines

A renaming that leaves small ids and small lines alone does not change a program all of whose
ids and lines are small.  That it does not is what is said here of such programs: the programs
that are read from tokens on small lines are among them (`renameAll_parse`), and so are the
functions that they make.
-/

namespace Lox

/-! ## Programs that renamings do not change -/

/-- Some renamings do not change a function. -/
def Function.IsFixed (changes : Renaming → Prop) (definition : Function) : Prop :=
  ∀ change, changes change → definition.rename change = definition

section

variable {changes : Renaming → Prop}

mutual

theorem Expr.makes_of_fixed : ∀ expression : Expr,
    (∀ change, changes change → expression.rename change = expression) →
      expression.Makes (Function.IsFixed changes)
  | .literal _, _ => trivial
  | .read _, _ => trivial
  | .this _ _, _ => trivial
  | .super _ _ _, _ => trivial
  | .group inner, fixed =>
    inner.makes_of_fixed fun change among => Expr.group.inj (fixed change among)
  | .unary _ _ operand, fixed =>
    operand.makes_of_fixed fun change among => (Expr.unary.inj (fixed change among)).2.2
  | .binary _ _ left right, fixed =>
    ⟨left.makes_of_fixed fun change among => (Expr.binary.inj (fixed change among)).2.2.1,
      right.makes_of_fixed fun change among => (Expr.binary.inj (fixed change among)).2.2.2⟩
  | .logical _ _ left right, fixed =>
    ⟨left.makes_of_fixed fun change among => (Expr.logical.inj (fixed change among)).2.2.1,
      right.makes_of_fixed fun change among => (Expr.logical.inj (fixed change among)).2.2.2⟩
  | .assign _ value, fixed =>
    value.makes_of_fixed fun change among => (Expr.assign.inj (fixed change among)).2
  | .call callee _ arguments, fixed =>
    ⟨callee.makes_of_fixed fun change among => (Expr.call.inj (fixed change among)).1,
      Expr.makeAll_of_fixed arguments fun change among =>
        (Expr.call.inj (fixed change among)).2.2⟩
  | .function _, fixed => fun change among => Expr.function.inj (fixed change among)
  | .get object _, fixed =>
    object.makes_of_fixed fun change among => (Expr.get.inj (fixed change among)).1
  | .set object _ value, fixed =>
    ⟨object.makes_of_fixed fun change among => (Expr.set.inj (fixed change among)).1,
      value.makes_of_fixed fun change among => (Expr.set.inj (fixed change among)).2.2⟩

theorem Expr.makeAll_of_fixed : ∀ expressions : List Expr,
    (∀ change, changes change → Expr.renameAll change expressions = expressions) →
      Expr.MakeAll (Function.IsFixed changes) expressions
  | [], _ => trivial
  | first :: others, fixed =>
    ⟨first.makes_of_fixed fun change among => (List.cons.inj (fixed change among)).1,
      Expr.makeAll_of_fixed others fun change among => (List.cons.inj (fixed change among)).2⟩

end

theorem NamedFunction.makeAll_of_fixed : ∀ functions : List NamedFunction,
    (∀ change, changes change → NamedFunction.renameAll change functions = functions) →
      NamedFunction.MakeAll (Function.IsFixed changes) functions
  | [], _ => List.forall_mem_nil _
  | .mk _ _ :: others, fixed =>
    List.forall_mem_cons.mpr ⟨
      fun change among =>
        (NamedFunction.mk.inj (List.cons.inj (fixed change among)).1).2,
      NamedFunction.makeAll_of_fixed others fun change among =>
        (List.cons.inj (fixed change among)).2⟩

mutual

theorem Stmt.makes_of_fixed : ∀ statement : Stmt,
    (∀ change, changes change → statement.rename change = statement) →
      statement.Makes (Function.IsFixed changes)
  | .expression value, fixed =>
    value.makes_of_fixed fun change among => Stmt.expression.inj (fixed change among)
  | .print value, fixed =>
    value.makes_of_fixed fun change among => Stmt.print.inj (fixed change among)
  | .varDecl _ none, _ => trivial
  | .varDecl _ (some initial), fixed =>
    initial.makes_of_fixed fun change among =>
      Option.some.inj (Stmt.varDecl.inj (fixed change among)).2
  | .block body, fixed =>
    Stmt.makeAll_of_fixed body fun change among => Stmt.block.inj (fixed change among)
  | .ifElse condition whenTrue none, fixed =>
    ⟨condition.makes_of_fixed fun change among => (Stmt.ifElse.inj (fixed change among)).1,
      whenTrue.makes_of_fixed fun change among => (Stmt.ifElse.inj (fixed change among)).2.1⟩
  | .ifElse condition whenTrue (some whenFalse), fixed =>
    ⟨condition.makes_of_fixed fun change among => (Stmt.ifElse.inj (fixed change among)).1,
      whenTrue.makes_of_fixed fun change among => (Stmt.ifElse.inj (fixed change among)).2.1,
      whenFalse.makes_of_fixed fun change among =>
        Option.some.inj (Stmt.ifElse.inj (fixed change among)).2.2⟩
  | .whileLoop condition body, fixed =>
    ⟨condition.makes_of_fixed fun change among => (Stmt.whileLoop.inj (fixed change among)).1,
      body.makes_of_fixed fun change among => (Stmt.whileLoop.inj (fixed change among)).2⟩
  | .breakLoop _, _ => trivial
  | .funDecl (.mk _ _), fixed => fun change among =>
    (NamedFunction.mk.inj (Stmt.funDecl.inj (fixed change among))).2
  | .returnValue _ none, _ => trivial
  | .returnValue _ (some value), fixed =>
    value.makes_of_fixed fun change among =>
      Option.some.inj (Stmt.returnValue.inj (fixed change among)).2
  | .classDecl _ _ methods classMethods, fixed =>
    ⟨NamedFunction.makeAll_of_fixed methods fun change among =>
        (Stmt.classDecl.inj (fixed change among)).2.2.1,
      NamedFunction.makeAll_of_fixed classMethods fun change among =>
        (Stmt.classDecl.inj (fixed change among)).2.2.2⟩

theorem Stmt.makeAll_of_fixed : ∀ statements : List Stmt,
    (∀ change, changes change → Stmt.renameAll change statements = statements) →
      Stmt.MakeAll (Function.IsFixed changes) statements
  | [], _ => trivial
  | first :: others, fixed =>
    ⟨first.makes_of_fixed fun change among => (List.cons.inj (fixed change among)).1,
      Stmt.makeAll_of_fixed others fun change among => (List.cons.inj (fixed change among)).2⟩

end

end

/-! ## Small ids and lines -/

/-- A renaming that leaves smaller ids and smaller lines alone. -/
structure Renaming.Keeps (ids lines : Nat) (change : Renaming) : Prop where
  id : ∀ id < ids, change.id id = id
  line : ∀ line < lines, change.line line = line

theorem Renaming.keeps_refl (ids lines : Nat) : Renaming.refl.Keeps ids lines :=
  ⟨fun _ _ => rfl, fun _ _ => rfl⟩

theorem Renaming.Keeps.mono {ids ids' lines lines' : Nat} {change : Renaming}
    (keeps : change.Keeps ids' lines') (idsLe : ids ≤ ids') (linesLe : lines ≤ lines') :
    change.Keeps ids lines :=
  ⟨fun id isLess => keeps.id id (Nat.lt_of_lt_of_le isLess idsLe),
    fun line isLess => keeps.line line (Nat.lt_of_lt_of_le isLess linesLe)⟩

/-- Machines in which all ids and lines are small. -/
def Variation.below (ids lines : Nat) : Variation where
  change := .refl
  allowed := Function.IsFixed (Renaming.Keeps ids lines)
  closed := by
    rintro ⟨parameters, body⟩ fixed
    exact Stmt.makeAll_of_fixed body fun change keeps =>
      (Function.mk.inj (fixed change keeps)).2

theorem Variation.below_mono {ids ids' lines lines' : Nat} (idsLe : ids ≤ ids')
    (linesLe : lines ≤ lines') : (below ids lines).Le (below ids' lines') :=
  fun _ fixed => ⟨fun change keeps => fixed change (keeps.mono idsLe linesLe), rfl⟩

/-- Machines in which all ids and lines are small, and what a renaming makes of them. -/
def Variation.keeping (ids lines : Nat) (change : Renaming) : Variation :=
  { below ids lines with change := change }

theorem Variation.below_le_keeping {ids ids' lines lines' : Nat} (idsLe : ids ≤ ids')
    (linesLe : lines ≤ lines') {change : Renaming} (keeps : change.Keeps ids lines) :
    (below ids lines).Le (keeping ids' lines' change) := by
  intro definition fixed
  refine ⟨fun change keeps => fixed change (keeps.mono idsLe linesLe), ?_⟩
  show definition.rename .refl = definition.rename change
  rw [fixed .refl (Renaming.keeps_refl ids lines), fixed change keeps]

/-- It does not matter by which of two renamings small ids and lines are kept. -/
theorem Variation.keeping_le {ids lines : Nat} {change other : Renaming}
    (keeps : change.Keeps ids lines) (keeps' : other.Keeps ids lines) :
    (keeping ids lines change).Le other.variation := by
  intro definition fixed
  refine ⟨trivial, ?_⟩
  show definition.rename change = definition.rename other
  rw [fixed change keeps, fixed other keeps']

/-- Small ids and lines stay under a renaming that leaves them alone. -/
theorem Variation.below_le {ids lines : Nat} {change : Renaming} (keeps : change.Keeps ids lines) :
    (below ids lines).Le change.variation :=
  keeping_le (Renaming.keeps_refl ids lines) keeps

/-! ## Ids that are skipped -/

/-- Ids from the first one that is skipped grow by the number of those that are. -/
def Renaming.skip (first distance : Nat) : Renaming :=
  ⟨fun id => if id < first then id else id + distance, fun line => line⟩

theorem Renaming.skip_injective (first distance : Nat) :
    Function.Injective (skip first distance).id := by
  intro left right same
  simp only [skip] at same
  split at same <;> split at same <;> omega

theorem Renaming.keeps_skip (first distance lines : Nat) :
    (skip first distance).Keeps first lines :=
  ⟨fun _ isLess => if_pos isLess, fun _ _ => rfl⟩

/-! ## Programs that are read -/

namespace Grammar

/-- Tokens on small lines are not moved. -/
theorem map_move_eq_self {lines : Nat} {line : Nat → Nat}
    (kept : ∀ number < lines, line number = number) {tokens : List Token}
    (small : ∀ token ∈ tokens, token.line < lines) : tokens.map (Token.move line) = tokens := by
  conv_rhs => rw [← List.map_id tokens]
  apply List.map_congr_left
  rintro ⟨kind, lexeme, number⟩ member
  rw [Token.move, kept number (small _ member)]
  rfl

/-- A program that is read from tokens on small lines has small ids and lines. -/
theorem renameAll_parse {firstId lines : Nat} {tokens : List Token}
    (closed : tokens.any (·.kind.isEnding)) (small : ∀ token ∈ tokens, token.line < lines)
    {change : Renaming} (keeps : change.Keeps (parse firstId tokens).nextId lines) :
    Stmt.renameAll change (parse firstId tokens).statements =
      (parse firstId tokens).statements := by
  have moved := parse_move ⟨0, change.line⟩ firstId closed
  rw [map_move_eq_self keeps.line small] at moved
  have builds := parse_builds (fun _ => True) firstId tokens fun _ _ _ => trivial
  have same : Stmt.renameAll change (parse firstId tokens).statements =
      Stmt.renameAll (Shift.renaming ⟨0, change.line⟩) (parse firstId tokens).statements := by
    have lines : change.line = (Shift.renaming ⟨0, change.line⟩).line := rfl
    apply Stmt.renameAll_congr lines
    exact fun id member => keeps.id id (builds.2.2.bounds id member).2
  rw [same]
  exact (congrArg Parsed.statements moved).symm

end Grammar

end Lox
