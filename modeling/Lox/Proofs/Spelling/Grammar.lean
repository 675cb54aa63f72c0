import Lox.Proofs.Grammar.Exactness
import Lox.Proofs.Spelling.Tree

/-!
# Spellings of tokens

The grammar does not look at how names are spelt.  So it derives the same tree from tokens with
other names, but with these names in it (`Derivation.Program.spell`).  The names of a tree are
those of its tokens, each of them once: `Derivation.Program.spans`.
-/

namespace Lox

/-- A token as it is spelt; only names are spelt differently. -/
def Token.spell (spelling : Spelling) : Token → Token
  | ⟨.identifier, lexeme, line⟩ =>
    ⟨.identifier, spelling.text ⟨lexeme, line⟩, spelling.line line⟩
  | ⟨kind, lexeme, line⟩ => ⟨kind, lexeme, spelling.line line⟩

@[simp]
theorem Token.kind_spell (spelling : Spelling) (token : Token) :
    (token.spell spelling).kind = token.kind := by
  rcases token with ⟨kind, lexeme, line⟩
  cases kind <;> rfl

@[simp]
theorem Token.line_spell (spelling : Spelling) (token : Token) :
    (token.spell spelling).line = spelling.line token.line := by
  rcases token with ⟨kind, lexeme, line⟩
  cases kind <;> rfl

theorem Token.lexeme_spell (spelling : Spelling) {token : Token}
    (isName : token.kind = .identifier) :
    (token.spell spelling).lexeme = spelling.text ⟨token.lexeme, token.line⟩ := by
  rcases token with ⟨kind, lexeme, line⟩
  cases isName
  rfl

/-- The name that a token is. -/
def Token.name? (token : Token) : Option Name :=
  match token.kind with
  | .identifier => some ⟨token.lexeme, token.line⟩
  | _ => none

namespace Derivation

open Grammar (Connective Level forLoop)

variable {kind : Kind} {token : Token} {before middle after : Position}

/-! ## Other names -/

section

variable (spelling : Spelling)

/-- A place in a program as it is spelt. -/
def Position.spell (position : Position) : Position :=
  ⟨position.rest.map (Token.spell spelling), position.nextId⟩

variable {spelling}

theorem Reads.spell (reads : Reads kind before token after) :
    Reads kind (before.spell spelling) (token.spell spelling) (after.spell spelling) := by
  constructor
  · rw [Position.spell, reads.rest]
    rfl
  · rw [Token.kind_spell, reads.kind]
  · exact reads.nextId

theorem Skips.spell (skips : Skips kind before after) :
    Skips kind (before.spell spelling) (after.spell spelling) := by
  rcases skips with ⟨token, reads⟩
  exact ⟨_, reads.spell⟩

theorem Position.sees_spell_iff (position : Position) :
    (position.spell spelling).Sees kind ↔ position.Sees kind := by
  constructor
  · rintro ⟨⟨rest, nextId⟩, token, reads⟩
    rcases List.map_eq_cons_iff.mp reads.rest with ⟨first, others, here, rfl, rfl⟩
    have isOf : first.kind = kind := by rw [← reads.kind, Token.kind_spell]
    exact ⟨⟨others, position.nextId⟩, first, here, isOf, rfl⟩
  · rintro ⟨after, skips⟩
    exact ⟨_, skips.spell⟩

theorem Numbers.spell {number : Nat} (numbers : Numbers before number after) :
    Numbers (before.spell spelling) number (after.spell spelling) := by
  constructor
  · rw [Position.spell, Position.spell, numbers.rest]
  · exact numbers.id
  · exact numbers.nextId

theorem ReadsName.spell {name : Name} (reads : ReadsName before name after) :
    ReadsName (before.spell spelling) (name.spell spelling) (after.spell spelling) := by
  cases reads with
  | name word =>
    rename_i token
    have read : ReadsName (before.spell spelling)
        ⟨(token.spell spelling).lexeme, (token.spell spelling).line⟩ (after.spell spelling) :=
      .name word.spell
    rw [Token.line_spell, Token.lexeme_spell spelling word.kind] at read
    exact read

theorem ReadsVariable.spell {target : Reference} (reads : ReadsVariable before target after) :
    ReadsVariable (before.spell spelling) (target.spell spelling) (after.spell spelling) := by
  cases reads with
  | reference name numbers => exact .reference name.spell numbers.spell

theorem Names.spell {names : List Name} (derives : Names before names after) :
    Names (before.spell spelling) (names.map (Name.spell spelling)) (after.spell spelling) := by
  induction derives with
  | last name => exact .last name.spell
  | more name comma _ induction => exact .more name.spell comma.spell induction

theorem Parameters.spell {names : List Name} (derives : Parameters before names after) :
    Parameters (before.spell spelling) (names.map (Name.spell spelling))
      (after.spell spelling) := by
  cases derives with
  | none => exact .none
  | some names few => exact .some names.spell (by rwa [List.length_map])

theorem Superclass.spell {target : Option Reference} (derives : Superclass before target after) :
    Superclass (before.spell spelling) (target.map (Reference.spell spelling))
      (after.spell spelling) := by
  cases derives with
  | none => exact .none
  | some sign name => exact .some sign.spell name.spell

theorem spell_join (connective : Connective) (line : Nat) (left right : Expr) :
    (connective.join line left right).spell spelling =
      connective.join (spelling.line line) (left.spell spelling) (right.spell spelling) := by
  cases connective <;> rfl

theorem spell_forLoop (initial : Option Stmt) (condition increment : Option Expr) (body : Stmt) :
    (forLoop initial condition increment body).spell spelling =
      forLoop (initial.map (Stmt.spell spelling)) (condition.map (Expr.spell spelling))
        (increment.map (Expr.spell spelling)) (body.spell spelling) := by
  cases initial <;> cases condition <;> cases increment <;> rfl

theorem length_spellAll (expressions : List Expr) :
    (Expr.spellAll spelling expressions).length = expressions.length := by
  induction expressions with
  | nil => rfl
  | cons first others induction => exact congrArg (· + 1) induction

mutual

theorem Expression.spell {before : Position} {tree : Expr} {after : Position} :
    Expression before tree after →
      Expression (before.spell spelling) (tree.spell spelling) (after.spell spelling)
  | .operation inner => .operation inner.spell
  | .assign target sign value => .assign target.spell sign.spell value.spell
  | .set object dot name sign value =>
    .set object.spell dot.spell name.spell sign.spell value.spell

theorem Operation.spell {level : Level} {before : Position} {tree : Expr} {after : Position} :
    Operation level before tree after →
      Operation level (before.spell spelling) (tree.spell spelling) (after.spell spelling)
  | .operand inner => .operand inner.spell
  | .join left joins sign right => by
    rw [spell_join, ← Token.line_spell]
    exact .join left.spell joins sign.spell right.spell

theorem Operand.spell {level : Level} {before : Position} {tree : Expr} {after : Position} :
    Operand level before tree after →
      Operand level (before.spell spelling) (tree.spell spelling) (after.spell spelling)
  | .tighter tightens inner => .tighter tightens inner.spell
  | .unary inner => .unary inner.spell

theorem Unary.spell {before : Position} {tree : Expr} {after : Position} :
    Unary before tree after →
      Unary (before.spell spelling) (tree.spell spelling) (after.spell spelling)
  | .operator precedes sign operand => by
    rw [Expr.spell, ← Token.line_spell]
    exact .operator precedes sign.spell operand.spell
  | .call inner => .call inner.spell

theorem Call.spell {before : Position} {tree : Expr} {after : Position} :
    Call before tree after →
      Call (before.spell spelling) (tree.spell spelling) (after.spell spelling)
  | .primary inner => .primary inner.spell
  | .call callee opening arguments closing => by
    rw [Expr.spell, ← Token.line_spell]
    exact .call callee.spell opening.spell arguments.spell closing.spell
  | .get object dot name => .get object.spell dot.spell name.spell

theorem Arguments.spell {before : Position} {trees : List Expr} {after : Position} :
    Arguments before trees after →
      Arguments (before.spell spelling) (Expr.spellAll spelling trees) (after.spell spelling)
  | .none => .none
  | .some values few => .some values.spell (by rwa [length_spellAll])

theorem Values.spell {before : Position} {trees : List Expr} {after : Position} :
    Values before trees after →
      Values (before.spell spelling) (Expr.spellAll spelling trees) (after.spell spelling)
  | .last value => .last value.spell
  | .more value comma others => .more value.spell comma.spell others.spell

theorem Primary.spell {before : Position} {tree : Expr} {after : Position} :
    Primary before tree after →
      Primary (before.spell spelling) (tree.spell spelling) (after.spell spelling)
  | .literal denotes word => .literal denotes word.spell
  | .read name => .read name.spell
  | .this word numbers => by
    rw [Expr.spell, ← Token.line_spell]
    exact .this word.spell numbers.spell
  | .super word dot name numbers => by
    rw [Expr.spell, ← Token.line_spell]
    exact .super word.spell dot.spell name.spell numbers.spell
  | .group opening inner closing => .group opening.spell inner.spell closing.spell
  | .function word definition => .function word.spell definition.spell

theorem Definition.spell {before : Position} {tree : Function} {after : Position} :
    Definition before tree after →
      Definition (before.spell spelling) (tree.spell spelling) (after.spell spelling)
  | .function opening parameters closing body =>
    .function opening.spell parameters.spell closing.spell body.spell

theorem NamedDefinition.spell {before : Position} {tree : NamedFunction} {after : Position} :
    NamedDefinition before tree after →
      NamedDefinition (before.spell spelling) (tree.spell spelling) (after.spell spelling)
  | .function name definition => .function name.spell definition.spell

theorem Block.spell {breakable : Bool} {before : Position} {trees : List Stmt}
    {after : Position} : Block breakable before trees after →
      Block breakable (before.spell spelling) (Stmt.spellAll spelling trees)
        (after.spell spelling)
  | .block opening inner closing => .block opening.spell inner.spell closing.spell

theorem Declarations.spell {breakable : Bool} {before : Position} {trees : List Stmt}
    {after : Position} : Declarations breakable before trees after →
      Declarations breakable (before.spell spelling) (Stmt.spellAll spelling trees)
        (after.spell spelling)
  | .nil => .nil
  | .cons first others => .cons first.spell others.spell

theorem Declaration.spell {breakable : Bool} {before : Position} {tree : Stmt}
    {after : Position} : Declaration breakable before tree after →
      Declaration breakable (before.spell spelling) (tree.spell spelling) (after.spell spelling)
  | .classDecl word name superclass opening inner closing =>
    .classDecl word.spell name.spell superclass.spell opening.spell inner.spell closing.spell
  | .funDecl word (.function name definition) =>
    .funDecl word.spell (.function name.spell definition.spell)
  | .varDecl inner => .varDecl inner.spell
  | .statement inner => .statement inner.spell

theorem Methods.spell {before : Position} {methods classMethods : List NamedFunction}
    {after : Position} : Methods before methods classMethods after →
      Methods (before.spell spelling) (NamedFunction.spellAll spelling methods)
        (NamedFunction.spellAll spelling classMethods) (after.spell spelling)
  | .nil => .nil
  | .method (.function name definition) others =>
    .method (.function name.spell definition.spell) others.spell
  | .classMethod word (.function name definition) others =>
    .classMethod word.spell (.function name.spell definition.spell) others.spell

theorem Variable.spell {before : Position} {tree : Stmt} {after : Position} :
    Variable before tree after →
      Variable (before.spell spelling) (tree.spell spelling) (after.spell spelling)
  | .bare word name ending => .bare word.spell name.spell ending.spell
  | .initialised word name sign value ending =>
    .initialised word.spell name.spell sign.spell value.spell ending.spell

theorem Statement.spell {breakable : Bool} {before : Position} {tree : Stmt}
    {after : Position} : Statement breakable before tree after →
      Statement breakable (before.spell spelling) (tree.spell spelling) (after.spell spelling)
  | .expression inner => .expression inner.spell
  | .print word value ending => .print word.spell value.spell ending.spell
  | .block inner => .block inner.spell
  | .ifOnly word opening condition closing whenTrue alone =>
    .ifOnly word.spell opening.spell condition.spell closing.spell whenTrue.spell
      fun sees => alone ((Position.sees_spell_iff _).mp sees)
  | .ifElse word opening condition closing whenTrue otherwise whenFalse =>
    .ifElse word.spell opening.spell condition.spell closing.spell whenTrue.spell otherwise.spell
      whenFalse.spell
  | .whileLoop word opening condition closing body =>
    .whileLoop word.spell opening.spell condition.spell closing.spell body.spell
  | .forLoop word opening initial condition separator increment closing body => by
    rw [spell_forLoop]
    exact .forLoop word.spell opening.spell initial.spell condition.spell separator.spell
      increment.spell closing.spell body.spell
  | .breakLoop word ending => by
    rw [Stmt.spell, ← Token.line_spell]
    exact .breakLoop word.spell ending.spell
  | .returnValue word .none ending => by
    rw [Stmt.spell, ← Token.line_spell]
    exact .returnValue word.spell .none ending.spell
  | .returnValue word (.some value) ending => by
    rw [Stmt.spell, ← Token.line_spell]
    exact .returnValue word.spell (.some value.spell) ending.spell

theorem ExpressionStatement.spell {before : Position} {tree : Stmt} {after : Position} :
    ExpressionStatement before tree after →
      ExpressionStatement (before.spell spelling) (tree.spell spelling) (after.spell spelling)
  | .closed value ending => .closed value.spell ending.spell
  | .last value atEnd => .last value.spell (List.map_eq_nil_iff.mpr atEnd)

theorem ForInitial.spell {before : Position} {tree : Option Stmt} {after : Position} :
    ForInitial before tree after →
      ForInitial (before.spell spelling) (tree.map (Stmt.spell spelling)) (after.spell spelling)
  | .none ending => .none ending.spell
  | .varDecl inner => .varDecl inner.spell
  | .expression inner => .expression inner.spell

theorem OptionalExpression.spell {before : Position} {tree : Option Expr} {after : Position} :
    OptionalExpression before tree after →
      OptionalExpression (before.spell spelling) (tree.map (Expr.spell spelling))
        (after.spell spelling)
  | .none => .none
  | .some value => .some value.spell

end

/-- From tokens with other names a tree with these names is derived. -/
theorem Program.spell {trees : List Stmt} {nextId : Nat} (derives : Program before trees nextId) :
    Program (before.spell spelling) (Stmt.spellAll spelling trees) nextId := by
  cases derives with
  | program inner nonempty atEnd =>
    rename_i after
    have stillNonempty : Stmt.spellAll spelling trees ≠ [] := by
      rw [Stmt.spellAll_eq_map, Ne, List.map_eq_nil_iff]
      exact nonempty
    have stillAtEnd : (after.spell spelling).rest = [] := List.map_eq_nil_iff.mpr atEnd
    show Program _ _ (after.spell spelling).nextId
    exact .program inner.spell stillNonempty stillAtEnd

end

/-! ## The names of a tree -/

/-- The names that are left. -/
def Position.names (position : Position) : List Name :=
  position.rest.filterMap Token.name?

/-- The names of a tree are among those of the tokens up to a later place, each of them once. -/
def Spans (before : Position) (mentions : List Mention) (after : Position) : Prop :=
  (mentions.map Mention.name ++ after.names).Subperm before.names

namespace Spans

variable {mentions mentions' : List Mention}

theorem nil (position : Position) : Spans position [] position :=
  List.Subperm.refl _

theorem trans (first : Spans before mentions middle) (second : Spans middle mentions' after) :
    Spans before (mentions ++ mentions') after := by
  rw [Spans, List.map_append, List.append_assoc]
  exact ((List.subperm_append_left _).mpr second).trans first

theorem perm (spans : Spans before mentions after) (same : mentions.Perm mentions') :
    Spans before mentions' after :=
  ((same.symm.map Mention.name).append_right after.names).subperm.trans spans

theorem skip (spans : Spans before mentions middle) (skips : Skips kind middle after) :
    Spans before mentions after := by
  rcases skips with ⟨token, reads⟩
  have fewer : after.names.Sublist middle.names := by
    rw [Position.names, Position.names, reads.rest]
    exact (List.sublist_cons_self token after.rest).filterMap _
  exact (fewer.append_left _).subperm.trans spans

theorem number {number : Nat} (spans : Spans before mentions middle)
    (numbers : Numbers middle number after) : Spans before mentions after := by
  rw [Spans, Position.names, numbers.rest]
  exact spans

end Spans

theorem Skips.spans (skips : Skips kind before after) : Spans before [] after :=
  (Spans.nil before).skip skips

theorem ReadsName.spans {name : Name} (reads : ReadsName before name after) (mention : Mention)
    (isName : mention.name = name) : Spans before [mention] after := by
  cases reads with
  | name word =>
    rename_i token
    have first : token.name? = some ⟨token.lexeme, token.line⟩ := by
      rw [Token.name?, word.kind]
    rw [Spans, Position.names, Position.names, word.rest, List.filterMap_cons_some first,
      List.map_cons, isName]
    exact List.Subperm.refl _

theorem ReadsVariable.spans {target : Reference} (reads : ReadsVariable before target after) :
    Spans before [.use target] after := by
  cases reads with
  | reference name numbers => exact (name.spans _ rfl).number numbers

theorem Names.spans {names : List Name} (derives : Names before names after) :
    Spans before (names.map .parameter) after := by
  induction derives with
  | last name => exact name.spans _ rfl
  | more name comma _ induction => exact (name.spans _ rfl).trans (comma.spans.trans induction)

theorem Parameters.spans {names : List Name} (derives : Parameters before names after) :
    Spans before (names.map .parameter) after := by
  cases derives with
  | none => exact .nil _
  | some names _ => exact names.spans

theorem Superclass.spans {target : Option Reference} (derives : Superclass before target after) :
    Spans before (target.toList.map .use) after := by
  cases derives with
  | none => exact .nil _
  | some sign name => exact sign.spans.trans name.spans

theorem mentions_join (connective : Connective) (line : Nat) (left right : Expr) :
    (connective.join line left right).mentions = left.mentions ++ right.mentions := by
  cases connective <;> rfl

/-- The increment of a `for` loop stands before the body, but in the tree behind it. -/
theorem mentions_forLoop (isLocal : Bool) (initial : Option Stmt)
    (condition increment : Option Expr) (body : Stmt) :
    (Stmt.mentionsAll true initial.toList ++ (Expr.mentionsAll condition.toList ++
      (Expr.mentionsAll increment.toList ++ body.mentions true))).Perm
        ((forLoop initial condition increment body).mentions isLocal) := by
  have tree : (forLoop initial condition increment body).mentions isLocal =
      Stmt.mentionsAll true initial.toList ++ (Expr.mentionsAll condition.toList ++
        (body.mentions true ++ Expr.mentionsAll increment.toList)) := by
    cases initial <;> cases condition <;> cases increment <;>
      simp [forLoop, Stmt.mentions, Stmt.mentionsAll, Expr.mentions, Expr.mentionsAll]
  rw [tree]
  exact (List.perm_append_comm.append_left _).append_left _

mutual

theorem Expression.spans {before : Position} {tree : Expr} {after : Position} :
    Expression before tree after → Spans before tree.mentions after
  | .operation inner => inner.spans
  | .assign target sign value => target.spans.trans (sign.spans.trans value.spans)
  | .set object dot name sign value =>
    object.spans.trans (dot.spans.trans ((name.spans _ rfl).trans (sign.spans.trans value.spans)))

theorem Operation.spans {level : Level} {before : Position} {tree : Expr} {after : Position} :
    Operation level before tree after → Spans before tree.mentions after
  | .operand inner => inner.spans
  | .join left _ sign right => by
    rw [mentions_join]
    exact left.spans.trans (sign.skips.spans.trans right.spans)

theorem Operand.spans {level : Level} {before : Position} {tree : Expr} {after : Position} :
    Operand level before tree after → Spans before tree.mentions after
  | .tighter _ inner => inner.spans
  | .unary inner => inner.spans

theorem Unary.spans {before : Position} {tree : Expr} {after : Position} :
    Unary before tree after → Spans before tree.mentions after
  | .operator _ sign operand => sign.skips.spans.trans operand.spans
  | .call inner => inner.spans

theorem Call.spans {before : Position} {tree : Expr} {after : Position} :
    Call before tree after → Spans before tree.mentions after
  | .primary inner => inner.spans
  | .call callee opening arguments closing =>
    callee.spans.trans (opening.spans.trans (arguments.spans.skip closing.skips))
  | .get object dot name => object.spans.trans (dot.spans.trans (name.spans _ rfl))

theorem Arguments.spans {before : Position} {trees : List Expr} {after : Position} :
    Arguments before trees after → Spans before (Expr.mentionsAll trees) after
  | .none => .nil _
  | .some values _ => values.spans

theorem Values.spans {before : Position} {trees : List Expr} {after : Position} :
    Values before trees after → Spans before (Expr.mentionsAll trees) after
  | .last value => value.spans.trans (.nil _)
  | .more value comma others => value.spans.trans (comma.spans.trans others.spans)

theorem Primary.spans {before : Position} {tree : Expr} {after : Position} :
    Primary before tree after → Spans before tree.mentions after
  | .literal _ word => word.skips.spans
  | .read name => name.spans
  | .this word numbers => word.skips.spans.number numbers
  | .super word dot name numbers =>
    (word.skips.spans.trans (dot.spans.trans (name.spans _ rfl))).number numbers
  | .group opening inner closing => opening.spans.trans (inner.spans.skip closing)
  | .function word definition => word.spans.trans definition.spans

theorem Definition.spans {before : Position} {tree : Function} {after : Position} :
    Definition before tree after → Spans before tree.mentions after
  | .function opening parameters closing body =>
    opening.spans.trans (parameters.spans.trans (closing.spans.trans body.spans))

theorem Block.spans {breakable : Bool} {before : Position} {trees : List Stmt}
    {after : Position} :
    Block breakable before trees after → Spans before (Stmt.mentionsAll true trees) after
  | .block opening inner closing => opening.spans.trans ((inner.spans true).skip closing)

theorem Declarations.spans {breakable : Bool} {before : Position} {trees : List Stmt}
    {after : Position} (isLocal : Bool) :
    Declarations breakable before trees after → Spans before (Stmt.mentionsAll isLocal trees) after
  | .nil => .nil _
  | .cons first others => (first.spans isLocal).trans (others.spans isLocal)

theorem Declaration.spans {breakable : Bool} {before : Position} {tree : Stmt}
    {after : Position} (isLocal : Bool) :
    Declaration breakable before tree after → Spans before (tree.mentions isLocal) after
  | .classDecl word name superclass opening inner closing =>
    word.spans.trans ((name.spans (.label _) rfl).trans
      (superclass.spans.trans (opening.spans.trans (inner.spans.skip closing))))
  | .funDecl word (.function name definition) =>
    word.spans.trans ((name.spans (.label _) rfl).trans definition.spans)
  | .varDecl inner => inner.spans isLocal
  | .statement inner => inner.spans isLocal

theorem Methods.spans {before : Position} {methods classMethods : List NamedFunction}
    {after : Position} : Methods before methods classMethods after →
      Spans before (NamedFunction.mentionsAll methods ++ NamedFunction.mentionsAll classMethods)
        after
  | .nil => .nil _
  | .method (.function name definition) others => by
    rw [NamedFunction.mentionsAll, List.cons_append, List.append_assoc]
    exact (name.spans (.label _) rfl).trans (definition.spans.trans others.spans)
  | .classMethod word (.function name definition) others => by
    have spans := word.spans.trans ((name.spans (.label _) rfl).trans definition.spans)
    exact (spans.trans others.spans).perm (List.perm_append_comm_assoc _ _ _)

theorem Variable.spans {before : Position} {tree : Stmt} {after : Position} (isLocal : Bool) :
    Variable before tree after → Spans before (tree.mentions isLocal) after
  | .bare word name ending => word.spans.trans ((name.spans (.declaration _ _) rfl).skip ending)
  | .initialised word name sign value ending =>
    word.spans.trans ((name.spans (.declaration _ _) rfl).trans
      (sign.spans.trans (value.spans.skip ending)))

theorem Statement.spans {breakable : Bool} {before : Position} {tree : Stmt}
    {after : Position} (isLocal : Bool) :
    Statement breakable before tree after → Spans before (tree.mentions isLocal) after
  | .expression inner => inner.spans isLocal
  | .print word value ending => word.spans.trans (value.spans.skip ending)
  | .block inner => inner.spans
  | .ifOnly word opening condition closing whenTrue _ =>
    word.spans.trans (opening.spans.trans
      (condition.spans.trans (closing.spans.trans (whenTrue.spans isLocal))))
  | .ifElse word opening condition closing whenTrue otherwise whenFalse =>
    word.spans.trans (opening.spans.trans
      (((condition.spans.skip closing).trans ((whenTrue.spans isLocal).skip otherwise)).trans
        (whenFalse.spans isLocal)))
  | .whileLoop word opening condition closing body =>
    word.spans.trans (opening.spans.trans
      (condition.spans.trans (closing.spans.trans (body.spans isLocal))))
  | .forLoop word opening initial condition separator increment closing body => by
    have clauses := initial.spans.trans (condition.spans.trans
      (separator.spans.trans (increment.spans.trans (closing.spans.trans (body.spans true)))))
    exact (word.spans.trans (opening.spans.trans clauses)).perm (mentions_forLoop isLocal _ _ _ _)
  | .breakLoop word ending => word.skips.spans.skip ending
  | .returnValue word .none ending => word.skips.spans.skip ending
  | .returnValue word (.some value) ending => word.skips.spans.trans (value.spans.skip ending)

theorem ExpressionStatement.spans {before : Position} {tree : Stmt} {after : Position}
    (isLocal : Bool) :
    ExpressionStatement before tree after → Spans before (tree.mentions isLocal) after
  | .closed value ending => value.spans.skip ending
  | .last value _ => value.spans

theorem ForInitial.spans {before : Position} {tree : Option Stmt} {after : Position} :
    ForInitial before tree after → Spans before (Stmt.mentionsAll true tree.toList) after
  | .none ending => ending.spans
  | .varDecl inner => (inner.spans true).trans (.nil _)
  | .expression inner => (inner.spans true).trans (.nil _)

theorem OptionalExpression.spans {before : Position} {tree : Option Expr} {after : Position} :
    OptionalExpression before tree after → Spans before (Expr.mentionsAll tree.toList) after
  | .none => .nil _
  | .some value => value.spans.trans (.nil _)

end

/-- The names of a program are those of its tokens, each of them once. -/
theorem Program.spans {trees : List Stmt} {nextId : Nat} (derives : Program before trees nextId) :
    ((Program.mentions trees).map Mention.name).Subperm before.names := by
  cases derives with
  | program inner _ _ =>
    exact (List.sublist_append_left _ _).subperm.trans (inner.spans false)

end Derivation

/-! ## Parsing -/

namespace Grammar

/-- Tokens with other names are read in the same way: the names in the tree are spelt so, too. -/
theorem parse_spell (spelling : Spelling) {firstId : Nat} {tokens : List Token}
    (none : (parse firstId tokens).errors = []) :
    parse firstId (tokens.map (Token.spell spelling)) =
      ⟨Stmt.spellAll spelling (parse firstId tokens).statements, [],
        (parse firstId tokens).nextId⟩ := by
  apply parse_of_program
  have rest : (State.start firstId (tokens.map (Token.spell spelling))).rest =
      (State.start firstId tokens).rest.map (Token.spell spelling) := by
    have goesOn : (fun token : Token => !token.kind.isEnding) ∘ Token.spell spelling =
        fun token => !token.kind.isEnding := by
      funext token
      exact congrArg (!·.isEnding) (token.kind_spell spelling)
    simp only [State.start, List.takeWhile_map, goesOn]
  rw [rest]
  exact (program_of_parse firstId tokens none).spell

end Grammar

end Lox
