import Lox.Proofs.Grammar.Exactness

/-!
# Programs one behind the other

What the grammar derives it derives as well in front of other tokens, with two exceptions: an
`if` without an `else` does not stand in front of an `else`, and an expression statement needs
its semicolon where the input does not end.  No expression ends with a semicolon, so a program
whose last token is one can be followed by another program (`Program.append`).
-/

namespace Lox.Derivation

open Grammar (Connective Level)

variable {before middle after : Position} {kind : Kind} {token : Token} {more : List Token}

/-! ## The last token -/

/-- The last token between two places is no semicolon. -/
def Position.EndsOpen (before after : Position) : Prop :=
  ∃ consumed token, before.rest = consumed ++ token :: after.rest ∧
    token.kind ≠ .symbol .semicolon

theorem Position.EndsOpen.suffix (ends : before.EndsOpen after) : after.rest <:+ before.rest := by
  rcases ends with ⟨consumed, token, same, -⟩
  exact ⟨consumed ++ [token], by rw [same, List.append_assoc]; rfl⟩

theorem Position.EndsOpen.of_suffix (ends : middle.EndsOpen after)
    (suffix : middle.rest <:+ before.rest) : before.EndsOpen after := by
  rcases ends with ⟨consumed, token, same, isOpen⟩
  rcases suffix with ⟨first, whole⟩
  exact ⟨first ++ consumed, token, by rw [← whole, same, List.append_assoc], isOpen⟩

theorem Reads.ends (reads : Reads kind before token after) (isOpen : kind ≠ .symbol .semicolon) :
    before.EndsOpen after :=
  ⟨[], token, reads.rest, reads.kind ▸ isOpen⟩

theorem Reads.suffix (reads : Reads kind before token after) : after.rest <:+ before.rest :=
  ⟨[token], reads.rest.symm⟩

theorem Skips.ends (skips : Skips kind before after) (isOpen : kind ≠ .symbol .semicolon) :
    before.EndsOpen after := by
  rcases skips with ⟨token, reads⟩
  exact reads.ends isOpen

theorem Skips.suffix (skips : Skips kind before after) : after.rest <:+ before.rest := by
  rcases skips with ⟨token, reads⟩
  exact reads.suffix

theorem Numbers.ends {number : Nat} {start : Position} (numbers : Numbers middle number after)
    (ends : start.EndsOpen middle) : start.EndsOpen after := by
  rw [Position.EndsOpen, numbers.rest]
  exact ends

theorem ReadsName.ends {text : Name} (name : ReadsName before text after) :
    before.EndsOpen after := by
  cases name with
  | name word => exact word.ends nofun

theorem ReadsVariable.ends {reference : Reference}
    (read : ReadsVariable before reference after) : before.EndsOpen after := by
  cases read with
  | reference name numbers => exact numbers.ends name.ends

theorem Denotes.isOpen {value : Literal} (denotes : Denotes kind value) :
    kind ≠ .symbol .semicolon := by
  cases denotes <;> exact nofun

theorem Names.suffix {before : Position} {texts : List Name} {after : Position} :
    Names before texts after → after.rest <:+ before.rest
  | .last name => name.ends.suffix
  | .more name comma others => others.suffix.trans (comma.suffix.trans name.ends.suffix)

theorem Parameters.suffix {texts : List Name} (parameters : Parameters before texts after) :
    after.rest <:+ before.rest := by
  cases parameters with
  | none => exact List.suffix_refl _
  | some names => exact names.suffix

theorem Superclass.suffix {target : Option Reference}
    (superclass : Superclass before target after) : after.rest <:+ before.rest := by
  cases superclass with
  | none => exact List.suffix_refl _
  | some sign name => exact name.ends.suffix.trans sign.suffix

mutual

/-- No expression ends with a semicolon. -/
theorem Expression.ends {before : Position} {tree : Expr} {after : Position} :
    Expression before tree after → before.EndsOpen after
  | .operation inner => inner.ends
  | .assign target sign value =>
    value.ends.of_suffix (sign.suffix.trans target.ends.suffix)
  | .set object dot name sign value =>
    value.ends.of_suffix (sign.suffix.trans
      (name.ends.suffix.trans (dot.suffix.trans object.ends.suffix)))

theorem Operation.ends {level : Level} {before : Position} {tree : Expr} {after : Position} :
    Operation level before tree after → before.EndsOpen after
  | .operand inner => inner.ends
  | .join left _ sign right => right.ends.of_suffix (sign.suffix.trans left.ends.suffix)

theorem Operand.ends {level : Level} {before : Position} {tree : Expr} {after : Position} :
    Operand level before tree after → before.EndsOpen after
  | .tighter _ inner => inner.ends
  | .unary inner => inner.ends

theorem Unary.ends {before : Position} {tree : Expr} {after : Position} :
    Unary before tree after → before.EndsOpen after
  | .operator _ sign operand => operand.ends.of_suffix sign.suffix
  | .call inner => inner.ends

theorem Call.ends {before : Position} {tree : Expr} {after : Position} :
    Call before tree after → before.EndsOpen after
  | .primary inner => inner.ends
  | .call callee opening arguments closing =>
    (closing.ends nofun).of_suffix
      (arguments.suffix.trans (opening.suffix.trans callee.ends.suffix))
  | .get object dot name => name.ends.of_suffix (dot.suffix.trans object.ends.suffix)

theorem Arguments.suffix {before : Position} {trees : List Expr} {after : Position} :
    Arguments before trees after → after.rest <:+ before.rest
  | .none => List.suffix_refl _
  | .some values _ => values.ends.suffix

theorem Values.ends {before : Position} {trees : List Expr} {after : Position} :
    Values before trees after → before.EndsOpen after
  | .last value => value.ends
  | .more value comma others => others.ends.of_suffix (comma.suffix.trans value.ends.suffix)

theorem Primary.ends {before : Position} {tree : Expr} {after : Position} :
    Primary before tree after → before.EndsOpen after
  | .literal denotes word => word.ends denotes.isOpen
  | .read name => name.ends
  | .this word numbers => numbers.ends (word.ends nofun)
  | .super word dot name numbers =>
    numbers.ends (name.ends.of_suffix (dot.suffix.trans word.suffix))
  | .group opening inner closing =>
    (closing.ends nofun).of_suffix (inner.ends.suffix.trans opening.suffix)
  | .function word definition => definition.ends.of_suffix word.suffix

theorem Definition.ends {before : Position} {tree : Function} {after : Position} :
    Definition before tree after → before.EndsOpen after
  | .function opening parameters closing body =>
    body.ends.of_suffix (closing.suffix.trans (parameters.suffix.trans opening.suffix))

theorem NamedDefinition.ends {before : Position} {tree : NamedFunction} {after : Position} :
    NamedDefinition before tree after → before.EndsOpen after
  | .function name definition => definition.ends.of_suffix name.ends.suffix

theorem Block.ends {breakable : Bool} {before : Position} {trees : List Stmt}
    {after : Position} : Block breakable before trees after → before.EndsOpen after
  | .block opening inner closing =>
    (closing.ends nofun).of_suffix (inner.suffix.trans opening.suffix)

theorem Declarations.suffix {breakable : Bool} {before : Position} {trees : List Stmt}
    {after : Position} : Declarations breakable before trees after → after.rest <:+ before.rest
  | .nil => List.suffix_refl _
  | .cons first others => others.suffix.trans first.suffix

theorem Declaration.suffix {breakable : Bool} {before : Position} {tree : Stmt}
    {after : Position} : Declaration breakable before tree after → after.rest <:+ before.rest
  | .classDecl word name superclass opening inner closing =>
    closing.suffix.trans (inner.suffix.trans (opening.suffix.trans
      (superclass.suffix.trans (name.ends.suffix.trans word.suffix))))
  | .funDecl word definition => definition.ends.suffix.trans word.suffix
  | .varDecl inner => inner.suffix
  | .statement inner => inner.suffix

theorem Methods.suffix {before : Position} {methods classMethods : List NamedFunction}
    {after : Position} : Methods before methods classMethods after → after.rest <:+ before.rest
  | .nil => List.suffix_refl _
  | .method first others => others.suffix.trans first.ends.suffix
  | .classMethod word definition others =>
    others.suffix.trans (definition.ends.suffix.trans word.suffix)

theorem Variable.suffix {before : Position} {tree : Stmt} {after : Position} :
    Variable before tree after → after.rest <:+ before.rest
  | .bare word name ending => ending.suffix.trans (name.ends.suffix.trans word.suffix)
  | .initialised word name sign value ending =>
    ending.suffix.trans (value.ends.suffix.trans
      (sign.suffix.trans (name.ends.suffix.trans word.suffix)))

theorem Statement.suffix {breakable : Bool} {before : Position} {tree : Stmt}
    {after : Position} : Statement breakable before tree after → after.rest <:+ before.rest
  | .expression inner => inner.suffix
  | .print word value ending => ending.suffix.trans (value.ends.suffix.trans word.suffix)
  | .block inner => inner.ends.suffix
  | .ifOnly word opening condition closing whenTrue _ =>
    whenTrue.suffix.trans (closing.suffix.trans
      (condition.ends.suffix.trans (opening.suffix.trans word.suffix)))
  | .ifElse word opening condition closing whenTrue otherwise whenFalse =>
    whenFalse.suffix.trans (otherwise.suffix.trans (whenTrue.suffix.trans
      (closing.suffix.trans (condition.ends.suffix.trans (opening.suffix.trans word.suffix)))))
  | .whileLoop word opening condition closing body =>
    body.suffix.trans (closing.suffix.trans
      (condition.ends.suffix.trans (opening.suffix.trans word.suffix)))
  | .forLoop word opening initial condition separator increment closing body =>
    body.suffix.trans (closing.suffix.trans (increment.suffix.trans (separator.suffix.trans
      (condition.suffix.trans (initial.suffix.trans (opening.suffix.trans word.suffix))))))
  | .breakLoop word ending => ending.suffix.trans word.suffix
  | .returnValue word value ending => ending.suffix.trans (value.suffix.trans word.suffix)

theorem ExpressionStatement.suffix {before : Position} {tree : Stmt} {after : Position} :
    ExpressionStatement before tree after → after.rest <:+ before.rest
  | .closed value ending => ending.suffix.trans value.ends.suffix
  | .last value _ => value.ends.suffix

theorem ForInitial.suffix {before : Position} {tree : Option Stmt} {after : Position} :
    ForInitial before tree after → after.rest <:+ before.rest
  | .none ending => ending.suffix
  | .varDecl inner => inner.suffix
  | .expression inner => inner.suffix

theorem OptionalExpression.suffix {before : Position} {tree : Option Expr} {after : Position} :
    OptionalExpression before tree after → after.rest <:+ before.rest
  | .none => List.suffix_refl _
  | .some value => value.ends.suffix

end

/-! ## More tokens -/

/-- A position with more tokens behind those that are left. -/
def Position.extend (more : List Token) (position : Position) : Position :=
  ⟨position.rest ++ more, position.nextId⟩

/-- Tokens may follow what ends at a place: if it is at the end, they start with no `else`. -/
structure CanFollow (more : List Token) (before after : Position) : Prop where
  closed : after.rest = [] → ∀ token ∈ before.rest.getLast?, token.kind = .symbol .semicolon
  noElse : after.rest = [] → ∀ nextId, ¬ Position.Sees (.keyword .elseWord) ⟨more, nextId⟩

/-- Where the input goes on anyway any tokens may follow. -/
theorem CanFollow.of_ne_nil (notNil : after.rest ≠ []) : CanFollow more before after :=
  ⟨fun isNil => absurd isNil notNil, fun isNil => absurd isNil notNil⟩

theorem CanFollow.of_suffix (follow : CanFollow more before after)
    (suffix : middle.rest <:+ before.rest) : CanFollow more middle after := by
  refine ⟨?_, follow.noElse⟩
  intro atEnd token isLast
  rcases suffix with ⟨first, whole⟩
  apply follow.closed atEnd token
  rw [← whole, List.getLast?_append, Option.mem_def.mp isLast]
  rfl

/-- What can follow the end of a part can follow each place in it. -/
theorem CanFollow.of_next (follow : CanFollow more before after)
    (suffix : after.rest <:+ middle.rest) : CanFollow more before middle := by
  have atEnd : middle.rest = [] → after.rest = [] := by
    intro isNil
    rw [isNil, List.suffix_nil] at suffix
    exact suffix
  exact ⟨fun isNil => follow.closed (atEnd isNil), fun isNil => follow.noElse (atEnd isNil)⟩

/-- Nothing follows an expression without a semicolon. -/
theorem CanFollow.ne_nil (follow : CanFollow more before after) (ends : before.EndsOpen after) :
    after.rest ≠ [] := by
  rcases ends with ⟨consumed, token, same, isOpen⟩
  intro atEnd
  rw [atEnd] at same
  apply isOpen (follow.closed atEnd token _)
  rw [same, List.getLast?_concat]
  rfl

theorem Skips.rest_ne_nil (skips : Skips kind before after) : before.rest ≠ [] :=
  skips.sees.rest_ne_nil

theorem Position.ne_nil_of_suffix (suffix : after.rest <:+ before.rest) (notNil : after.rest ≠ []) :
    before.rest ≠ [] := by
  intro isNil
  rw [isNil, List.suffix_nil] at suffix
  exact notNil suffix

theorem Reads.extend (reads : Reads kind before token after) :
    Reads kind (before.extend more) token (after.extend more) :=
  ⟨congrArg (· ++ more) reads.rest, reads.kind, reads.nextId⟩

theorem Skips.extend (skips : Skips kind before after) :
    Skips kind (before.extend more) (after.extend more) := by
  rcases skips with ⟨token, reads⟩
  exact ⟨token, reads.extend⟩

theorem Numbers.extend {number : Nat} (numbers : Numbers before number after) :
    Numbers (before.extend more) number (after.extend more) :=
  ⟨congrArg (· ++ more) numbers.rest, numbers.id, numbers.nextId⟩

theorem ReadsName.extend {text : Name} (name : ReadsName before text after) :
    ReadsName (before.extend more) text (after.extend more) := by
  cases name with
  | name word => exact .name word.extend

theorem ReadsVariable.extend {reference : Reference}
    (read : ReadsVariable before reference after) :
    ReadsVariable (before.extend more) reference (after.extend more) := by
  cases read with
  | reference name numbers => exact .reference name.extend numbers.extend

theorem Names.extend {before : Position} {texts : List Name} {after : Position} :
    Names before texts after → Names (before.extend more) texts (after.extend more)
  | .last name => .last name.extend
  | .more name comma others => .more name.extend comma.extend others.extend

theorem Parameters.extend {texts : List Name} (parameters : Parameters before texts after) :
    Parameters (before.extend more) texts (after.extend more) := by
  cases parameters with
  | none => exact .none
  | some names few => exact .some names.extend few

theorem Superclass.extend {target : Option Reference}
    (superclass : Superclass before target after) :
    Superclass (before.extend more) target (after.extend more) := by
  cases superclass with
  | none => exact .none
  | some sign name => exact .some sign.extend name.extend

theorem Position.Sees.of_rest {rest : List Token} {nextId nextId' : Nat}
    (sees : Position.Sees kind ⟨rest, nextId⟩) : Position.Sees kind ⟨rest, nextId'⟩ := by
  rcases sees with ⟨after, token, reads⟩
  exact ⟨⟨after.rest, nextId'⟩, token, reads.rest, reads.kind, rfl⟩

/-- The next token does not change, where there is one. -/
theorem Position.sees_of_extend (notNil : before.rest ≠ [])
    (sees : (before.extend more).Sees kind) : before.Sees kind := by
  rcases before with ⟨_ | ⟨first, rest⟩, nextId⟩
  · exact absurd rfl notNil
  · rcases sees with ⟨after, token, reads⟩
    have same := (List.cons.inj reads.rest).1
    exact ⟨⟨rest, nextId⟩, token, by rw [same], reads.kind, rfl⟩

theorem CanFollow.not_sees_else (follow : CanFollow more before after)
    (alone : ¬ after.Sees (.keyword .elseWord)) :
    ¬ (after.extend more).Sees (.keyword .elseWord) := by
  intro sees
  by_cases atEnd : after.rest = []
  · rw [Position.extend, atEnd] at sees
    exact follow.noElse atEnd after.nextId sees
  · exact alone (Position.sees_of_extend atEnd sees)

mutual

theorem Expression.extend {before : Position} {tree : Expr} {after : Position} :
    Expression before tree after → Expression (before.extend more) tree (after.extend more)
  | .operation inner => .operation inner.extend
  | .assign target sign value => .assign target.extend sign.extend value.extend
  | .set object dot name sign value =>
    .set object.extend dot.extend name.extend sign.extend value.extend

theorem Operation.extend {level : Level} {before : Position} {tree : Expr} {after : Position} :
    Operation level before tree after →
      Operation level (before.extend more) tree (after.extend more)
  | .operand inner => .operand inner.extend
  | .join left joins sign right => .join left.extend joins sign.extend right.extend

theorem Operand.extend {level : Level} {before : Position} {tree : Expr} {after : Position} :
    Operand level before tree after → Operand level (before.extend more) tree (after.extend more)
  | .tighter tightens inner => .tighter tightens inner.extend
  | .unary inner => .unary inner.extend

theorem Unary.extend {before : Position} {tree : Expr} {after : Position} :
    Unary before tree after → Unary (before.extend more) tree (after.extend more)
  | .operator precedes sign operand => .operator precedes sign.extend operand.extend
  | .call inner => .call inner.extend

theorem Call.extend {before : Position} {tree : Expr} {after : Position} :
    Call before tree after → Call (before.extend more) tree (after.extend more)
  | .primary inner => .primary inner.extend
  | .call callee opening arguments closing =>
    .call callee.extend opening.extend arguments.extend closing.extend
  | .get object dot name => .get object.extend dot.extend name.extend

theorem Arguments.extend {before : Position} {trees : List Expr} {after : Position} :
    Arguments before trees after → Arguments (before.extend more) trees (after.extend more)
  | .none => .none
  | .some values few => .some values.extend few

theorem Values.extend {before : Position} {trees : List Expr} {after : Position} :
    Values before trees after → Values (before.extend more) trees (after.extend more)
  | .last value => .last value.extend
  | .more value comma others => .more value.extend comma.extend others.extend

theorem Primary.extend {before : Position} {tree : Expr} {after : Position} :
    Primary before tree after → Primary (before.extend more) tree (after.extend more)
  | .literal denotes word => .literal denotes word.extend
  | .read name => .read name.extend
  | .this word numbers => .this word.extend numbers.extend
  | .super word dot name numbers => .super word.extend dot.extend name.extend numbers.extend
  | .group opening inner closing => .group opening.extend inner.extend closing.extend
  | .function word definition => .function word.extend definition.extend

theorem Definition.extend {before : Position} {tree : Function} {after : Position} :
    Definition before tree after → Definition (before.extend more) tree (after.extend more)
  | .function opening parameters closing body =>
    .function opening.extend parameters.extend closing.extend body.extend

theorem NamedDefinition.extend {before : Position} {tree : NamedFunction} {after : Position} :
    NamedDefinition before tree after →
      NamedDefinition (before.extend more) tree (after.extend more)
  | .function name definition => .function name.extend definition.extend

theorem Block.extend {breakable : Bool} {before : Position} {trees : List Stmt}
    {after : Position} :
    Block breakable before trees after →
      Block breakable (before.extend more) trees (after.extend more)
  | .block opening inner closing =>
    .block opening.extend (inner.extend (.of_ne_nil closing.rest_ne_nil)) closing.extend

theorem Declarations.extend {breakable : Bool} {before : Position} {trees : List Stmt}
    {after : Position} : Declarations breakable before trees after → CanFollow more before after →
      Declarations breakable (before.extend more) trees (after.extend more)
  | .nil, _ => .nil
  | .cons first others, follow =>
    .cons (first.extend (follow.of_next others.suffix))
      (others.extend (follow.of_suffix first.suffix))

theorem Declaration.extend {breakable : Bool} {before : Position} {tree : Stmt}
    {after : Position} : Declaration breakable before tree after → CanFollow more before after →
      Declaration breakable (before.extend more) tree (after.extend more)
  | .classDecl word name superclass opening inner closing, _ =>
    .classDecl word.extend name.extend superclass.extend opening.extend inner.extend closing.extend
  | .funDecl word definition, _ => .funDecl word.extend definition.extend
  | .varDecl inner, _ => .varDecl inner.extend
  | .statement inner, follow => .statement (inner.extend follow)

theorem Methods.extend {before : Position} {methods classMethods : List NamedFunction}
    {after : Position} : Methods before methods classMethods after →
      Methods (before.extend more) methods classMethods (after.extend more)
  | .nil => .nil
  | .method first others => .method first.extend others.extend
  | .classMethod word definition others =>
    .classMethod word.extend definition.extend others.extend

theorem Variable.extend {before : Position} {tree : Stmt} {after : Position} :
    Variable before tree after → Variable (before.extend more) tree (after.extend more)
  | .bare word name ending => .bare word.extend name.extend ending.extend
  | .initialised word name sign value ending =>
    .initialised word.extend name.extend sign.extend value.extend ending.extend

theorem Statement.extend {breakable : Bool} {before : Position} {tree : Stmt}
    {after : Position} : Statement breakable before tree after → CanFollow more before after →
      Statement breakable (before.extend more) tree (after.extend more)
  | .expression inner, follow => .expression (inner.extend follow)
  | .print word value ending, _ => .print word.extend value.extend ending.extend
  | .block inner, _ => .block inner.extend
  | .ifOnly word opening condition closing whenTrue alone, follow =>
    have suffix := closing.suffix.trans
      (condition.ends.suffix.trans (opening.suffix.trans word.suffix))
    .ifOnly word.extend opening.extend condition.extend closing.extend
      (whenTrue.extend (follow.of_suffix suffix)) (follow.not_sees_else alone)
  | .ifElse word opening condition closing whenTrue otherwise whenFalse, follow =>
    have suffix := otherwise.suffix.trans (whenTrue.suffix.trans (closing.suffix.trans
      (condition.ends.suffix.trans (opening.suffix.trans word.suffix))))
    .ifElse word.extend opening.extend condition.extend closing.extend
      (whenTrue.extend (.of_ne_nil otherwise.rest_ne_nil)) otherwise.extend
      (whenFalse.extend (follow.of_suffix suffix))
  | .whileLoop word opening condition closing body, follow =>
    have suffix := closing.suffix.trans
      (condition.ends.suffix.trans (opening.suffix.trans word.suffix))
    .whileLoop word.extend opening.extend condition.extend closing.extend
      (body.extend (follow.of_suffix suffix))
  | .forLoop word opening initial condition separator increment closing body, follow =>
    have suffix := closing.suffix.trans (increment.suffix.trans (separator.suffix.trans
      (condition.suffix.trans (initial.suffix.trans (opening.suffix.trans word.suffix)))))
    have goesOn := Position.ne_nil_of_suffix condition.suffix separator.rest_ne_nil
    .forLoop word.extend opening.extend (initial.extend (.of_ne_nil goesOn)) condition.extend
      separator.extend increment.extend closing.extend (body.extend (follow.of_suffix suffix))
  | .breakLoop word ending, _ => .breakLoop word.extend ending.extend
  | .returnValue word value ending, _ => .returnValue word.extend value.extend ending.extend

theorem ExpressionStatement.extend {before : Position} {tree : Stmt} {after : Position} :
    ExpressionStatement before tree after → CanFollow more before after →
      ExpressionStatement (before.extend more) tree (after.extend more)
  | .closed value ending, _ => .closed value.extend ending.extend
  | .last value atEnd, follow => absurd atEnd (follow.ne_nil value.ends)

theorem ForInitial.extend {before : Position} {tree : Option Stmt} {after : Position} :
    ForInitial before tree after → CanFollow more before after →
      ForInitial (before.extend more) tree (after.extend more)
  | .none ending, _ => .none ending.extend
  | .varDecl inner, _ => .varDecl inner.extend
  | .expression inner, follow => .expression (inner.extend follow)

theorem OptionalExpression.extend {before : Position} {tree : Option Expr} {after : Position} :
    OptionalExpression before tree after →
      OptionalExpression (before.extend more) tree (after.extend more)
  | .none => .none
  | .some value => .some value.extend

end

/-! ## Programs -/

/-- No declaration starts with `else`. -/
theorem Declaration.not_else {breakable : Bool} {tree : Stmt}
    (declaration : Declaration breakable before tree after) :
    ¬ before.Sees (.keyword .elseWord) := by
  cases declaration with
  | classDecl word => exact word.sees.not_sees nofun
  | funDecl word => exact word.sees.not_sees nofun
  | varDecl inner => exact inner.sees.not_sees nofun
  | statement inner =>
    cases inner with
    | expression inner => exact inner.begins.not_sees (not_starts_word (by decide))
    | block inner => exact inner.sees.not_sees nofun
    | print word => exact word.sees.not_sees nofun
    | ifOnly word => exact word.sees.not_sees nofun
    | ifElse word => exact word.sees.not_sees nofun
    | whileLoop word => exact word.sees.not_sees nofun
    | forLoop word => exact word.sees.not_sees nofun
    | breakLoop word => exact word.skips.sees.not_sees nofun
    | returnValue word => exact word.skips.sees.not_sees nofun

theorem Declarations.append {breakable : Bool} {before : Position} {trees others : List Stmt}
    {middle after : Position} : Declarations breakable before trees middle →
      Declarations breakable middle others after →
        Declarations breakable before (trees ++ others) after
  | .nil, second => second
  | .cons first rest, second => .cons first (rest.append second)

/-- All tokens belong to a program. -/
theorem Program.declarations {trees : List Stmt} {nextId : Nat}
    (program : Program before trees nextId) :
    Declarations false before trees ⟨[], nextId⟩ ∧ trees ≠ [] := by
  cases program with
  | program inner nonempty atEnd =>
    rw [← atEnd]
    exact ⟨inner, nonempty⟩

/-- A program follows another one that ends with a semicolon. -/
theorem Program.append {body : List Token} {firstId nextId lastId : Nat}
    {trees others : List Stmt} (first : Program ⟨body, firstId⟩ trees nextId)
    (second : Program ⟨more, nextId⟩ others lastId)
    (closed : ∀ token ∈ body.getLast?, token.kind = .symbol .semicolon) :
    Program ⟨body ++ more, firstId⟩ (trees ++ others) lastId := by
  rcases first.declarations with ⟨inner, nonempty⟩
  rcases second.declarations with ⟨inner', nonempty'⟩
  have notElse : ¬ Position.Sees (.keyword .elseWord) ⟨more, nextId⟩ := by
    cases inner' with
    | nil => exact absurd rfl nonempty'
    | cons first others => exact first.not_else
  have follow : CanFollow more ⟨body, firstId⟩ ⟨[], nextId⟩ :=
    ⟨fun _ => closed, fun _ _ sees => notElse sees.of_rest⟩
  have extended : Declarations false ⟨body ++ more, firstId⟩ trees ⟨more, nextId⟩ :=
    inner.extend follow
  exact .program (extended.append inner') (List.append_ne_nil_of_left_ne_nil nonempty _) rfl

end Lox.Derivation

namespace Lox.Grammar

/-- Tokens in front of the end of the input are read first. -/
theorem State.rest_start_append {body : List Token} (only : ∀ token ∈ body, ¬ token.kind.isEnding)
    (firstId firstId' : Nat) (tokens : List Token) :
    (State.start firstId (body ++ tokens)).rest = body ++ (State.start firstId' tokens).rest := by
  have goesOn : ∀ token ∈ body, (!token.kind.isEnding) = true := by
    intro token isIn
    simp [only token isIn]
  exact List.takeWhile_append_of_pos goesOn

/-- Two programs are read one after the other, if the first one ends with a semicolon. -/
theorem parse_append {firstId : Nat} {body tokens : List Token} {ending : Token}
    (last : ending.kind.isEnding) (only : ∀ token ∈ body, ¬ token.kind.isEnding)
    (closed : ∀ token ∈ body.getLast?, token.kind = .symbol .semicolon)
    (first : (parse firstId (body ++ [ending])).errors = [])
    (second : (parse (parse firstId (body ++ [ending])).nextId tokens).errors = []) :
    parse firstId (body ++ tokens) =
      ⟨(parse firstId (body ++ [ending])).statements ++
          (parse (parse firstId (body ++ [ending])).nextId tokens).statements, [],
        (parse (parse firstId (body ++ [ending])).nextId tokens).nextId⟩ := by
  have program := program_of_parse firstId _ first
  have program' := program_of_parse _ _ second
  rw [rest_start firstId last only] at program
  apply parse_of_program
  rw [State.rest_start_append only firstId _ tokens]
  exact program.append program' closed

end Lox.Grammar
