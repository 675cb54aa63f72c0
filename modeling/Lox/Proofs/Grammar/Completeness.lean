import Lox.Proofs.Grammar.Progress

/-!
# What is derived is read

The rules read what the grammar derives, without any fault.  Operations and calls are
derived with their last part outermost but read from the left, so for them it is said what
reading goes on with behind the part that is derived: `Operation.finds` and `Call.finds`.

From this, `Soundness` and `Progress`, `Exactness` concludes that to read a program without faults
is to derive it.
-/

namespace Lox

open Grammar

/-! ## What may follow an expression -/

namespace Derivation

/-- How tight the operators of a level are. -/
def tightness : Level → Nat
  | .or => 2
  | .and => 3
  | .equality => 4
  | .comparison => 5
  | .term => 6
  | .factor => 7

/-- How tight a token binds that goes on with an expression; others do not bind at all. -/
def binding : Kind → Nat
  | .symbol .leftParen => 8
  | .symbol .dot => 8
  | .symbol .equal => 1
  | kind =>
    match Connective.ofKind? kind with
    | some connective => tightness connective.level
    | none => 0

/-- The next token does not bind so tight. -/
def Position.Loosens (bound : Nat) (position : Position) : Prop :=
  ∀ kind, position.Sees kind → binding kind < bound

variable {before middle after position : Position} {kind : Kind} {level next : Level}
  {connective : Connective} {tree : Expr} {bound bound' : Nat} {breakable : Bool}

theorem Position.Sees.loosens (sees : position.Sees kind) (looser : binding kind < bound) :
    position.Loosens bound := by
  intro other sees'
  rw [← sees.eq sees']
  exact looser

theorem Position.Loosens.mono (loosens : position.Loosens bound) (more : bound ≤ bound') :
    position.Loosens bound' :=
  fun kind sees => Nat.lt_of_lt_of_le (loosens kind sees) more

theorem Position.loosens_of_atEnd (atEnd : position.rest = []) : position.Loosens bound :=
  fun _ sees => absurd atEnd sees.rest_ne_nil

theorem Joins.binding_eq (joins : Joins level kind connective) : binding kind = tightness level := by
  cases joins <;> rfl

theorem Joins.ofKind?_eq (joins : Joins level kind connective) :
    Connective.ofKind? kind = some connective ∧ connective.level = level := by
  cases joins <;> exact ⟨rfl, rfl⟩

theorem Tightens.tightness_eq (tightens : Tightens level next) :
    tightness next = tightness level + 1 := by
  cases tightens <;> rfl

theorem Tightens.tighter?_eq (tightens : Tightens level next) : level.tighter? = some next := by
  cases tightens <;> rfl

theorem Precedes.unaryOp?_eq {op : UnaryOp} (precedes : Precedes kind op) :
    unaryOp? kind = some op := by
  cases precedes <;> rfl

theorem tightness_bounds (level : Level) : 2 ≤ tightness level ∧ tightness level ≤ 7 := by
  cases level <;> decide

/-! ## What an expression starts with -/

/-- The kinds of tokens that an expression may start with. -/
inductive Starts : Kind → Prop where
  | operator {kind : Kind} {op : UnaryOp} (precedes : Precedes kind op) : Starts kind
  | literal {kind : Kind} {value : Literal} (denotes : Denotes kind value) : Starts kind
  | name : Starts .identifier
  | this : Starts (.keyword .thisWord)
  | super : Starts (.keyword .superWord)
  | group : Starts (.symbol .leftParen)
  | function : Starts (.keyword .funWord)

/-- An expression may start here; a function in it has no name. -/
structure Position.Begins (position : Position) : Prop where
  starts : ∃ kind, Starts kind ∧ position.Sees kind
  function : ∀ next, Skips (.keyword .funWord) position next → next.Sees (.symbol .leftParen)

/-- Only one position comes behind the next token. -/
theorem Skips.eq {kind' : Kind} {after' : Position} (skips : Skips kind before after)
    (skips' : Skips kind' before after') : after = after' := by
  rcases skips with ⟨token, here, -, nextId⟩
  rcases skips' with ⟨token', here', -, nextId'⟩
  rcases after with ⟨rest, id⟩
  rcases after' with ⟨rest', id'⟩
  rw [here] at here'
  cases here'
  cases nextId
  cases nextId'
  rfl

theorem Position.Sees.begins (sees : position.Sees kind) (starts : Starts kind)
    (different : kind ≠ .keyword .funWord) : position.Begins := by
  constructor
  · exact ⟨kind, starts, sees⟩
  · exact fun next word => absurd (sees.eq word.sees) different

theorem Denotes.ne_fun {value : Literal} (denotes : Denotes kind value) :
    kind ≠ .keyword .funWord := by
  cases denotes <;> exact nofun

theorem Precedes.ne_fun {op : UnaryOp} (precedes : Precedes kind op) :
    kind ≠ .keyword .funWord := by
  cases precedes <;> exact nofun

theorem Precedes.ne_name {op : UnaryOp} (precedes : Precedes kind op) : kind ≠ .identifier := by
  cases precedes <;> exact nofun

theorem Definition.sees {tree : Function} (definition : Definition before tree after) :
    before.Sees (.symbol .leftParen) := by
  cases definition with
  | function opening => exact opening.sees

theorem Primary.begins (primary : Primary before tree after) : before.Begins := by
  cases primary with
  | literal denotes word => exact word.skips.sees.begins (.literal denotes) denotes.ne_fun
  | read name => exact name.sees.begins .name nofun
  | this word => exact word.skips.sees.begins .this nofun
  | super word => exact word.skips.sees.begins .super nofun
  | group opening => exact opening.sees.begins .group nofun
  | function word definition =>
    constructor
    · exact ⟨_, .function, word.sees⟩
    · intro next word'
      rw [← word.eq word']
      exact definition.sees

theorem Call.begins {before : Position} {tree : Expr} {after : Position} :
    Call before tree after → before.Begins
  | .primary inner => inner.begins
  | .call callee _ _ _ => callee.begins
  | .get object _ _ => object.begins

theorem Unary.begins (unary : Unary before tree after) : before.Begins := by
  cases unary with
  | operator precedes sign => exact sign.skips.sees.begins (.operator precedes) precedes.ne_fun
  | call inner => exact inner.begins

mutual

theorem Operation.begins {level : Level} {before : Position} {tree : Expr} {after : Position} :
    Operation level before tree after → before.Begins
  | .operand inner => inner.begins
  | .join left _ _ _ => left.begins

theorem Operand.begins {level : Level} {before : Position} {tree : Expr} {after : Position} :
    Operand level before tree after → before.Begins
  | .tighter _ inner => inner.begins
  | .unary inner => inner.begins

end

theorem Expression.begins (expression : Expression before tree after) : before.Begins := by
  cases expression with
  | operation inner => exact inner.begins
  | assign target => exact target.sees.begins .name nofun
  | set object => exact object.begins

theorem ExpressionStatement.begins {tree : Stmt}
    (statement : ExpressionStatement before tree after) : before.Begins := by
  cases statement with
  | closed value => exact value.begins
  | last value => exact value.begins

theorem Position.Begins.not_sees (begins : position.Begins) (never : ¬ Starts kind) :
    ¬ position.Sees kind := by
  rcases begins.starts with ⟨other, starts, sees⟩
  intro sees'
  rw [sees.eq sees'] at starts
  exact never starts

theorem Position.Begins.rest_ne_nil (begins : position.Begins) : position.rest ≠ [] := by
  rcases begins.starts with ⟨kind, -, sees⟩
  exact sees.rest_ne_nil

/-- Of the punctuation, operators and an opening parenthesis may start an expression. -/
theorem not_starts_sign {sign : Symbol}
    (isNone : sign ∉ [Symbol.bang, .minus, .leftParen]) : ¬ Starts (.symbol sign) := by
  rintro (⟨⟨⟩⟩ | ⟨⟨⟩⟩) <;> simp at isNone

/-- Words for values and functions may start an expression. -/
theorem not_starts_word {word : Keyword}
    (isNone : word ∉ [Keyword.nilWord, .trueWord, .falseWord, .thisWord, .superWord, .funWord]) :
    ¬ Starts (.keyword word) := by
  rintro (⟨⟨⟩⟩ | ⟨⟨⟩⟩) <;> simp at isNone

end Derivation

namespace Grammar

open Lox.Derivation

variable {α β : Type} {before middle after : Position} {kind : Kind} {token : Token}

/-! ## Rules that find a part -/

/-- A rule reads this part between two positions without any fault, unless its bound is reached. -/
def Rule.Finds (rule : Rule α) (before : Position) (part : α) (after : Position) : Prop :=
  ∀ state : State, state.ending.kind.isEnding → state.position = before → rule.Ends state
    (fun found last => found = part ∧ last.position = after ∧ last.errors = state.errors ∧
      last.ending = state.ending)
    fun stop _ => stop = .exhausted

namespace Rule.Finds

variable {rule : Rule α} {next : α → Rule β} {part : α} {last : β}

theorem bind (finds : rule.Finds before part middle) (rest : (next part).Finds middle last after) :
    (rule >>= next).Finds before last after := by
  intro state isEnding here
  apply (finds state isEnding here).seq
  · rintro _ then_ ⟨rfl, here', errors, ending⟩
    apply (rest then_ (ending ▸ isEnding) here').imp
    · rintro _ final ⟨rfl, here'', errors', ending'⟩
      exact ⟨rfl, here'', errors'.trans errors, ending'.trans ending⟩
    · exact fun _ _ exhausted => exhausted
  · exact fun _ _ exhausted => exhausted

theorem pure (part : α) (position : Position) :
    (Pure.pure part : Rule α).Finds position part position :=
  fun _ _ here => ⟨rfl, here, rfl, rfl⟩

theorem exhausted : (throw .exhausted : Rule α).Finds before part after :=
  fun _ _ _ => rfl

theorem recovering (finds : rule.Finds before part after) :
    (Grammar.recovering rule).Finds before (some part) after := by
  intro state isEnding here
  apply ends_recovering
  apply (finds state isEnding here).imp
  · rintro _ last ⟨rfl, unchanged⟩
    exact ⟨rfl, unchanged⟩
  · rintro _ _ rfl
    exact rfl

end Rule.Finds

/-! ## Single tokens -/

theorem finds_peek {next : Token → Rule β} {part : β}
    (continues : ∀ token, (before.rest.head? = some token ∨
      before.rest = [] ∧ token.kind.isEnding) → (next token).Finds before part after) :
    (peek >>= next).Finds before part after := by
  rintro state isEnding rfl
  apply Rule.Ends.bind
  apply ends_peek
  apply continues _ _ state isEnding rfl
  rw [State.next]
  show state.rest.head? = _ ∨ state.rest = [] ∧ _
  cases state.rest with
  | nil => exact .inr ⟨rfl, isEnding⟩
  | cons token rest => exact .inl rfl

/-- Looking at the next token, which is known. -/
theorem finds_peekAt {next : Token → Rule β} {part : β} (reads : Reads kind before token middle)
    (continues : token.kind = kind → (next token).Finds before part after) :
    (peek >>= next).Finds before part after := by
  apply finds_peek
  rintro other (here | ⟨none, -⟩)
  · rw [reads.rest, List.head?_cons] at here
    cases here
    exact continues reads.kind
  · rw [reads.rest] at none
    cases none

theorem finds_skip (reads : Reads kind before token after) : skip.Finds before () after := by
  rintro state - rfl
  apply ends_skip
  refine ⟨rfl, ?_, rfl, rfl⟩
  have here : state.rest = token :: after.rest := reads.rest
  have next : after.nextId = state.nextId := reads.nextId
  rw [State.position, here, List.tail_cons, ← next]

theorem finds_freshId {id : Nat} (numbers : Numbers before id after) :
    freshId.Finds before id after := by
  rintro state - rfl
  rcases numbers with ⟨rest, rfl, nextId⟩
  apply ends_freshId
  refine ⟨rfl, ?_, rfl, rfl⟩
  rcases after with ⟨rest', nextId'⟩
  cases rest
  cases nextId
  rfl

theorem head?_of_not_sees {kind : Kind} (single : kind.IsSingle) (position : Position)
    (absent : ¬ position.Sees kind) : position.rest.head?.any (·.kind.same kind) = false := by
  rcases position with ⟨_ | ⟨token, rest⟩, nextId⟩
  · rfl
  · rw [List.head?_cons, Option.any_some, Bool.eq_false_iff]
    intro same
    exact absent ⟨⟨rest, nextId⟩, token, rfl, (Kind.same_iff kind single _).mp same, rfl⟩

theorem finds_sees (kind : Kind) (single : kind.IsSingle) (position : Position)
    (absent : ¬ position.Sees kind) : (sees kind).Finds position false position := by
  rintro state - rfl
  apply ends_sees
  exact ⟨head?_of_not_sees single _ absent, rfl, rfl, rfl⟩

theorem finds_seen (skips : Skips kind before after) : (sees kind).Finds before true before := by
  rintro state - rfl
  rcases skips with ⟨token, reads⟩
  have here : state.rest = token :: after.rest := reads.rest
  apply ends_sees
  refine ⟨?_, rfl, rfl, rfl⟩
  rw [here, List.head?_cons, Option.any_some, reads.kind, Kind.same_self]

theorem finds_atEnd (position : Position) : atEnd.Finds position position.rest.isEmpty position := by
  rintro state - rfl
  exact ends_atEnd ⟨rfl, rfl, rfl, rfl⟩

theorem finds_accept (reads : Reads kind before token after) :
    (accept kind).Finds before (some token) after := by
  rintro state - rfl
  have here : state.rest = token :: after.rest := reads.rest
  have next : after.nextId = state.nextId := reads.nextId
  apply ends_accept
  · intro other rest here' _
    rw [here] at here'
    cases here'
    refine ⟨rfl, ?_, rfl, rfl⟩
    rw [State.position, ← next]
  · intro missing
    rw [here, List.head?_cons, Option.any_some, reads.kind, Kind.same_self] at missing
    cases missing

theorem finds_noAccept (kind : Kind) (single : kind.IsSingle) (absent : ¬ before.Sees kind) :
    (accept kind).Finds before none before := by
  rintro state - rfl
  have missing := head?_of_not_sees single _ absent
  apply ends_accept
  · intro token rest here same
    have : state.position.rest = token :: rest := here
    rw [this, List.head?_cons, Option.any_some, same] at missing
    cases missing
  · exact fun _ => ⟨rfl, rfl, rfl, rfl⟩

theorem finds_ifAccepts {whenRead whenMissing : Rule β} {part : β} (skips : Skips kind before middle)
    (continues : whenRead.Finds middle part after) :
    (accepts kind >>= fun found => if found = true then whenRead else whenMissing).Finds before
      part after := by
  rcases skips with ⟨token, reads⟩
  rw [accepts, bind_assoc]
  exact (finds_accept reads).bind continues

theorem finds_unlessAccepts {whenRead whenMissing : Rule β} {part : β} (kind : Kind)
    (single : kind.IsSingle) (absent : ¬ before.Sees kind) (continues : whenMissing.Finds before part after) :
    (accepts kind >>= fun found => if found = true then whenRead else whenMissing).Finds before
      part after := by
  rw [accepts, bind_assoc]
  exact (finds_noAccept kind single absent).bind continues

theorem finds_demand (reads : Reads kind before token after) (what : Demand) :
    (demand kind what).Finds before token after :=
  (finds_accept reads).bind (.pure token after)

theorem finds_demandSymbol {symbol : Symbol} (skips : Skips (.symbol symbol) before after)
    (what : Demand) : (demandSymbol symbol what).Finds before () after := by
  rcases skips with ⟨token, reads⟩
  exact (finds_demand reads what).bind (.pure () after)

theorem finds_demandName {text : Name} (name : ReadsName before text after) (what : Demand) :
    (demandName what).Finds before text after := by
  cases name with
  | name word => exact (finds_demand word what).bind (.pure _ after)

/-! ## Operators and lists -/

variable {level : Level} {tree : Expr} {texts : List Name} {trees : List Expr}

/-- What the next token is, if one is left. -/
theorem sees_of_head? {position : Position} {token : Token}
    (isNext : position.rest.head? = some token) : position.Sees token.kind := by
  rcases position with ⟨_ | ⟨first, rest⟩, nextId⟩
  · cases isNext
  · cases isNext
    exact ⟨⟨rest, nextId⟩, token, rfl, rfl, rfl⟩

theorem finds_nextConnective? {connective : Connective} (joins : Joins level kind connective)
    (sign : Reads kind before token after) :
    (nextConnective? level).Finds before (some (connective, token.line)) after := by
  have operator := joins.ofKind?_eq
  rw [nextConnective?]
  apply finds_peekAt sign
  intro isOf
  rw [isOf, operator.1]
  simp only [operator.2, if_true]
  exact (finds_skip sign).bind (.pure _ after)

theorem finds_noConnective (loosens : before.Loosens (tightness level)) :
    (nextConnective? level).Finds before none before := by
  rw [nextConnective?]
  apply finds_peek
  intro token isNext
  split
  · next connective isOperator =>
    have joins := joins_of_ofKind? isOperator
    split
    · next same =>
      rcases isNext with isNext | ⟨-, isEnding⟩
      · have looser := loosens _ (sees_of_head? isNext)
        rw [joins.binding_eq, same] at looser
        exact absurd looser (Nat.lt_irrefl _)
      · rw [joins.isEnding_eq] at isEnding
        cases isEnding
    · exact .pure none before
  · exact .pure none before

theorem finds_nextUnaryOp? {op : UnaryOp} (precedes : Precedes kind op)
    (sign : Reads kind before token after) :
    nextUnaryOp?.Finds before (some (op, token.line)) after := by
  rw [nextUnaryOp?]
  apply finds_peekAt sign
  intro isOf
  rw [isOf, precedes.unaryOp?_eq]
  exact (finds_skip sign).bind (.pure _ after)

theorem finds_noUnaryOp (absent : ∀ kind op, Precedes kind op → ¬ before.Sees kind) :
    nextUnaryOp?.Finds before none before := by
  rw [nextUnaryOp?]
  apply finds_peek
  intro token isNext
  split
  · next op isOperator =>
    have precedes := precedes_of_unaryOp? isOperator
    rcases isNext with isNext | ⟨-, isEnding⟩
    · exact absurd (sees_of_head? isNext) (absent _ op precedes)
    · rw [precedes.isEnding_eq] at isEnding
      cases isEnding
  · exact .pure none before

theorem finds_noteOverflow {count : Nat} (few : count < 255) (fault : SyntaxFault)
    (position : Position) : (noteOverflow count fault).Finds position () position := by
  rw [noteOverflow, if_neg (show ¬ maximalArity ≤ count from Nat.not_le_of_lt few)]
  exact .pure () position

theorem finds_functionDeclaration (word : Skips (.keyword .funWord) before middle)
    (absent : ¬ middle.Sees (.symbol .leftParen)) :
    seesFunctionDeclaration.Finds before true before := by
  rintro ⟨rest, ending, nextId, errors⟩ - rfl
  rcases word with ⟨token, here, isOf, -⟩
  have isFunction : token.kind.same (.keyword .funWord) :=
    (Kind.same_iff (.keyword .funWord) trivial _).mpr isOf
  rcases middle with ⟨_ | ⟨second, others⟩, id⟩
  · have first : rest = [token] := here
    subst first
    exact ⟨isFunction, rfl, rfl, rfl⟩
  · have first : rest = token :: second :: others := here
    subst first
    have other : second.kind.same (.symbol .leftParen) = false := by
      rw [Bool.eq_false_iff]
      intro same
      have isParen := (Kind.same_iff (.symbol .leftParen) trivial _).mp same
      exact absent ⟨⟨others, id⟩, second, rfl, isParen, rfl⟩
    refine ⟨?_, rfl, rfl, rfl⟩
    rw [isFunction, other]
    rfl

theorem finds_noFunctionDeclaration
    (lambda : ∀ next, Skips (.keyword .funWord) before next → next.Sees (.symbol .leftParen)) :
    seesFunctionDeclaration.Finds before false before := by
  rintro ⟨_ | ⟨token, rest⟩, ending, nextId, errors⟩ - rfl
  · exact ⟨rfl, rfl, rfl, rfl⟩
  · cases isFunction : token.kind.same (.keyword .funWord) with
    | false =>
      cases rest with
      | nil => exact ⟨isFunction, rfl, rfl, rfl⟩
      | cons second others =>
        refine ⟨?_, rfl, rfl, rfl⟩
        rw [isFunction]
        rfl
    | true =>
      have isOf := (Kind.same_iff (.keyword .funWord) trivial _).mp isFunction
      rcases lambda ⟨rest, nextId⟩ ⟨token, rfl, isOf, rfl⟩ with ⟨after, second, here, isParen, -⟩
      have first : rest = second :: after.rest := here
      subst first
      refine ⟨?_, rfl, rfl, rfl⟩
      rw [isParen]
      exact Bool.and_false _

/-- Another declaration or method follows in a block or class. -/
theorem finds_notClosing {whenEnds whenGoesOn : Rule β} {part : β} (isLeft : before.rest ≠ [])
    (absent : ¬ before.Sees (.symbol .rightBrace))
    (continues : whenGoesOn.Finds before part after) :
    (sees (.symbol .rightBrace) >>= fun closing => atEnd >>= fun ending =>
      if (closing || ending) = true then whenEnds else whenGoesOn).Finds before part after := by
  apply (finds_sees (.symbol .rightBrace) trivial _ absent).bind
  apply (finds_atEnd _).bind
  rw [List.isEmpty_eq_false_iff.mpr isLeft]
  exact continues

theorem finds_closing {whenGoesOn : Rule β} {what : Demand} {part : β}
    (closing : Skips (.symbol .rightBrace) before after) :
    (sees (.symbol .rightBrace) >>= fun closing => atEnd >>= fun ending =>
      if (closing || ending) = true then demandSymbol .rightBrace what >>= fun _ => pure part
      else whenGoesOn).Finds before part after := by
  apply (finds_seen closing).bind
  apply (finds_atEnd _).bind
  exact (finds_demandSymbol closing what).bind (.pure _ _)

end Grammar

/-! ## Derivations and rules -/

namespace Derivation

variable {before middle after : Position} {texts : List Name} {level : Level} {tree : Expr}

theorem Names.sees (names : Names before texts after) : before.Sees .identifier := by
  cases names with
  | last name => exact name.sees
  | more name => exact name.sees

theorem Names.finds (names : Names before texts after) (absent : ¬ after.Sees (.symbol .comma))
    (fuel count : Nat) (few : count + texts.length ≤ 255) :
    (parameterNames fuel count).Finds before texts after := by
  induction names generalizing fuel count with
  | last name =>
    cases fuel with
    | zero => exact .exhausted
    | succ fuel =>
      rw [List.length_singleton] at few
      rw [parameterNames]
      apply (finds_noteOverflow (by omega) _ _).bind
      apply (finds_demandName name _).bind
      apply finds_unlessAccepts (.symbol .comma) trivial absent
      exact .pure _ _
  | more name comma _ induction =>
    cases fuel with
    | zero => exact .exhausted
    | succ fuel =>
      rw [List.length_cons] at few
      rw [parameterNames]
      apply (finds_noteOverflow (by omega) _ _).bind
      apply (finds_demandName name _).bind
      apply finds_ifAccepts comma
      apply (induction absent fuel (count + 1) (by omega)).bind
      exact .pure _ _

theorem Parameters.finds (parameters : Parameters before texts middle)
    (closing : Skips (.symbol .rightParen) middle after) (fuel : Nat) :
    (Grammar.parameters fuel).Finds before texts middle := by
  rw [Grammar.parameters]
  cases parameters with
  | none => exact (finds_seen closing).bind (.pure _ _)
  | some names few =>
    apply (finds_sees (.symbol .rightParen) trivial _ (names.sees.not_sees (by rintro ⟨⟩))).bind
    exact names.finds (closing.sees.not_sees (by rintro ⟨⟩)) fuel 0 (by omega)

/-- No operator of this level or of a tighter one goes on with an operation. -/
theorem finds_operationRest (loosens : after.Loosens (tightness level)) (fuel : Nat) :
    (operationRest fuel level tree).Finds after tree after := by
  cases fuel with
  | zero => exact .exhausted
  | succ fuel =>
    rw [operationRest]
    exact (finds_noConnective loosens).bind (.pure _ _)

theorem finds_calls (loosens : after.Loosens 8) (fuel : Nat) :
    (calls fuel tree).Finds after tree after := by
  cases fuel with
  | zero => exact .exhausted
  | succ fuel =>
    rw [calls]
    apply finds_unlessAccepts (.symbol .leftParen) trivial
      fun sees => absurd (loosens _ sees) (by decide)
    apply finds_unlessAccepts (.symbol .dot) trivial
      fun sees => absurd (loosens _ sees) (by decide)
    exact .pure _ _

/-- What has no operators is read by the rules for operations. -/
theorem finds_operation (loosens : after.Loosens 2)
    (finds : ∀ fuel, (unary fuel).Finds before tree after) (fuel : Nat) (level : Level) :
    (operation fuel level).Finds before tree after := by
  have bounds := tightness_bounds level
  match fuel with
  | 0 => exact .exhausted
  | 1 =>
    rw [operation, operand]
    exact Rule.Finds.exhausted.bind (finds_operationRest (loosens.mono bounds.1) 0)
  | fuel + 2 =>
    rw [operation, operand]
    refine Rule.Finds.bind ?_ (finds_operationRest (loosens.mono bounds.1) (fuel + 1))
    split
    · next tighter _ => exact finds_operation loosens finds fuel tighter
    · exact finds fuel

/-- An expression that starts with no operator is read, and what is called or accessed of it. -/
theorem finds_unary (noOperator : ∀ kind op, Precedes kind op → ¬ before.Sees kind)
    {result : Expr} (finds : ∀ fuel, (primary fuel).Finds before tree middle)
    (continues : ∀ fuel, (calls fuel tree).Finds middle result after) (fuel : Nat) :
    (unary fuel).Finds before result after := by
  cases fuel with
  | zero => exact .exhausted
  | succ fuel =>
    rw [unary]
    apply (finds_noUnaryOp noOperator).bind
    exact (finds fuel).bind (continues fuel)

/-- A primary expression starts with no operator. -/
theorem Primary.not_precedes (primary : Primary before tree after) (kind : Kind) (op : UnaryOp)
    (precedes : Precedes kind op) : ¬ before.Sees kind := by
  have different : ∀ {other : Kind}, before.Sees other → other ≠ .symbol .bang →
      other ≠ .symbol .minus → ¬ before.Sees kind := by
    intro other sees noBang noMinus sees'
    rw [sees'.eq sees] at precedes
    cases precedes with
    | not => exact noBang rfl
    | negate => exact noMinus rfl
  cases primary with
  | literal denotes word => cases denotes <;> exact different word.skips.sees nofun nofun
  | read name => exact different name.sees nofun nofun
  | this word => exact different word.skips.sees nofun nofun
  | super word => exact different word.skips.sees nofun nofun
  | group opening => exact different opening.sees nofun nofun
  | function word => exact different word.sees nofun nofun

theorem ReadsVariable.finds {reference : Reference} (read : ReadsVariable before reference after)
    (fuel : Nat) : (primary fuel).Finds before (.read reference) after := by
  cases fuel with
  | zero => exact .exhausted
  | succ fuel =>
    cases read with
    | reference name numbers =>
      cases name with
      | name word =>
        rw [primary]
        apply finds_peekAt word
        intro isOf
        simp only [isOf]
        apply (finds_skip word).bind
        exact (finds_freshId numbers).bind (.pure _ _)

theorem Superclass.finds {target : Option Reference} (superclass : Superclass before target middle)
    (opening : Skips (.symbol .leftBrace) middle after) :
    superclassClause.Finds before target middle := by
  rw [superclassClause]
  cases superclass with
  | none =>
    apply finds_unlessAccepts (.symbol .less) trivial (opening.sees.not_sees (by rintro ⟨⟩))
    exact .pure _ _
  | some sign read =>
    cases read with
    | reference name numbers =>
      apply finds_ifAccepts sign
      apply (finds_demandName name _).bind
      exact (finds_freshId numbers).bind (.pure _ _)

/-- The property of an object is read, and what is called or accessed of it. -/
theorem finds_property {first second : Position} {object result : Expr} {text : Name}
    (dot : Skips (.symbol .dot) first second) (name : ReadsName second text middle)
    (continues : ∀ fuel, (calls fuel (.get object text)).Finds middle result after) (fuel : Nat) :
    (calls fuel object).Finds first result after := by
  cases fuel with
  | zero => exact .exhausted
  | succ fuel =>
    rw [calls]
    apply finds_unlessAccepts (.symbol .leftParen) trivial (dot.sees.not_sees (by rintro ⟨⟩))
    apply finds_ifAccepts dot
    exact (finds_demandName name _).bind (continues fuel)

/-- A statement that starts like an expression is one. -/
theorem finds_expressionStatement (begins : before.Begins) {tree : Stmt} {fuel : Nat}
    (finds : (expressionStatement fuel).Finds before tree after) (breakable : Bool) :
    (statement (fuel + 1) breakable).Finds before tree after := by
  rw [statement]
  apply finds_peek
  intro token isNext
  have never : ∀ {kind : Kind}, ¬ Starts kind → token.kind ≠ kind := by
    rintro _ never rfl
    rcases isNext with isNext | ⟨none, -⟩
    · exact begins.not_sees never (sees_of_head? isNext)
    · exact begins.rest_ne_nil none
  split
  · next isOf => exact absurd isOf (never (not_starts_word (by decide)))
  · next isOf => exact absurd isOf (never (not_starts_word (by decide)))
  · next isOf => exact absurd isOf (never (not_starts_word (by decide)))
  · next isOf => exact absurd isOf (never (not_starts_word (by decide)))
  · next isOf => exact absurd isOf (never (not_starts_word (by decide)))
  · next isOf => exact absurd isOf (never (not_starts_sign (by decide)))
  · next isOf => exact absurd isOf (never (not_starts_word (by decide)))
  · exact finds

/-! ## What statements start with -/

theorem Values.begins {trees : List Expr} (values : Values before trees after) : before.Begins := by
  cases values with
  | last value => exact value.begins
  | more value => exact value.begins

theorem NamedDefinition.sees {tree : NamedFunction} (definition : NamedDefinition before tree after) :
    before.Sees .identifier := by
  cases definition with
  | function name => exact name.sees

theorem Variable.sees {tree : Stmt} (variable_ : Variable before tree after) :
    before.Sees (.keyword .varWord) := by
  cases variable_ with
  | bare word => exact word.sees
  | initialised word => exact word.sees

theorem Block.sees {breakable : Bool} {trees : List Stmt}
    (block : Block breakable before trees after) : before.Sees (.symbol .leftBrace) := by
  cases block with
  | block opening => exact opening.sees

/-- A statement starts like an expression, or with a brace or a word of its own. -/
theorem Statement.starts {breakable : Bool} {tree : Stmt}
    (statement : Statement breakable before tree after) :
    before.Begins ∨ before.Sees (.symbol .leftBrace) ∨ ∃ word, before.Sees (.keyword word) ∧
      word ≠ .classWord ∧ word ≠ .varWord ∧ word ≠ .funWord := by
  cases statement with
  | expression inner => exact .inl inner.begins
  | block inner => exact .inr (.inl inner.sees)
  | print word => exact .inr (.inr ⟨_, word.sees, nofun, nofun, nofun⟩)
  | ifOnly word => exact .inr (.inr ⟨_, word.sees, nofun, nofun, nofun⟩)
  | ifElse word => exact .inr (.inr ⟨_, word.sees, nofun, nofun, nofun⟩)
  | whileLoop word => exact .inr (.inr ⟨_, word.sees, nofun, nofun, nofun⟩)
  | forLoop word => exact .inr (.inr ⟨_, word.sees, nofun, nofun, nofun⟩)
  | breakLoop word => exact .inr (.inr ⟨_, word.skips.sees, nofun, nofun, nofun⟩)
  | returnValue word => exact .inr (.inr ⟨_, word.skips.sees, nofun, nofun, nofun⟩)

theorem Statement.not_class {breakable : Bool} {tree : Stmt}
    (statement : Statement breakable before tree after) :
    ¬ before.Sees (.keyword .classWord) := by
  rcases statement.starts with begins | brace | ⟨word, sees, different, -⟩
  · exact begins.not_sees (not_starts_word (by decide))
  · exact brace.not_sees nofun
  · exact sees.not_sees fun same => different (Kind.keyword.inj same)

theorem Statement.not_var {breakable : Bool} {tree : Stmt}
    (statement : Statement breakable before tree after) : ¬ before.Sees (.keyword .varWord) := by
  rcases statement.starts with begins | brace | ⟨word, sees, -, different, -⟩
  · exact begins.not_sees (not_starts_word (by decide))
  · exact brace.not_sees nofun
  · exact sees.not_sees fun same => different (Kind.keyword.inj same)

/-- A function at the start of a statement has no name. -/
theorem Statement.lambda {breakable : Bool} {tree : Stmt}
    (statement : Statement breakable before tree after) (next : Position)
    (function : Skips (.keyword .funWord) before next) : next.Sees (.symbol .leftParen) := by
  rcases statement.starts with begins | brace | ⟨word, sees, -, -, different⟩
  · exact begins.function next function
  · exact absurd function.sees (brace.not_sees nofun)
  · exact absurd function.sees (sees.not_sees fun same => different (Kind.keyword.inj same))

theorem Declaration.starts {breakable : Bool} {tree : Stmt}
    (declaration : Declaration breakable before tree after) :
    ∃ kind, before.Sees kind ∧ kind ≠ .symbol .rightBrace := by
  cases declaration with
  | classDecl word => exact ⟨_, word.sees, nofun⟩
  | funDecl word => exact ⟨_, word.sees, nofun⟩
  | varDecl inner => exact ⟨_, inner.sees, nofun⟩
  | statement inner =>
    rcases inner.starts with begins | brace | ⟨word, sees, -⟩
    · rcases begins.starts with ⟨kind, starts, sees⟩
      refine ⟨kind, sees, ?_⟩
      rintro rfl
      exact not_starts_sign (by decide) starts
    · exact ⟨_, brace, nofun⟩
    · exact ⟨_, sees, nofun⟩

theorem Declaration.rest_ne_nil {breakable : Bool} {tree : Stmt}
    (declaration : Declaration breakable before tree after) : before.rest ≠ [] := by
  rcases declaration.starts with ⟨kind, sees, -⟩
  exact sees.rest_ne_nil

theorem Declaration.not_closing {breakable : Bool} {tree : Stmt}
    (declaration : Declaration breakable before tree after) :
    ¬ before.Sees (.symbol .rightBrace) := by
  rcases declaration.starts with ⟨kind, sees, different⟩
  exact sees.not_sees different

/-! ## Reading what is derived -/

mutual

theorem Expression.finds {before : Position} {tree : Expr} {after : Position} :
    Expression before tree after → after.Loosens 1 → ∀ fuel,
      (expression fuel).Finds before tree after
  | _, _, 0 => .exhausted
  | .operation inner, loosens, fuel + 1 => by
    rw [expression]
    have stops : ¬ after.Sees (.symbol .equal) := fun sees => absurd (loosens _ sees) (by decide)
    have finds := inner.finds (loosens.mono (by decide)) after tree
      (finds_operationRest (loosens.mono (by decide))) fuel
    apply finds.bind
    exact (finds_noAccept (.symbol .equal) trivial stops).bind (.pure _ _)
  | .assign target sign value, loosens, fuel + 1 => by
    rw [expression]
    have loose := sign.sees.loosens (show binding (.symbol .equal) < 2 by decide)
    have isRead := finds_unary (fun _ _ precedes sees => absurd (target.sees.eq sees) precedes.ne_name.symm)
      target.finds (finds_calls (loose.mono (by decide)))
    apply (finds_operation loose isRead fuel .or).bind
    rcases sign with ⟨token, reads⟩
    apply (finds_accept reads).bind
    exact (value.finds loosens fuel).bind (.pure _ _)
  | .set object dot name sign value, loosens, fuel + 1 => by
    rw [expression]
    have loose := sign.sees.loosens (show binding (.symbol .equal) < 2 by decide)
    have isRead := object.finds _ _ fun fuel =>
      finds_property dot name (finds_calls (loose.mono (by decide))) fuel
    apply (finds_operation loose isRead fuel .or).bind
    rcases sign with ⟨token, reads⟩
    apply (finds_accept reads).bind
    exact (value.finds loosens fuel).bind (.pure _ _)

/-- Reading goes on behind an operation with what its level joins to it. -/
theorem Operation.finds {level : Level} {before : Position} {tree : Expr} {middle : Position} :
    Operation level before tree middle → middle.Loosens (tightness level + 1) → ∀ after result,
      (∀ fuel, (operationRest fuel level tree).Finds middle result after) → ∀ fuel,
        (operation fuel level).Finds before result after
  | .operand inner, loosens, after, result, continues, fuel => by
    cases fuel with
    | zero => exact .exhausted
    | succ fuel =>
      rw [operation]
      exact (inner.finds loosens fuel).bind (continues fuel)
  | .join left joins sign right, loosens, after, result, continues, fuel => by
    apply left.finds
    · apply sign.skips.sees.loosens
      rw [joins.binding_eq]
      exact Nat.lt_succ_self _
    · intro fuel
      cases fuel with
      | zero => exact .exhausted
      | succ fuel =>
        rw [operationRest]
        apply (finds_nextConnective? joins sign).bind
        apply (right.finds loosens fuel).bind
        exact continues fuel

theorem Operand.finds {level : Level} {before : Position} {tree : Expr} {after : Position} :
    Operand level before tree after → after.Loosens (tightness level + 1) → ∀ fuel,
      (operand fuel level).Finds before tree after
  | _, _, 0 => .exhausted
  | .tighter tightens inner, loosens, fuel + 1 => by
    rw [operand, tightens.tighter?_eq]
    rw [← tightens.tightness_eq] at loosens
    exact inner.finds (loosens.mono (Nat.le_succ _)) after _ (finds_operationRest loosens) fuel
  | .unary inner, loosens, fuel + 1 => by
    rw [operand]
    exact inner.finds loosens fuel

theorem Unary.finds {before : Position} {tree : Expr} {after : Position} :
    Unary before tree after → after.Loosens 8 → ∀ fuel, (unary fuel).Finds before tree after
  | _, _, 0 => .exhausted
  | .operator precedes sign operand, loosens, fuel + 1 => by
    rw [unary]
    apply (finds_nextUnaryOp? precedes sign).bind
    exact (operand.finds loosens fuel).bind (.pure _ _)
  | .call inner, loosens, fuel + 1 => inner.finds _ _ (finds_calls loosens) (fuel + 1)

/-- Reading goes on behind a call with further calls of it. -/
theorem Call.finds {before : Position} {tree : Expr} {middle : Position} :
    Call before tree middle → ∀ after result,
      (∀ fuel, (calls fuel tree).Finds middle result after) → ∀ fuel,
        (unary fuel).Finds before result after
  | .primary inner, after, result, continues, fuel =>
    finds_unary inner.not_precedes inner.finds continues fuel
  | .call callee opening arguments closing, after, result, continues, fuel => by
    apply callee.finds
    intro fuel
    cases fuel with
    | zero => exact .exhausted
    | succ fuel =>
      rw [calls]
      apply finds_ifAccepts opening
      apply (arguments.finds closing.skips.sees fuel).bind
      exact (finds_demand closing _).bind (continues fuel)
  | .get object dot name, after, result, continues, fuel =>
    object.finds _ _ (finds_property dot name continues) fuel

theorem Arguments.finds {before : Position} {trees : List Expr} {after : Position} :
    Arguments before trees after → after.Sees (.symbol .rightParen) → ∀ fuel,
      (arguments fuel).Finds before trees after
  | _, _, 0 => .exhausted
  | .none, ⟨_, closing⟩, fuel + 1 => by
    rw [arguments]
    exact (finds_seen closing).bind (.pure _ _)
  | .some values few, closing, fuel + 1 => by
    rw [arguments]
    have absent : ¬ before.Sees (.symbol .rightParen) :=
      values.begins.not_sees (not_starts_sign (by decide))
    apply (finds_sees (.symbol .rightParen) trivial _ absent).bind
    exact values.finds closing fuel 0 (by omega)

theorem Values.finds {before : Position} {trees : List Expr} {after : Position} :
    Values before trees after → after.Sees (.symbol .rightParen) → ∀ fuel count,
      count + trees.length ≤ 255 → (argumentValues fuel count).Finds before trees after
  | _, _, 0, _, _ => .exhausted
  | .last value, closing, fuel + 1, count, few => by
    rw [List.length_singleton] at few
    rw [argumentValues]
    apply (finds_noteOverflow (by omega) _ _).bind
    apply (value.finds (closing.loosens (by decide)) fuel).bind
    apply finds_unlessAccepts (.symbol .comma) trivial (closing.not_sees nofun)
    exact .pure _ _
  | .more value comma others, closing, fuel + 1, count, few => by
    rw [List.length_cons] at few
    rw [argumentValues]
    apply (finds_noteOverflow (by omega) _ _).bind
    apply (value.finds (comma.sees.loosens (by decide)) fuel).bind
    apply finds_ifAccepts comma
    exact (others.finds closing fuel (count + 1) (by omega)).bind (.pure _ _)

theorem Primary.finds {before : Position} {tree : Expr} {after : Position} :
    Primary before tree after → ∀ fuel, (primary fuel).Finds before tree after
  | _, 0 => .exhausted
  | .literal denotes word, fuel + 1 => by
    rw [primary]
    apply finds_peekAt word
    intro isOf
    cases denotes <;> simp only [isOf] <;> exact (finds_skip word).bind (.pure _ _)
  | .read name, fuel + 1 => name.finds (fuel + 1)
  | .this word numbers, fuel + 1 => by
    rw [primary]
    apply finds_peekAt word
    intro isOf
    simp only [isOf]
    apply (finds_skip word).bind
    exact (finds_freshId numbers).bind (.pure _ _)
  | .super word dot name numbers, fuel + 1 => by
    rw [primary]
    apply finds_peekAt word
    intro isOf
    simp only [isOf]
    apply (finds_skip word).bind
    apply (finds_demandSymbol dot _).bind
    apply (finds_demandName name _).bind
    exact (finds_freshId numbers).bind (.pure _ _)
  | .group opening inner closing, fuel + 1 => by
    rw [primary]
    rcases opening with ⟨token, reads⟩
    apply finds_peekAt reads
    intro isOf
    simp only [isOf]
    apply (finds_skip reads).bind
    apply (inner.finds (closing.sees.loosens (by decide)) fuel).bind
    exact (finds_demandSymbol closing _).bind (.pure _ _)
  | .function word definition, fuel + 1 => by
    rw [primary]
    rcases word with ⟨token, reads⟩
    rcases definition.finds with ⟨first, opening, finds⟩
    apply finds_peekAt reads
    intro isOf
    simp only [isOf]
    apply (finds_skip reads).bind
    apply (finds_demandSymbol opening _).bind
    exact (finds fuel .function).bind (.pure _ _)

theorem Definition.finds {before : Position} {tree : Function} {after : Position} :
    Definition before tree after → ∃ middle, Skips (.symbol .leftParen) before middle ∧
      ∀ fuel role, (functionRest fuel role).Finds middle tree after
  | .function opening parameters closing body => by
    refine ⟨_, opening, ?_⟩
    intro fuel role
    cases fuel with
    | zero => exact .exhausted
    | succ fuel =>
      rcases body.finds with ⟨first, brace, finds⟩
      rw [functionRest]
      apply (parameters.finds closing fuel).bind
      apply (finds_demandSymbol closing _).bind
      apply (finds_demandSymbol brace _).bind
      exact (finds fuel).bind (.pure _ _)

theorem NamedDefinition.finds {before : Position} {tree : NamedFunction} {after : Position} :
    NamedDefinition before tree after → ∀ fuel role,
      (namedFunction fuel role).Finds before tree after
  | _, 0, _ => .exhausted
  | .function name definition, fuel + 1, role => by
    rcases definition.finds with ⟨first, opening, finds⟩
    rw [namedFunction]
    apply (finds_demandName name _).bind
    apply (finds_demandSymbol opening _).bind
    exact (finds fuel role).bind (.pure _ _)

theorem Block.finds {breakable : Bool} {before : Position} {trees : List Stmt} {after : Position} :
    Block breakable before trees after → ∃ middle, Skips (.symbol .leftBrace) before middle ∧
      ∀ fuel, (blockRest fuel breakable).Finds middle trees after
  | .block opening inner closing => ⟨_, opening, inner.finds closing⟩

theorem Declarations.finds {breakable : Bool} {before : Position} {trees : List Stmt}
    {middle : Position} : Declarations breakable before trees middle → ∀ {after : Position},
      Skips (.symbol .rightBrace) middle after → ∀ fuel,
        (blockRest fuel breakable).Finds before trees after
  | _, _, _, 0 => .exhausted
  | .nil, _, closing, fuel + 1 => by
    rw [blockRest]
    exact finds_closing closing
  | .cons first others, _, closing, fuel + 1 => by
    rw [blockRest]
    apply finds_notClosing first.rest_ne_nil first.not_closing
    apply (first.finds fuel).recovering.bind
    exact (others.finds closing fuel).bind (.pure _ _)

theorem Declaration.finds {breakable : Bool} {before : Position} {tree : Stmt} {after : Position} :
    Declaration breakable before tree after → ∀ fuel,
      (declaration fuel breakable).Finds before tree after
  | _, 0 => .exhausted
  | .classDecl word name superclass opening inner closing, fuel + 1 => by
    rw [declaration]
    apply finds_ifAccepts word
    cases fuel with
    | zero => exact .exhausted
    | succ fuel =>
      rw [classRest_eq]
      apply (finds_demandName name _).bind
      apply (superclass.finds opening).bind
      apply (finds_demandSymbol opening _).bind
      exact (inner.finds closing fuel).bind (.pure _ _)
  | .funDecl word definition, fuel + 1 => by
    rw [declaration]
    apply finds_unlessAccepts (.keyword .classWord) trivial (word.sees.not_sees nofun)
    apply (finds_functionDeclaration word (definition.sees.not_sees nofun)).bind
    rcases word with ⟨token, reads⟩
    apply (finds_skip reads).bind
    exact (definition.finds fuel .function).bind (.pure _ _)
  | .varDecl inner, fuel + 1 => by
    rcases inner.finds with ⟨first, word, finds⟩
    rw [declaration]
    apply finds_unlessAccepts (.keyword .classWord) trivial (word.sees.not_sees nofun)
    apply (finds_noFunctionDeclaration fun _ other => absurd (word.sees.eq other.sees) nofun).bind
    apply finds_ifAccepts word
    exact finds fuel
  | .statement inner, fuel + 1 => by
    rw [declaration]
    apply finds_unlessAccepts (.keyword .classWord) trivial inner.not_class
    apply (finds_noFunctionDeclaration inner.lambda).bind
    apply finds_unlessAccepts (.keyword .varWord) trivial inner.not_var
    exact inner.finds fuel

theorem Methods.finds {before : Position} {methods classMethods : List NamedFunction}
    {middle : Position} : Methods before methods classMethods middle → ∀ {after : Position},
      Skips (.symbol .rightBrace) middle after → ∀ fuel,
        (methodsRest fuel).Finds before (methods, classMethods) after
  | _, _, _, 0 => .exhausted
  | .nil, _, closing, fuel + 1 => by
    rw [methodsRest]
    exact finds_closing closing
  | .method first others, _, closing, fuel + 1 => by
    rw [methodsRest]
    apply finds_notClosing first.sees.rest_ne_nil (first.sees.not_sees nofun)
    apply finds_unlessAccepts (.keyword .classWord) trivial (first.sees.not_sees nofun)
    apply (first.finds fuel .method).bind
    exact (others.finds closing fuel).bind (.pure _ _)
  | .classMethod word definition others, _, closing, fuel + 1 => by
    rw [methodsRest]
    apply finds_notClosing word.sees.rest_ne_nil (word.sees.not_sees nofun)
    apply finds_ifAccepts word
    apply (definition.finds fuel .method).bind
    exact (others.finds closing fuel).bind (.pure _ _)

theorem Variable.finds {before : Position} {tree : Stmt} {after : Position} :
    Variable before tree after → ∃ middle, Skips (.keyword .varWord) before middle ∧
      ∀ fuel, (variableRest fuel).Finds middle tree after
  | .bare word name ending => by
    refine ⟨_, word, ?_⟩
    intro fuel
    cases fuel with
    | zero => exact .exhausted
    | succ fuel =>
      rw [variableRest_eq, initialClause]
      apply (finds_demandName name _).bind
      apply (finds_unlessAccepts (.symbol .equal) trivial (ending.sees.not_sees nofun)
        (.pure _ _)).bind
      exact (finds_demandSymbol ending _).bind (.pure _ _)
  | .initialised word name sign value ending => by
    refine ⟨_, word, ?_⟩
    intro fuel
    cases fuel with
    | zero => exact .exhausted
    | succ fuel =>
      have finds := value.finds (ending.sees.loosens (by decide)) fuel
      rw [variableRest_eq, initialClause]
      apply (finds_demandName name _).bind
      apply (finds_ifAccepts sign (finds.bind (.pure (some _) _))).bind
      exact (finds_demandSymbol ending _).bind (.pure _ _)

theorem Statement.finds {breakable : Bool} {before : Position} {tree : Stmt} {after : Position} :
    Statement breakable before tree after → ∀ fuel,
      (statement fuel breakable).Finds before tree after
  | _, 0 => .exhausted
  | .expression inner, fuel + 1 =>
    finds_expressionStatement inner.begins (inner.finds fuel) _
  | .print ⟨token, reads⟩ value ending, fuel + 1 => by
    rw [statement]
    apply finds_peekAt reads
    intro isOf
    simp only [isOf]
    apply (finds_skip reads).bind
    apply (value.finds (ending.sees.loosens (by decide)) fuel).bind
    exact (finds_demandSymbol ending _).bind (.pure _ _)
  | .block inner, fuel + 1 => by
    rcases inner.finds with ⟨first, ⟨token, reads⟩, finds⟩
    rw [statement]
    apply finds_peekAt reads
    intro isOf
    simp only [isOf]
    apply (finds_skip reads).bind
    exact (finds fuel).bind (.pure _ _)
  | .ifOnly ⟨token, reads⟩ opening condition closing whenTrue alone, fuel + 1 => by
    rw [statement]
    apply finds_peekAt reads
    intro isOf
    simp only [isOf]
    apply (finds_skip reads).bind
    apply (finds_demandSymbol opening _).bind
    apply (condition.finds (closing.sees.loosens (by decide)) fuel).bind
    apply (finds_demandSymbol closing _).bind
    apply (whenTrue.finds fuel).bind
    apply finds_unlessAccepts (.keyword .elseWord) trivial alone
    exact .pure _ _
  | .ifElse ⟨token, reads⟩ opening condition closing whenTrue otherwise whenFalse, fuel + 1 => by
    rw [statement]
    apply finds_peekAt reads
    intro isOf
    simp only [isOf]
    apply (finds_skip reads).bind
    apply (finds_demandSymbol opening _).bind
    apply (condition.finds (closing.sees.loosens (by decide)) fuel).bind
    apply (finds_demandSymbol closing _).bind
    apply (whenTrue.finds fuel).bind
    apply finds_ifAccepts otherwise
    exact (whenFalse.finds fuel).bind (.pure _ _)
  | .whileLoop ⟨token, reads⟩ opening condition closing body, fuel + 1 => by
    rw [statement]
    apply finds_peekAt reads
    intro isOf
    simp only [isOf]
    apply (finds_skip reads).bind
    apply (finds_demandSymbol opening _).bind
    apply (condition.finds (closing.sees.loosens (by decide)) fuel).bind
    apply (finds_demandSymbol closing _).bind
    exact (body.finds fuel).bind (.pure _ _)
  | .forLoop ⟨token, reads⟩ opening initial condition separator increment closing body, fuel + 1 => by
    rw [statement]
    apply finds_peekAt reads
    intro isOf
    simp only [isOf]
    apply (finds_skip reads).bind
    cases fuel with
    | zero => exact .exhausted
    | succ fuel =>
      rw [forRest]
      apply (finds_demandSymbol opening _).bind
      apply (initial.finds fuel).bind
      apply (condition.finds separator.sees (by decide) (not_starts_sign (by decide))
        fuel).bind
      apply (finds_demandSymbol separator _).bind
      apply (increment.finds closing.sees (by decide) (not_starts_sign (by decide)) fuel).bind
      apply (finds_demandSymbol closing _).bind
      exact (body.finds fuel).bind (.pure _ _)
  | .breakLoop word ending, fuel + 1 => by
    rw [statement]
    apply finds_peekAt word
    intro isOf
    simp only [isOf]
    apply (finds_skip word).bind
    exact (finds_demandSymbol ending _).bind (.pure _ _)
  | .returnValue word value ending, fuel + 1 => by
    rw [statement]
    apply finds_peekAt word
    intro isOf
    simp only [isOf]
    apply (finds_skip word).bind
    apply (value.finds ending.sees (by decide) (not_starts_sign (by decide)) fuel).bind
    exact (finds_demandSymbol ending _).bind (.pure _ _)

theorem ExpressionStatement.finds {before : Position} {tree : Stmt} {after : Position} :
    ExpressionStatement before tree after → ∀ fuel,
      (expressionStatement fuel).Finds before tree after
  | _, 0 => .exhausted
  | .closed value ending, fuel + 1 => by
    rw [expressionStatement]
    apply (value.finds (ending.sees.loosens (by decide)) fuel).bind
    apply (finds_atEnd _).bind
    rw [List.isEmpty_eq_false_iff.mpr ending.sees.rest_ne_nil]
    exact (finds_demandSymbol ending _).bind (.pure _ _)
  | .last value atEnd, fuel + 1 => by
    rw [expressionStatement]
    apply (value.finds (Position.loosens_of_atEnd atEnd) fuel).bind
    apply (finds_atEnd _).bind
    rw [List.isEmpty_iff.mpr atEnd]
    exact .pure _ _

theorem ForInitial.finds {before : Position} {start : Option Stmt} {after : Position} :
    ForInitial before start after → ∀ fuel, (forInitial fuel).Finds before start after
  | _, 0 => .exhausted
  | .none ending, fuel + 1 => by
    rw [forInitial]
    exact finds_ifAccepts ending (.pure _ _)
  | .varDecl inner, fuel + 1 => by
    rcases inner.finds with ⟨first, word, finds⟩
    rw [forInitial]
    apply finds_unlessAccepts (.symbol .semicolon) trivial (word.sees.not_sees nofun)
    apply finds_ifAccepts word
    exact (finds fuel).bind (.pure _ _)
  | .expression inner, fuel + 1 => by
    have begins := inner.begins
    rw [forInitial]
    apply finds_unlessAccepts (.symbol .semicolon) trivial
      (begins.not_sees (not_starts_sign (by decide)))
    apply finds_unlessAccepts (.keyword .varWord) trivial
      (begins.not_sees (not_starts_word (by decide)))
    exact (inner.finds fuel).bind (.pure _ _)

theorem OptionalExpression.finds {before : Position} {value : Option Expr} {after : Position} :
    OptionalExpression before value after → ∀ {follower : Symbol}, after.Sees (.symbol follower) →
      binding (.symbol follower) < 1 → ¬ Starts (.symbol follower) → ∀ fuel,
        (optionalExpression fuel follower).Finds before value after
  | _, _, _, _, _, 0 => .exhausted
  | .none, _, ⟨_, closing⟩, _, _, fuel + 1 => by
    rw [optionalExpression]
    exact (finds_seen closing).bind (.pure _ _)
  | .some value, follower, closing, loose, never, fuel + 1 => by
    rw [optionalExpression]
    have absent := value.begins.not_sees never
    apply (finds_sees (.symbol follower) trivial _ absent).bind
    exact (value.finds (closing.loosens loose) fuel).bind (.pure _ _)

end

/-- A program that is derived is read. -/
theorem Declarations.findsAll {before : Position} {trees : List Stmt} {after : Position} :
    Declarations false before trees after → trees ≠ [] → after.rest = [] → ∀ fuel,
      (declarations fuel).Finds before trees after
  | _, _, _, 0 => .exhausted
  | .nil, nonempty, _, _ + 1 => absurd rfl nonempty
  | .cons first .nil, _, atEnd, fuel + 1 => by
    rw [declarations]
    apply (first.finds fuel).recovering.bind
    apply (finds_atEnd _).bind
    rw [List.isEmpty_iff.mpr atEnd]
    exact .pure _ _
  | .cons first (.cons second others), _, atEnd, fuel + 1 => by
    rw [declarations]
    apply (first.finds fuel).recovering.bind
    apply (finds_atEnd _).bind
    rw [List.isEmpty_eq_false_iff.mpr second.rest_ne_nil]
    have finds := Declarations.findsAll (.cons second others) (List.cons_ne_nil _ _) atEnd fuel
    exact finds.bind (.pure _ _)

end Derivation

end Lox
