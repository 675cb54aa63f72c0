import Lox.Proofs.Grammar.Clause
import Lox.Proofs.Grammar.Shape

/-!
# What is read is derived

If a rule yields a part of a tree and nothing was found to be wrong up to there, then the
tokens that it has read derive this part.  Faults that are noted stay for ever, so nothing
has to be known about what is read after one.
-/

namespace Lox.Grammar

open Lox.Derivation

variable {α β : Type}

/-- Where a rule reads. -/
def State.position (state : State) : Position :=
  ⟨state.rest, state.nextId⟩

/-- What a rule has read without any fault is derived. -/
def Rule.IsSound (rule : Rule α) (derived : Position → α → Position → Prop) : Prop :=
  ∀ state, state.ending.kind.isEnding → rule.Ends state
    (fun result after => after.ending = state.ending ∧
      (after.errors = #[] → state.errors = #[] ∧ derived state.position result after.position))
    fun _ after => after.ending = state.ending

namespace Rule.IsSound

variable {rule : Rule α} {next : α → Rule β} {derived derived' : Position → α → Position → Prop}
  {final : Position → β → Position → Prop}

theorem imp (sound : rule.IsSound derived)
    (weaker : ∀ before result after, derived before result after → derived' before result after) :
    rule.IsSound derived' := by
  intro state isEnding
  apply (sound state isEnding).imp
  · rintro result after ⟨same, holds⟩
    refine ⟨same, fun none => ?_⟩
    rcases holds none with ⟨before, derives⟩
    exact ⟨before, weaker _ _ _ derives⟩
  · exact fun _ _ same => same

/-- One rule after another: what the second one has to derive depends on the first one. -/
theorem bind (sound : rule.IsSound derived)
    (rest : ∀ result, (next result).IsSound fun middle last after =>
      ∀ before, derived before result middle → final before last after) :
    (rule >>= next).IsSound final := by
  intro state isEnding
  apply (sound state isEnding).seq
  · rintro result middle ⟨same, holds⟩
    rw [← same] at isEnding
    apply (rest result middle isEnding).imp
    · rintro last after ⟨sameThen, holdsThen⟩
      refine ⟨sameThen.trans same, fun none => ?_⟩
      rcases holdsThen none with ⟨noneBefore, continues⟩
      rcases holds noneBefore with ⟨noneFirst, derives⟩
      exact ⟨noneFirst, continues _ derives⟩
    · exact fun _ _ sameThen => sameThen.trans same
  · exact fun _ _ same => same

theorem pure {result : α} (derives : ∀ position, derived position result position) :
    (Pure.pure result : Rule α).IsSound derived :=
  fun _ _ => ⟨rfl, fun none => ⟨none, derives _⟩⟩

theorem fail (fault : SyntaxFault) : (Grammar.fail fault : Rule α).IsSound derived :=
  fun _ _ => rfl

theorem exhausted : (throw .exhausted : Rule α).IsSound derived :=
  fun _ _ => rfl

end Rule.IsSound

/-! ## Single tokens -/

/-- What a rule finds that may skip a token. -/
inductive Accepted (kind : Kind) : Position → Bool → Position → Prop where
  | read {before after : Position} (skips : Skips kind before after) :
      Accepted kind before true after
  | missing {before : Position} (absent : ¬ before.Sees kind) : Accepted kind before false before

theorem not_sees {kind : Kind} {rest : List Token} {nextId : Nat}
    (missing : rest.head?.any (·.kind.same kind) = false) :
    ¬ Position.Sees kind ⟨rest, nextId⟩ := by
  rintro ⟨after, token, reads⟩
  have first : rest = token :: after.rest := reads.rest
  rw [first, List.head?_cons, Option.any_some, reads.kind, Kind.same_self] at missing
  cases missing

theorem reads_of_same {kind : Kind} (single : kind.IsSingle) {token : Token} {state : State}
    {rest : List Token} (here : state.rest = token :: rest) (same : token.kind.same kind) :
    Reads kind state.position token { state with rest := rest }.position :=
  ⟨here, (Kind.same_iff kind single _).mp same, rfl⟩

theorem sound_peek {next : Token → Rule β} {final : Position → β → Position → Prop}
    (rest : ∀ token, (next token).IsSound fun before result after =>
      before.rest.head? = some token ∨ token.kind.isEnding → final before result after) :
    (peek >>= next).IsSound final := by
  have sound : peek.IsSound fun before token after =>
      after = before ∧ (before.rest.head? = some token ∨ token.kind.isEnding) := by
    intro state isEnding
    apply ends_peek
    refine ⟨rfl, fun none => ⟨none, rfl, ?_⟩⟩
    rw [State.next]
    show state.rest.head? = _ ∨ _
    cases state.rest.head? with
    | none => exact .inr isEnding
    | some token => exact .inl rfl
  apply sound.bind
  intro token
  apply (rest token).imp
  rintro before result after continues _ ⟨rfl, isNext⟩
  exact continues isNext

/-- A token that was looked at is read. -/
theorem sound_skip {kind : Kind} {token : Token} (isOf : token.kind = kind)
    (noEnding : kind.isEnding = false) {next : Unit → Rule β}
    {final : Position → β → Position → Prop}
    (rest : (next ()).IsSound fun middle result after =>
      ∀ before, Reads kind before token middle → final before result after) :
    (skip >>= next).IsSound fun before result after =>
      before.rest.head? = some token ∨ token.kind.isEnding → final before result after := by
  have sound : skip.IsSound fun before _ after =>
      after.rest = before.rest.tail ∧ after.nextId = before.nextId :=
    fun state _ => ends_skip ⟨rfl, fun none => ⟨none, rfl, rfl⟩⟩
  apply sound.bind
  intro _
  apply rest.imp
  rintro middle result after continues before ⟨sameRest, sameId⟩ isNext
  rcases isNext with isNext | isEnding
  · apply continues before
    constructor
    · rw [sameRest]
      rcases before with ⟨_ | ⟨first, others⟩, nextId⟩
      · cases isNext
      · cases isNext
        rfl
    · exact isOf
    · exact sameId
  · rw [isOf, noEnding] at isEnding
    cases isEnding

/-- The next token is read, of which the kind is known. -/
theorem sound_readNext (kind : Kind) :
    skip.IsSound fun before _ after => before.Sees kind → Skips kind before after := by
  intro state _
  apply ends_skip
  refine ⟨rfl, fun none => ⟨none, ?_⟩⟩
  rintro ⟨after, token, reads⟩
  have first : state.rest = token :: after.rest := reads.rest
  refine ⟨token, ?_, reads.kind, rfl⟩
  show state.rest = token :: state.rest.tail
  rw [first, List.tail_cons]

theorem sound_sees (kind : Kind) :
    (sees kind).IsSound fun before found after =>
      after = before ∧ (found = false → ¬ before.Sees kind) := by
  intro state _
  apply ends_sees
  refine ⟨rfl, fun none => ⟨none, rfl, ?_⟩⟩
  exact not_sees

theorem sound_atEnd :
    atEnd.IsSound fun before found after => after = before ∧ found = before.rest.isEmpty :=
  fun _ _ => ends_atEnd ⟨rfl, fun none => ⟨none, rfl, rfl⟩⟩

theorem sound_accept (kind : Kind) (single : kind.IsSingle) :
    (accept kind).IsSound fun before found after =>
      Accepted kind before found.isSome after ∧
        ∀ token, found = some token → Reads kind before token after := by
  intro state _
  apply ends_accept
  · intro token rest here same
    have reads := reads_of_same single here same
    refine ⟨rfl, fun none => ⟨none, .read ⟨token, reads⟩, ?_⟩⟩
    rintro _ ⟨⟩
    exact reads
  · intro missing
    refine ⟨rfl, fun none => ⟨none, .missing (not_sees missing), ?_⟩⟩
    rintro _ ⟨⟩

theorem sound_accepts (kind : Kind) (single : kind.IsSingle) :
    (accepts kind).IsSound (Accepted kind) := by
  apply (sound_accept kind single).bind
  intro found
  apply Rule.IsSound.pure
  rintro after before ⟨accepted, -⟩
  exact accepted

/-- A token of a kind is skipped, or there is none. -/
theorem sound_ifAccepts (kind : Kind) (single : kind.IsSingle) {whenRead whenMissing : Rule β}
    {final : Position → β → Position → Prop}
    (read : whenRead.IsSound fun middle result after =>
      ∀ before, Skips kind before middle → final before result after)
    (missing : whenMissing.IsSound fun before result after =>
      ¬ before.Sees kind → final before result after) :
    (accepts kind >>= fun found => if found = true then whenRead else whenMissing).IsSound
      final := by
  apply (sound_accepts kind single).bind
  intro found
  cases found with
  | true =>
    apply read.imp
    rintro middle result after continues before (skips | _)
    exact continues before skips
  | false =>
    apply missing.imp
    rintro middle result after continues before (_ | absent)
    exact continues absent

theorem sound_demand (kind : Kind) (single : kind.IsSingle) (what : Demand) :
    (demand kind what).IsSound (Reads kind) := by
  apply (sound_accept kind single).bind
  intro found
  cases found with
  | none => exact .fail _
  | some token =>
    apply Rule.IsSound.pure
    rintro after before ⟨-, reads⟩
    exact reads token rfl

theorem sound_demandSymbol (symbol : Symbol) (what : Demand) :
    (demandSymbol symbol what).IsSound fun before _ after => Skips (.symbol symbol) before after := by
  apply (sound_demand (.symbol symbol) trivial what).bind
  intro token
  apply Rule.IsSound.pure
  exact fun after before reads => ⟨token, reads⟩

theorem sound_demandName (what : Demand) : (demandName what).IsSound ReadsName := by
  apply (sound_demand .identifier trivial what).bind
  intro token
  apply Rule.IsSound.pure
  exact fun after before reads => .name reads

theorem sound_freshId : freshId.IsSound Numbers :=
  fun _ _ => ends_freshId ⟨rfl, fun none => ⟨none, rfl, rfl, rfl⟩⟩

/-- A fault that is noted stays. -/
theorem sound_note (token : Token) (fault : SyntaxFault) :
    (note token fault).IsSound fun _ _ _ => False := by
  intro state _
  apply ends_note
  refine ⟨rfl, fun none => ?_⟩
  simp [State.note] at none

theorem sound_recovering {rule : Rule α} {derived : Position → α → Position → Prop}
    (sound : rule.IsSound derived) :
    (recovering rule).IsSound fun before found after =>
      ∃ result, found = some result ∧ derived before result after := by
  intro state isEnding
  apply ends_recovering
  apply (sound state isEnding).imp
  · rintro result after ⟨same, holds⟩
    refine ⟨same, fun none => ?_⟩
    rcases holds none with ⟨noneBefore, derives⟩
    exact ⟨noneBefore, result, rfl, derives⟩
  · intro stop after same
    cases stop with
    | exhausted => exact same
    | mistake error =>
      refine ⟨same, fun none => ?_⟩
      simp [State.note] at none

/-! ## Operators and targets -/

theorem joins_of_ofKind? {kind : Kind} {connective : Connective}
    (found : Connective.ofKind? kind = some connective) :
    Joins connective.level kind connective := by
  cases kind with
  | symbol sign => cases sign <;> cases found <;> constructor
  | keyword word => cases word <;> cases found <;> constructor
  | _ => cases found

theorem precedes_of_unaryOp? {kind : Kind} {op : UnaryOp} (found : unaryOp? kind = some op) :
    Precedes kind op := by
  cases kind with
  | symbol sign => cases sign <;> cases found <;> constructor
  | _ => cases found

theorem tightens_of_tighter? {level tighter : Level} (found : level.tighter? = some tighter) :
    Tightens level tighter := by
  cases level <;> cases found <;> constructor

/-! ## Rules -/

/-- What the rules have read without any fault is derived, within a bound on their calls. -/
structure RulesSound (fuel : Nat) : Prop where
  expression : (expression fuel).IsSound Expression
  operation (level : Level) : (operation fuel level).IsSound (Operation level)
  operationRest (level : Level) (left : Expr) :
    (operationRest fuel level left).IsSound fun middle tree after =>
      ∀ before, Operation level before left middle → Operation level before tree after
  operand (level : Level) : (operand fuel level).IsSound (Operand level)
  unary : (unary fuel).IsSound Unary
  calls (callee : Expr) :
    (calls fuel callee).IsSound fun middle tree after =>
      ∀ before, Call before callee middle → Call before tree after
  arguments : (arguments fuel).IsSound Arguments
  argumentValues (count : Nat) :
    (argumentValues fuel count).IsSound fun before trees after =>
      Values before trees after ∧ count + trees.length ≤ 255
  primary : (primary fuel).IsSound Primary
  functionRest (role : FunctionRole) :
    (functionRest fuel role).IsSound fun middle tree after =>
      ∀ before, Skips (.symbol .leftParen) before middle → Definition before tree after
  namedFunction (role : FunctionRole) : (namedFunction fuel role).IsSound NamedDefinition
  blockRest (breakable : Bool) :
    (blockRest fuel breakable).IsSound fun before trees after =>
      ∃ middle, Declarations breakable before trees middle ∧
        Skips (.symbol .rightBrace) middle after
  declaration (breakable : Bool) :
    (declaration fuel breakable).IsSound (Declaration breakable)
  classRest (breakable : Bool) :
    (classRest fuel).IsSound fun middle tree after =>
      ∀ before, Skips (.keyword .classWord) before middle →
        Declaration breakable before tree after
  methodsRest :
    (methodsRest fuel).IsSound fun before members after =>
      ∃ middle, Methods before members.1 members.2 middle ∧
        Skips (.symbol .rightBrace) middle after
  variableRest :
    (variableRest fuel).IsSound fun middle tree after =>
      ∀ before, Skips (.keyword .varWord) before middle → Variable before tree after
  statement (breakable : Bool) : (statement fuel breakable).IsSound (Statement breakable)
  forRest (breakable : Bool) :
    (forRest fuel).IsSound fun middle tree after =>
      ∀ before, Skips (.keyword .forWord) before middle → Statement breakable before tree after
  forInitial : (forInitial fuel).IsSound ForInitial
  optionalExpression (follower : Symbol) :
    (optionalExpression fuel follower).IsSound OptionalExpression
  expressionStatement : (expressionStatement fuel).IsSound ExpressionStatement

theorem sound_nextConnective? (level : Level) :
    (nextConnective? level).IsSound fun before found after =>
      (found = none → after = before) ∧ ∀ connective line, found = some (connective, line) →
        ∃ kind token, Joins level kind connective ∧ Reads kind before token after ∧
          token.line = line := by
  rw [nextConnective?]
  apply sound_peek
  intro token
  have nothing : (pure none : Rule (Option (Connective × Nat))).IsSound fun before found after =>
      before.rest.head? = some token ∨ token.kind.isEnding →
        (found = none → after = before) ∧ ∀ connective line, found = some (connective, line) →
          ∃ kind token, Joins level kind connective ∧ Reads kind before token after ∧
            token.line = line := by
    apply Rule.IsSound.pure
    intro position _
    exact ⟨fun _ => rfl, fun _ _ impossible => by cases impossible⟩
  split
  · next connective found =>
    have joins := joins_of_ofKind? found
    split
    · next same =>
      rw [same] at joins
      apply sound_skip rfl joins.isEnding_eq
      apply Rule.IsSound.pure
      intro after before reads
      refine ⟨fun impossible => (by cases impossible), ?_⟩
      rintro _ _ ⟨⟩
      exact ⟨_, token, joins, reads, rfl⟩
    · exact nothing
  · exact nothing

theorem sound_nextUnaryOp? :
    nextUnaryOp?.IsSound fun before found after =>
      (found = none → after = before) ∧ ∀ op line, found = some (op, line) →
        ∃ kind token, Precedes kind op ∧ Reads kind before token after ∧ token.line = line := by
  rw [nextUnaryOp?]
  apply sound_peek
  intro token
  split
  · next op found =>
    have precedes := precedes_of_unaryOp? found
    apply sound_skip rfl precedes.isEnding_eq
    apply Rule.IsSound.pure
    intro after before reads
    refine ⟨fun impossible => (by cases impossible), ?_⟩
    rintro _ _ ⟨⟩
    exact ⟨_, token, precedes, reads, rfl⟩
  · apply Rule.IsSound.pure
    intro position _
    exact ⟨fun _ => rfl, fun _ _ impossible => by cases impossible⟩

/-- A list that is full takes nothing more. -/
theorem sound_noteOverflow (count : Nat) (fault : SyntaxFault) :
    (noteOverflow count fault).IsSound fun before _ after => after = before ∧ count < 255 := by
  rw [noteOverflow]
  split
  · apply sound_peek
    intro token
    apply (sound_note token fault).imp
    exact fun _ _ _ impossible => impossible.elim
  · next inBounds =>
    apply Rule.IsSound.pure
    exact fun _ => ⟨rfl, Nat.lt_of_not_le inBounds⟩

theorem sound_parameterNames (fuel count : Nat) :
    (parameterNames fuel count).IsSound fun before texts after =>
      Names before texts after ∧ count + texts.length ≤ 255 := by
  induction fuel generalizing count with
  | zero => exact .exhausted
  | succ fuel induction =>
    rw [parameterNames]
    apply (sound_noteOverflow count _).bind
    intro _
    apply (sound_demandName _).bind
    intro name
    apply sound_ifAccepts (.symbol .comma) trivial
    · apply (induction (count + 1)).bind
      intro others
      apply Rule.IsSound.pure
      rintro after third ⟨names, few⟩ second comma first read before ⟨rfl, -⟩
      refine ⟨.more read comma names, ?_⟩
      rw [List.length_cons]
      omega
    · apply Rule.IsSound.pure
      rintro after - first read before ⟨rfl, few⟩
      exact ⟨.last read, few⟩

theorem sound_parameters (fuel : Nat) : (parameters fuel).IsSound Parameters := by
  rw [parameters]
  apply (sound_sees (.symbol .rightParen)).bind
  intro found
  split
  · apply Rule.IsSound.pure
    rintro after before ⟨rfl, -⟩
    exact .none
  · apply (sound_parameterNames fuel 0).imp
    rintro middle texts after ⟨names, few⟩ before ⟨rfl, -⟩
    rw [Nat.zero_add] at few
    exact .some names few

theorem sound_seesFunctionDeclaration :
    seesFunctionDeclaration.IsSound fun before found after =>
      after = before ∧ (found → before.Sees (.keyword .funWord)) := by
  rintro ⟨_ | ⟨token, _ | ⟨next, rest⟩⟩, ending, nextId, errors⟩ _
  · exact ⟨rfl, fun none => ⟨none, rfl, fun impossible => by cases impossible⟩⟩
  · refine ⟨rfl, fun none => ⟨none, rfl, fun found => ?_⟩⟩
    have isFunction := (Kind.same_iff (.keyword .funWord) trivial _).mp found
    exact ⟨⟨[], nextId⟩, token, rfl, isFunction, rfl⟩
  · refine ⟨rfl, fun none => ⟨none, rfl, fun found => ?_⟩⟩
    have isFunction := (Kind.same_iff (.keyword .funWord) trivial _).mp
      (Bool.and_eq_true_iff.mp found).1
    exact ⟨⟨next :: rest, nextId⟩, token, rfl, isFunction, rfl⟩

/-- A value is assigned to a target, or a fault is noted. -/
theorem sound_assignment (target : Expr) (sign : Token) (value : Expr) :
    (assignment target sign value).IsSound fun before tree after => after = before ∧
      ((∃ reference, target = .read reference ∧ tree = .assign reference value) ∨
        ∃ object text, target = .get object text ∧ tree = .set object text value) := by
  cases target with
  | read reference => exact .pure fun _ => ⟨rfl, .inl ⟨reference, rfl, rfl⟩⟩
  | get object text => exact .pure fun _ => ⟨rfl, .inr ⟨object, text, rfl, rfl⟩⟩
  | _ =>
    apply (sound_note sign _).bind
    intro _
    apply Rule.IsSound.pure
    exact fun _ _ impossible => impossible.elim

section

variable {fuel : Nat}

theorem sound_expression (rules : RulesSound fuel) : (expression (fuel + 1)).IsSound Expression := by
  rw [expression]
  apply (rules.operation .or).bind
  intro target
  apply (sound_accept (.symbol .equal) trivial).bind
  intro sign?
  cases sign? with
  | none =>
    apply Rule.IsSound.pure
    rintro after middle ⟨accepted, -⟩ before derives
    cases accepted
    exact .operation derives
  | some sign =>
    apply rules.expression.bind
    intro value
    apply (sound_assignment target sign value).imp
    rintro after tree _ ⟨rfl, isTarget⟩ second derivesValue first ⟨-, reads⟩ before derives
    have equals := (reads sign rfl).skips
    rcases isTarget with ⟨reference, rfl, rfl⟩ | ⟨object, text, rfl, rfl⟩
    · exact .assign (derives.isCall trivial).of_read equals derivesValue
    · rcases (derives.isCall trivial).of_get with ⟨_, _, isObject, dot, name⟩
      exact .set isObject dot name equals derivesValue

theorem sound_operation (rules : RulesSound fuel) (level : Level) :
    (operation (fuel + 1) level).IsSound (Operation level) := by
  rw [operation]
  apply (rules.operand level).bind
  intro left
  apply (rules.operationRest level left).imp
  intro middle tree after continues before derives
  exact continues before (.operand derives)

theorem sound_operationRest (rules : RulesSound fuel) (level : Level) (left : Expr) :
    (operationRest (fuel + 1) level left).IsSound fun middle tree after =>
      ∀ before, Operation level before left middle → Operation level before tree after := by
  rw [operationRest]
  apply (sound_nextConnective? level).bind
  intro found
  cases found with
  | none =>
    apply Rule.IsSound.pure
    rintro after middle ⟨stays, -⟩ before derives
    rw [stays rfl]
    exact derives
  | some found =>
    rcases found with ⟨connective, line⟩
    apply (rules.operand level).bind
    intro right
    apply (rules.operationRest level (connective.join line left right)).imp
    rintro third tree after continues second derivesRight first ⟨-, finds⟩ before derives
    rcases finds connective line rfl with ⟨kind, token, joins, sign, rfl⟩
    exact continues before (.join derives joins sign derivesRight)

theorem sound_operand (rules : RulesSound fuel) (level : Level) :
    (operand (fuel + 1) level).IsSound (Operand level) := by
  rw [operand]
  split
  · next tighter found =>
    apply (rules.operation tighter).imp
    intro before tree after derives
    exact .tighter (tightens_of_tighter? found) derives
  · next loosest =>
    have isFactor : level = .factor := by
      cases level <;> first | rfl | cases loosest
    subst isFactor
    apply rules.unary.imp
    exact fun _ _ _ derives => .unary derives

theorem sound_unary (rules : RulesSound fuel) : (unary (fuel + 1)).IsSound Unary := by
  rw [unary]
  apply sound_nextUnaryOp?.bind
  intro found
  cases found with
  | none =>
    apply rules.primary.bind
    intro callee
    apply (rules.calls callee).imp
    rintro middle tree after continues first derives before ⟨stays, -⟩
    rw [stays rfl] at derives
    exact .call (continues before (.primary derives))
  | some found =>
    rcases found with ⟨op, line⟩
    apply rules.unary.bind
    intro operand
    apply Rule.IsSound.pure
    rintro after middle derives before ⟨-, finds⟩
    rcases finds op line rfl with ⟨kind, token, precedes, sign, rfl⟩
    exact .operator precedes sign derives

theorem sound_calls (rules : RulesSound fuel) (callee : Expr) :
    (calls (fuel + 1) callee).IsSound fun middle tree after =>
      ∀ before, Call before callee middle → Call before tree after := by
  rw [calls]
  apply sound_ifAccepts (.symbol .leftParen) trivial
  · apply rules.arguments.bind
    intro arguments
    apply (sound_demand (.symbol .rightParen) trivial _).bind
    intro closing
    apply (rules.calls (.call callee closing.line arguments)).imp
    intro fourth tree after continues third reads second values first opening before derives
    exact continues before (.call derives opening values reads)
  · apply sound_ifAccepts (.symbol .dot) trivial
    · apply (sound_demandName _).bind
      intro name
      apply (rules.calls (.get callee name)).imp
      intro third tree after continues second reads first dot _ before derives
      exact continues before (.get derives dot reads)
    · apply Rule.IsSound.pure
      exact fun after _ _ before derives => derives

theorem sound_arguments (rules : RulesSound fuel) :
    (arguments (fuel + 1)).IsSound Arguments := by
  rw [arguments]
  apply (sound_sees (.symbol .rightParen)).bind
  intro none
  split
  · apply Rule.IsSound.pure
    rintro after before ⟨rfl, -⟩
    exact .none
  · apply (rules.argumentValues 0).imp
    rintro middle trees after ⟨values, few⟩ before ⟨rfl, -⟩
    rw [Nat.zero_add] at few
    exact .some values few

theorem sound_argumentValues (rules : RulesSound fuel) (count : Nat) :
    (argumentValues (fuel + 1) count).IsSound fun before trees after =>
      Values before trees after ∧ count + trees.length ≤ 255 := by
  rw [argumentValues]
  apply (sound_noteOverflow count _).bind
  intro _
  apply rules.expression.bind
  intro value
  apply sound_ifAccepts (.symbol .comma) trivial
  · apply (rules.argumentValues (count + 1)).bind
    intro others
    apply Rule.IsSound.pure
    rintro after third ⟨values, few⟩ second comma first derives before ⟨rfl, -⟩
    constructor
    · exact .more derives comma values
    · rw [List.length_cons]
      omega
  · apply Rule.IsSound.pure
    rintro after - first derives before ⟨rfl, few⟩
    exact ⟨.last derives, few⟩

/-- A literal, whatever it denotes. -/
theorem sound_literal {kind : Kind} {token : Token} {value : Literal} (isOf : token.kind = kind)
    (denotes : Denotes kind value) :
    (skip >>= fun _ => (pure (.literal value) : Rule Expr)).IsSound fun before tree after =>
      before.rest.head? = some token ∨ token.kind.isEnding → Primary before tree after := by
  have noEnding : kind.isEnding = false := by
    cases denotes <;> rfl
  apply sound_skip isOf noEnding
  apply Rule.IsSound.pure
  exact fun after before reads => .literal denotes reads

theorem sound_primary (rules : RulesSound fuel) : (primary (fuel + 1)).IsSound Primary := by
  rw [primary]
  apply sound_peek
  intro token
  split
  · next isOf => exact sound_literal isOf .isFalse
  · next isOf => exact sound_literal isOf .isTrue
  · next isOf => exact sound_literal isOf .nil
  · next value isOf => exact sound_literal isOf (.number value)
  · next contents isOf => exact sound_literal isOf (.string contents)
  · next isOf =>
    apply sound_skip isOf rfl
    apply sound_freshId.bind
    intro id
    apply Rule.IsSound.pure
    exact fun after middle numbers before reads => .this reads numbers
  · next isOf =>
    apply sound_skip isOf rfl
    apply (sound_demandSymbol .dot _).bind
    intro _
    apply (sound_demandName _).bind
    intro method
    apply sound_freshId.bind
    intro id
    apply Rule.IsSound.pure
    exact fun after third numbers second name first dot before reads =>
      .super reads dot name numbers
  · next isOf =>
    apply sound_skip isOf rfl
    apply sound_freshId.bind
    intro id
    apply Rule.IsSound.pure
    exact fun after middle numbers before reads => .read (.reference (.name reads) numbers)
  · next isOf =>
    apply sound_skip isOf rfl
    apply rules.expression.bind
    intro inner
    apply (sound_demandSymbol .rightParen _).bind
    intro _
    apply Rule.IsSound.pure
    exact fun after second closing first derives before reads =>
      .group reads.skips derives closing
  · next isOf =>
    apply sound_skip isOf rfl
    apply (sound_demandSymbol .leftParen _).bind
    intro _
    apply (rules.functionRest .function).bind
    intro definition
    apply Rule.IsSound.pure
    exact fun after second continues first opening before reads =>
      .function reads.skips (continues first opening)
  · exact (Rule.IsSound.fail _).imp fun _ _ _ derived _ => derived

theorem sound_functionRest (rules : RulesSound fuel) (role : FunctionRole) :
    (functionRest (fuel + 1) role).IsSound fun middle tree after =>
      ∀ before, Skips (.symbol .leftParen) before middle → Definition before tree after := by
  rw [functionRest]
  apply (sound_parameters fuel).bind
  intro texts
  apply (sound_demandSymbol .rightParen _).bind
  intro _
  apply (sound_demandSymbol .leftBrace _).bind
  intro _
  apply (rules.blockRest false).bind
  intro body
  apply Rule.IsSound.pure
  rintro after third ⟨last, inner, closed⟩ second brace first closing start texts before opening
  exact .function opening texts closing (.block brace inner closed)

theorem sound_namedFunction (rules : RulesSound fuel) (role : FunctionRole) :
    (namedFunction (fuel + 1) role).IsSound NamedDefinition := by
  rw [namedFunction]
  apply (sound_demandName _).bind
  intro name
  apply (sound_demandSymbol .leftParen _).bind
  intro _
  apply (rules.functionRest role).bind
  intro definition
  apply Rule.IsSound.pure
  exact fun after second continues first opening before reads =>
    .function reads (continues first opening)

/-- The end of a list of declarations or methods: nothing is read. -/
theorem sound_atClosing {whenEnds whenGoesOn : Rule β} {final : Position → β → Position → Prop}
    (ends : whenEnds.IsSound final) (goesOn : whenGoesOn.IsSound final) :
    (sees (.symbol .rightBrace) >>= fun closing => atEnd >>= fun ending =>
      if (closing || ending) = true then whenEnds else whenGoesOn).IsSound final := by
  apply (sound_sees (.symbol .rightBrace)).bind
  intro closing
  apply sound_atEnd.bind
  intro ending
  split
  · apply ends.imp
    rintro middle result after derives _ ⟨rfl, -⟩ before ⟨rfl, -⟩
    exact derives
  · apply goesOn.imp
    rintro middle result after derives _ ⟨rfl, -⟩ before ⟨rfl, -⟩
    exact derives

theorem sound_blockRest (rules : RulesSound fuel) (breakable : Bool) :
    (blockRest (fuel + 1) breakable).IsSound fun before trees after =>
      ∃ middle, Declarations breakable before trees middle ∧
        Skips (.symbol .rightBrace) middle after := by
  rw [blockRest]
  apply sound_atClosing
  · apply (sound_demandSymbol .rightBrace _).bind
    intro _
    apply Rule.IsSound.pure
    exact fun after before closing => ⟨before, .nil, closing⟩
  · apply (sound_recovering (rules.declaration breakable)).bind
    intro first
    apply (rules.blockRest breakable).bind
    intro others
    apply Rule.IsSound.pure
    rintro after middle ⟨last, derives, closing⟩ before ⟨tree, rfl, derivesFirst⟩
    exact ⟨last, .cons derivesFirst derives, closing⟩

theorem sound_declaration (rules : RulesSound fuel) (breakable : Bool) :
    (declaration (fuel + 1) breakable).IsSound (Declaration breakable) := by
  rw [declaration]
  apply sound_ifAccepts (.keyword .classWord) trivial
  · apply (rules.classRest breakable).imp
    exact fun _ _ _ continues before word => continues before word
  · apply sound_seesFunctionDeclaration.bind
    intro isFunction
    split
    · next isFunction =>
      apply (sound_readNext (.keyword .funWord)).bind
      intro _
      apply (rules.namedFunction .function).bind
      intro function
      apply Rule.IsSound.pure
      rintro after middle derives first skips before ⟨rfl, sees⟩ _
      exact .funDecl (skips (sees isFunction)) derives
    · apply sound_ifAccepts (.keyword .varWord) trivial
      · apply rules.variableRest.imp
        rintro middle tree after continues first word before ⟨rfl, -⟩ _
        exact .varDecl (continues first word)
      · apply (rules.statement breakable).imp
        rintro first tree after derives _ before ⟨rfl, -⟩ _
        exact .statement derives

theorem sound_superclassClause : superclassClause.IsSound Superclass := by
  rw [superclassClause]
  apply sound_ifAccepts (.symbol .less) trivial
  · apply (sound_demandName _).bind
    intro name
    apply sound_freshId.bind
    intro id
    apply Rule.IsSound.pure
    exact fun after second numbers first reads before sign => .some sign (.reference reads numbers)
  · apply Rule.IsSound.pure
    exact fun _ _ => .none

theorem sound_classRest (rules : RulesSound fuel) (breakable : Bool) :
    (classRest (fuel + 1)).IsSound fun middle tree after =>
      ∀ before, Skips (.keyword .classWord) before middle →
        Declaration breakable before tree after := by
  rw [classRest_eq]
  apply (sound_demandName _).bind
  intro name
  apply sound_superclassClause.bind
  intro superclass
  apply (sound_demandSymbol .leftBrace _).bind
  intro _
  apply rules.methodsRest.bind
  intro members
  apply Rule.IsSound.pure
  rintro after fourth ⟨fifth, inner, closing⟩ third opening second extending first reads before word
  exact .classDecl word reads extending opening inner closing

theorem sound_methodsRest (rules : RulesSound fuel) :
    (methodsRest (fuel + 1)).IsSound fun before members after =>
      ∃ middle, Methods before members.1 members.2 middle ∧
        Skips (.symbol .rightBrace) middle after := by
  rw [methodsRest]
  apply sound_atClosing
  · apply (sound_demandSymbol .rightBrace _).bind
    intro _
    apply Rule.IsSound.pure
    exact fun after before closing => ⟨before, .nil, closing⟩
  · apply sound_ifAccepts (.keyword .classWord) trivial
    · apply (rules.namedFunction .method).bind
      intro first
      apply rules.methodsRest.bind
      intro others
      apply Rule.IsSound.pure
      rintro after third ⟨last, derives, closing⟩ second definition before word
      exact ⟨last, .classMethod word definition derives, closing⟩
    · apply (rules.namedFunction .method).bind
      intro first
      apply rules.methodsRest.bind
      intro others
      apply Rule.IsSound.pure
      rintro after second ⟨last, derives, closing⟩ before definition _
      exact ⟨last, .method definition derives, closing⟩

theorem sound_initialClause (rules : RulesSound fuel) :
    (initialClause fuel).IsSound fun before initial after =>
      (initial = none ∧ after = before) ∨ ∃ middle value, initial = some value ∧
        Skips (.symbol .equal) before middle ∧ Expression middle value after := by
  rw [initialClause]
  apply sound_ifAccepts (.symbol .equal) trivial
  · apply rules.expression.bind
    intro value
    apply Rule.IsSound.pure
    exact fun after middle derives before sign => .inr ⟨middle, value, rfl, sign, derives⟩
  · apply Rule.IsSound.pure
    exact fun _ _ => .inl ⟨rfl, rfl⟩

theorem sound_variableRest (rules : RulesSound fuel) :
    (variableRest (fuel + 1)).IsSound fun middle tree after =>
      ∀ before, Skips (.keyword .varWord) before middle → Variable before tree after := by
  rw [variableRest_eq]
  apply (sound_demandName _).bind
  intro name
  apply (sound_initialClause rules).bind
  intro initial
  apply (sound_demandSymbol .semicolon _).bind
  intro _
  apply Rule.IsSound.pure
  rintro after third ending second (⟨rfl, rfl⟩ | ⟨middle, value, rfl, sign, derives⟩) first reads
    before word
  · exact .bare word reads ending
  · exact .initialised word reads sign derives ending

theorem sound_optionalExpression (rules : RulesSound fuel) (follower : Symbol) :
    (optionalExpression (fuel + 1) follower).IsSound OptionalExpression := by
  rw [optionalExpression]
  apply (sound_sees _).bind
  intro found
  split
  · apply Rule.IsSound.pure
    rintro after before ⟨rfl, -⟩
    exact .none
  · apply rules.expression.bind
    intro value
    apply Rule.IsSound.pure
    rintro after middle derives before ⟨rfl, -⟩
    exact .some derives

theorem sound_expressionStatement (rules : RulesSound fuel) :
    (expressionStatement (fuel + 1)).IsSound ExpressionStatement := by
  rw [expressionStatement]
  apply rules.expression.bind
  intro value
  apply sound_atEnd.bind
  intro ending
  split
  · next isEnding =>
    apply Rule.IsSound.pure
    rintro after middle ⟨rfl, same⟩ before derives
    rw [isEnding] at same
    exact .last derives (List.isEmpty_iff.mp same.symm)
  · apply (sound_demandSymbol .semicolon _).bind
    intro _
    apply Rule.IsSound.pure
    rintro after middle closing first ⟨rfl, -⟩ before derives
    exact .closed derives closing

theorem sound_forInitial (rules : RulesSound fuel) : (forInitial (fuel + 1)).IsSound ForInitial := by
  rw [forInitial]
  apply sound_ifAccepts (.symbol .semicolon) trivial
  · apply Rule.IsSound.pure
    exact fun after before ending => .none ending
  · apply sound_ifAccepts (.keyword .varWord) trivial
    · apply rules.variableRest.bind
      intro tree
      apply Rule.IsSound.pure
      exact fun after middle continues before word _ => .varDecl (continues before word)
    · apply rules.expressionStatement.bind
      intro tree
      apply Rule.IsSound.pure
      exact fun after before derives _ _ => .expression derives

theorem sound_forRest (rules : RulesSound fuel) (breakable : Bool) :
    (forRest (fuel + 1)).IsSound fun middle tree after =>
      ∀ before, Skips (.keyword .forWord) before middle → Statement breakable before tree after := by
  rw [forRest]
  apply (sound_demandSymbol .leftParen _).bind
  intro _
  apply rules.forInitial.bind
  intro initial
  apply (rules.optionalExpression .semicolon).bind
  intro condition
  apply (sound_demandSymbol .semicolon _).bind
  intro _
  apply (rules.optionalExpression .rightParen).bind
  intro increment
  apply (sound_demandSymbol .rightParen _).bind
  intro _
  apply (rules.statement true).bind
  intro body
  apply Rule.IsSound.pure
  exact fun after seventh derivesBody sixth closing fifth derivesStep fourth separator third
    derivesTest second derivesStart first opening before word =>
      .forLoop word opening derivesStart derivesTest separator derivesStep closing derivesBody

theorem sound_statement (rules : RulesSound fuel) (breakable : Bool) :
    (statement (fuel + 1) breakable).IsSound (Statement breakable) := by
  rw [statement]
  apply sound_peek
  intro token
  split
  · next isOf =>
    apply sound_skip isOf rfl
    apply (rules.forRest breakable).imp
    exact fun middle tree after continues before reads => continues before reads.skips
  · next isOf =>
    apply sound_skip isOf rfl
    apply (sound_demandSymbol .leftParen _).bind
    intro _
    apply rules.expression.bind
    intro condition
    apply (sound_demandSymbol .rightParen _).bind
    intro _
    apply (rules.statement breakable).bind
    intro whenTrue
    apply sound_ifAccepts (.keyword .elseWord) trivial
    · apply (rules.statement breakable).bind
      intro whenFalse
      apply Rule.IsSound.pure
      exact fun after sixth derivesFalse fifth otherwise fourth derivesTrue third closing second
        derivesTest first opening before reads =>
          .ifElse reads.skips opening derivesTest closing derivesTrue otherwise derivesFalse
    · apply Rule.IsSound.pure
      exact fun after alone fourth derivesTrue third closing second derivesTest first opening before
        reads => .ifOnly reads.skips opening derivesTest closing derivesTrue alone
  · next isOf =>
    apply sound_skip isOf rfl
    apply (sound_demandSymbol .leftParen _).bind
    intro _
    apply rules.expression.bind
    intro condition
    apply (sound_demandSymbol .rightParen _).bind
    intro _
    apply (rules.statement true).bind
    intro body
    apply Rule.IsSound.pure
    exact fun after fourth derivesBody third closing second derivesTest first opening before reads =>
      .whileLoop reads.skips opening derivesTest closing derivesBody
  · next isOf =>
    apply sound_skip isOf rfl
    apply (rules.optionalExpression .semicolon).bind
    intro value
    apply (sound_demandSymbol .semicolon _).bind
    intro _
    apply Rule.IsSound.pure
    exact fun after second ending first derives before reads => .returnValue reads derives ending
  · next isOf =>
    apply sound_skip isOf rfl
    cases breakable with
    | true =>
      apply (sound_demandSymbol .semicolon _).bind
      intro _
      apply Rule.IsSound.pure
      exact fun after middle ending before reads => .breakLoop reads ending
    | false =>
      apply sound_peek
      intro place
      apply (sound_note place _).bind
      intro _
      apply (sound_demandSymbol .semicolon _).bind
      intro _
      apply Rule.IsSound.pure
      exact fun _ _ _ _ impossible => impossible.elim
  · next isOf =>
    apply sound_skip isOf rfl
    apply (rules.blockRest breakable).bind
    intro body
    apply Rule.IsSound.pure
    rintro after first ⟨last, inner, closing⟩ before reads
    exact .block (.block reads.skips inner closing)
  · next isOf =>
    apply sound_skip isOf rfl
    apply rules.expression.bind
    intro value
    apply (sound_demandSymbol .semicolon _).bind
    intro _
    apply Rule.IsSound.pure
    exact fun after second ending first derives before reads => .print reads.skips derives ending
  · apply rules.expressionStatement.imp
    exact fun before tree after derives _ => .expression derives

/-- Whatever the rules read without any fault is derived. -/
theorem rulesSound : ∀ fuel, RulesSound fuel
  | 0 => by
    constructor <;> intros <;> exact .exhausted
  | fuel + 1 =>
    have rules := rulesSound fuel
    { expression := sound_expression rules
      operation := sound_operation rules
      operationRest := sound_operationRest rules
      operand := sound_operand rules
      unary := sound_unary rules
      calls := sound_calls rules
      arguments := sound_arguments rules
      argumentValues := sound_argumentValues rules
      primary := sound_primary rules
      functionRest := sound_functionRest rules
      namedFunction := sound_namedFunction rules
      blockRest := sound_blockRest rules
      declaration := sound_declaration rules
      classRest := sound_classRest rules
      methodsRest := sound_methodsRest rules
      variableRest := sound_variableRest rules
      statement := sound_statement rules
      forRest := sound_forRest rules
      forInitial := sound_forInitial rules
      optionalExpression := sound_optionalExpression rules
      expressionStatement := sound_expressionStatement rules }

/-- What is read up to the end of the input without any fault is derived. -/
theorem sound_declarations (fuel : Nat) :
    (declarations fuel).IsSound fun before trees after =>
      Declarations false before trees after ∧ trees ≠ [] ∧ after.rest = [] := by
  induction fuel with
  | zero => exact .exhausted
  | succ fuel induction =>
    rw [declarations]
    apply (sound_recovering ((rulesSound fuel).declaration false)).bind
    intro first
    apply sound_atEnd.bind
    intro ending
    split
    · next isEnding =>
      apply Rule.IsSound.pure
      rintro after middle ⟨rfl, same⟩ before ⟨tree, rfl, derives⟩
      rw [isEnding] at same
      exact ⟨.cons derives .nil, List.cons_ne_nil _ _, List.isEmpty_iff.mp same.symm⟩
    · apply induction.bind
      intro others
      apply Rule.IsSound.pure
      rintro after second ⟨derives, -, atEnd⟩ middle ⟨rfl, -⟩ before ⟨tree, rfl, derivesFirst⟩
      exact ⟨.cons derivesFirst derives, List.cons_ne_nil _ _, atEnd⟩

end

end Lox.Grammar
