import Lox.Proofs.Renaming.Grammar
import Lox.Proofs.Renaming.Scope
import Lox.Proofs.Scope.Resolution
import Lox.Proofs.Spelling.Grammar
import Lox.Proofs.Spelling.Scope
import Lox.Proofs.Spelling.Value

/-!
# Replacing the name of a local variable

Where the name of a local variable stands in a program: where it is declared, and where it is used
and this variable is meant (`Program.positions`).  To tell two names apart that are spelt alike,
each token is numbered first, and its number takes the place of its line.  A word that no name is
spelt like can take the place of the name everywhere there (`isConsistent_replacing`), and this
does not matter when the program runs (`agrees_replacing`).
-/

namespace Lox

/-! ## Numbered tokens -/

namespace Token

/-- Tokens that are on the lines of their positions. -/
def number (tokens : List Token) : List Token :=
  tokens.mapIdx fun position token => ⟨token.kind, token.lexeme, position⟩

/-- The line of the token in a position. -/
def lineAt (tokens : List Token) (position : Nat) : Nat :=
  (tokens[position]?.map Token.line).getD 0

theorem move_number (tokens : List Token) :
    (number tokens).map (Token.move (lineAt tokens)) = tokens := by
  apply List.ext_getElem?
  intro position
  rw [number, List.getElem?_map, List.getElem?_mapIdx]
  cases found : tokens[position]? with
  | none => rfl
  | some token => simp [Token.move, lineAt, found]

theorem nodup_line_number (tokens : List Token) : ((number tokens).map Token.line).Nodup := by
  have lines : (number tokens).map Token.line = List.range tokens.length := by
    apply List.ext_getElem <;> simp [number]
  rw [lines]
  exact List.nodup_range

theorem exists_of_mem_number {tokens : List Token} {token : Token} (member : token ∈ number tokens) :
    ∃ original ∈ tokens, original.kind = token.kind ∧ original.lexeme = token.lexeme := by
  rcases List.mem_mapIdx.mp member with ⟨position, inside, rfl⟩
  exact ⟨tokens[position], List.getElem_mem inside, rfl, rfl⟩

end Token

/-! ## Uses and their names -/

/-- All uses of variables among some mentions are among some uses, under their names. -/
def Covers (mentions : List Mention) (uses : List Occurrence) : Prop :=
  ∀ target, .use target ∈ mentions → ∃ use ∈ uses, use.id = target.id ∧
    use.name = target.name.text

namespace Covers

variable {first second : List Mention} {uses uses' : List Occurrence}

theorem nil : Covers [] uses := by
  intro target impossible
  cases impossible

theorem append (covers : Covers first uses) (covers' : Covers second uses') :
    Covers (first ++ second) (uses ++ uses') := by
  intro target member
  rcases List.mem_append.mp member with member | member
  · rcases covers target member with ⟨use, isUse, same⟩
    exact ⟨use, List.mem_append_left _ isUse, same⟩
  · rcases covers' target member with ⟨use, isUse, same⟩
    exact ⟨use, List.mem_append_right _ isUse, same⟩

theorem swap (covers : Covers first uses) (covers' : Covers second uses') :
    Covers (second ++ first) (uses ++ uses') := by
  intro target member
  apply covers.append covers' target
  rw [List.mem_append] at member ⊢
  exact member.symm

theorem cons_declared {mention : Mention} {name : Name} (declared : mention.declared? = some name)
    (covers : Covers first uses) : Covers (mention :: first) uses := by
  intro target member
  rcases List.mem_cons.mp member with rfl | member
  · cases declared
  · exact covers target member

theorem reference (scopes : Scopes) (target : Reference) :
    Covers [.use target] [target.occurrence scopes] := by
  intro other member
  cases List.mem_singleton.mp member
  exact ⟨_, List.mem_cons_self, rfl, rfl⟩

end Covers

mutual

theorem Expr.covers (around : Surroundings) (scopes : Scopes) : ∀ expression : Expr,
    Covers expression.mentions (expression.occurrences around scopes)
  | .literal _ => .nil
  | .group inner => inner.covers around scopes
  | .unary _ _ operand => operand.covers around scopes
  | .binary _ _ left right => (left.covers around scopes).append (right.covers around scopes)
  | .logical _ _ left right => (left.covers around scopes).append (right.covers around scopes)
  | .read target => .reference scopes target
  | .assign target value => (value.covers around scopes).swap (.reference scopes target)
  | .call callee _ arguments =>
    (callee.covers around scopes).append (Expr.coversAll around scopes arguments)
  | .function definition => definition.covers around scopes
  | .get object name => by
    have label : Covers [.label name] [] := Covers.nil.cons_declared rfl
    have covers := (object.covers around scopes).append label
    rw [List.append_nil] at covers
    exact covers
  | .set object _ value =>
    (object.covers around scopes).append ((value.covers around scopes).cons_declared rfl)
  | .this _ _ => .nil
  | .super _ _ _ => Covers.nil.cons_declared rfl

theorem Expr.coversAll (around : Surroundings) (scopes : Scopes) : ∀ expressions : List Expr,
    Covers (Expr.mentionsAll expressions) (Expr.occurrencesAll around scopes expressions)
  | [] => .nil
  | first :: others => (first.covers around scopes).append (Expr.coversAll around scopes others)

theorem Function.covers (around : Surroundings) (scopes : Scopes) : ∀ definition : Function,
    Covers definition.mentions (definition.occurrences around scopes)
  | .mk parameters body => by
    have names : Covers (parameters.map .parameter) [] := by
      intro target member
      rcases List.mem_map.mp member with ⟨_, _, ⟨⟩⟩
    exact names.append (Stmt.coversAll around _ true body)

theorem NamedFunction.coversAll (around : Surroundings) (scopes : Scopes) :
    ∀ functions : List NamedFunction,
      Covers (NamedFunction.mentionsAll functions)
        (NamedFunction.occurrencesAll around scopes functions)
  | [] => .nil
  | .mk _ definition :: others => Covers.cons_declared rfl
    ((definition.covers around scopes).append (NamedFunction.coversAll around scopes others))

theorem Stmt.covers (around : Surroundings) (scopes : Scopes) (isLocal : Bool) :
    ∀ statement : Stmt,
      Covers (statement.mentions isLocal) (statement.occurrences around scopes)
  | .expression value => value.covers around scopes
  | .print value => value.covers around scopes
  | .varDecl _ none => Covers.nil.cons_declared rfl
  | .varDecl _ (some initial) => (initial.covers around _).cons_declared rfl
  | .block body => Stmt.coversAll around _ true body
  | .ifElse condition whenTrue none =>
    (condition.covers around scopes).append (whenTrue.covers around scopes isLocal)
  | .ifElse condition whenTrue (some whenFalse) =>
    ((condition.covers around scopes).append (whenTrue.covers around scopes isLocal)).append
      (whenFalse.covers around _ isLocal)
  | .whileLoop condition body =>
    (condition.covers around scopes).append (body.covers around scopes isLocal)
  | .breakLoop _ => .nil
  | .funDecl (.mk _ definition) => (definition.covers around _).cons_declared rfl
  | .returnValue _ none => .nil
  | .returnValue _ (some value) => value.covers around scopes
  | .classDecl name superclass methods classMethods => by
    have extended : Covers (superclass.toList.map .use)
        (superclass.toList.map (Reference.occurrence (scopes.declare [.named name]))) := by
      cases superclass with
      | none => exact .nil
      | some target => exact .reference _ target
    have members := (NamedFunction.coversAll .classMethod
      ((scopes.declare [.named name]).ofClass superclass) classMethods).swap
        (NamedFunction.coversAll (.method superclass.isSome)
          ([.this] :: (scopes.declare [.named name]).ofClass superclass) methods)
    rw [Stmt.occurrences, List.append_assoc]
    exact (extended.append members).cons_declared rfl

theorem Stmt.coversAll (around : Surroundings) (scopes : Scopes) (isLocal : Bool) :
    ∀ statements : List Stmt,
      Covers (Stmt.mentionsAll isLocal statements) (Stmt.occurrencesAll around scopes statements)
  | [] => .nil
  | first :: others =>
    (first.covers around scopes isLocal).append (Stmt.coversAll around _ isLocal others)

end

/-! ## The names of a local variable -/

/-- The local that a use means has its name. -/
theorem Occurrence.text_of_target? {use : Occurrence} {declared : Local}
    (means : use.target? = some declared) : declared.text = use.name := by
  rcases Option.bind_eq_some_iff.mp means with ⟨address, found, inScopes⟩
  rcases Option.bind_eq_some_iff.mp inScopes with ⟨locals, here, member⟩
  rcases Occurrence.exists_local_of_address? found with
    ⟨locals', declared', here', member', text⟩
  cases here.symm.trans here'
  cases member.symm.trans member'
  exact text

/-- A name is that of a variable: it is the declaration itself, or a use that means it. -/
def Mention.isOf (uses : List Occurrence) (chosen : Name) : Mention → Bool
  | declaration name _ => name == chosen
  | parameter name => name == chosen
  | use target => uses.any fun use =>
    use.id == target.id && use.target? == some (.named chosen)
  | label _ => false

namespace Program

/-- A local variable is declared: in a scope, or as a parameter. -/
def DeclaresLocal (program : List Stmt) (chosen : Name) : Prop :=
  .declaration chosen true ∈ mentions program ∨ .parameter chosen ∈ mentions program

instance (program : List Stmt) (chosen : Name) : Decidable (DeclaresLocal program chosen) :=
  inferInstanceAs (Decidable (_ ∨ _))

/-- The lines of the names of a variable. -/
def positions (program : List Stmt) (chosen : Name) : List Nat :=
  ((mentions program).filter (Mention.isOf (occurrences program) chosen)).map (·.name.line)

/-- What holds of a program if each name is on a line of its own. -/
structure IsNumbered (program : List Stmt) : Prop where
  lines : ((mentions program).map (·.name.line)).Nodup
  ids : ((occurrences program).map Occurrence.id).Nodup
  plain : ∀ mention ∈ mentions program, IsPlainName mention.name.text

end Program

/-- A word takes the place of the names on some lines, and lines are changed. -/
def Spelling.replacing (word : String) (positions : List Nat) (line : Nat → Nat) : Spelling :=
  ⟨fun name => if name.line ∈ positions then word else name.text, line⟩

namespace Program.IsNumbered

variable {program : List Stmt} {chosen : Name} (numbered : Program.IsNumbered program)
include numbered

theorem eq_of_line_eq {first second : Mention} (isFirst : first ∈ Program.mentions program)
    (isSecond : second ∈ Program.mentions program)
    (same : first.name.line = second.name.line) : first = second :=
  List.inj_on_of_nodup_map numbered.lines isFirst isSecond same

theorem mem_positions_iff {mention : Mention} (member : mention ∈ Program.mentions program) :
    mention.name.line ∈ Program.positions program chosen ↔
      mention.isOf (Program.occurrences program) chosen := by
  constructor
  · intro isThere
    rcases List.mem_map.mp isThere with ⟨other, isOther, same⟩
    rw [List.mem_filter] at isOther
    rw [← numbered.eq_of_line_eq isOther.1 member same]
    exact isOther.2
  · intro isOf
    exact List.mem_map_of_mem (List.mem_filter.mpr ⟨member, isOf⟩)

/-- A use is one of a variable exactly if it means the variable. -/
theorem isOf_use_iff {target : Reference} {use : Occurrence}
    (isUse : use ∈ Program.occurrences program) (same : use.id = target.id) :
    (Mention.use target).isOf (Program.occurrences program) chosen ↔
      use.target? = some (.named chosen) := by
  simp only [Mention.isOf, List.any_eq_true, Bool.and_eq_true, beq_iff_eq]
  constructor
  · rintro ⟨other, isOther, id, means⟩
    rwa [← List.inj_on_of_nodup_map numbered.ids isOther isUse (id.trans same.symm)]
  · intro means
    exact ⟨use, isUse, same, means⟩

/-- A use has the name under which it is looked up. -/
theorem name_use {target : Reference} (mentioned : .use target ∈ Program.mentions program)
    {use : Occurrence} (isUse : use ∈ Program.occurrences program) (same : use.id = target.id) :
    use.name = target.name.text := by
  rcases Stmt.coversAll .outside [] false program target mentioned with
    ⟨other, isOther, id, name⟩
  rwa [← List.inj_on_of_nodup_map numbered.ids isOther isUse (id.trans same.symm)]

/-- All names of a variable are spelt alike. -/
theorem text_of_isOf {mention : Mention} (member : mention ∈ Program.mentions program)
    (isOf : mention.isOf (Program.occurrences program) chosen) :
    mention.name.text = chosen.text := by
  cases mention with
  | declaration name isLocal => rw [eq_of_beq isOf]; rfl
  | parameter name => rw [eq_of_beq isOf]; rfl
  | use target =>
    simp only [Mention.isOf, List.any_eq_true, Bool.and_eq_true, beq_iff_eq] at isOf
    rcases isOf with ⟨use, isUse, id, means⟩
    exact (numbered.name_use member isUse id).symm.trans (Occurrence.text_of_target? means).symm
  | label name => cases isOf

theorem mem_positions_self (isLocal : Program.DeclaresLocal program chosen) :
    chosen.line ∈ Program.positions program chosen := by
  rcases isLocal with declared | isParameter
  · exact (numbered.mem_positions_iff declared).mpr (beq_self_eq_true chosen)
  · exact (numbered.mem_positions_iff isParameter).mpr (beq_self_eq_true chosen)

/-- A name that is declared on one of the lines is the variable. -/
theorem eq_of_declared {name : Name} (declared : name.IsDeclared (Program.mentions program))
    (isThere : name.line ∈ Program.positions program chosen) : name = chosen := by
  rcases declared with ⟨mention, member, declares⟩
  have isName := mention.name_of_declared? declares
  rw [← isName] at isThere
  have isOf := (numbered.mem_positions_iff member).mp isThere
  cases mention with
  | declaration | parameter =>
    cases declares
    exact eq_of_beq isOf
  | use => cases declares
  | label => cases isOf

variable {word : String} {line : Nat → Nat}

/-- A new word in the place of the name of a local variable does not change what any use means. -/
theorem isConsistent_replacing (isLocal : Program.DeclaresLocal program chosen)
    (isPlain : IsPlainName word)
    (fresh : ∀ mention ∈ Program.mentions program, mention.name.text ≠ word) :
    (Spelling.replacing word (Program.positions program chosen) line).IsConsistent
      (Program.mentions program) (Program.occurrences program) := by
  constructor
  · intro first isFirst second isSecond same
    simp only [Spelling.replacing, numbered.mem_positions_iff isFirst,
      numbered.mem_positions_iff isSecond] at same
    split at same
    · next ofFirst =>
      split at same
      · next ofSecond =>
        exact (numbered.text_of_isOf isFirst ofFirst).trans
          (numbered.text_of_isOf isSecond ofSecond).symm
      · exact absurd same.symm (fresh second isSecond)
    · split at same
      · exact absurd same (fresh first isFirst)
      · exact same
  · intro mention member
    refine ⟨numbered.plain mention member, ?_⟩
    simp only [Spelling.replacing]
    split
    · exact isPlain
    · exact numbered.plain mention member
  · intro name member
    have other : name.line ∉ Program.positions program chosen := by
      intro isThere
      cases (numbered.mem_positions_iff member).mp isThere
    exact if_neg other
  · intro target mentioned use isUse id name declared means
    have iff : target.name.line ∈ Program.positions program chosen ↔
        name.line ∈ Program.positions program chosen := by
      rw [show target.name.line = (Mention.use target).name.line from rfl,
        numbered.mem_positions_iff mentioned, numbered.isOf_use_iff isUse id, means]
      constructor
      · rintro ⟨⟩
        exact numbered.mem_positions_self isLocal
      · intro isThere
        rw [numbered.eq_of_declared declared isThere]
    have text : target.name.text = name.text :=
      (numbered.name_use mentioned isUse id).symm.trans (Occurrence.text_of_target? means).symm
    simp only [Spelling.replacing, iff, text]

variable (word line) in
/-- The new word stands for the name of a variable that is found at a recorded place. -/
theorem agrees_replacing (isLocal : Program.DeclaresLocal program chosen)
    {addresses : AddressTable} (recorded : ∀ use ∈ Program.occurrences program,
      use.address?.isSome → addresses[use.id]?.isSome) :
    Spelling.Agrees ⟨addresses, fun text text' => text = chosen.text ∧ text' = word⟩
      ⟨Name.text, line⟩ (.replacing word (Program.positions program chosen) line)
      (Program.mentions program) := by
  refine ⟨rfl, ?_⟩
  intro mention member
  have same : ∀ name : Name, name = mention.name →
      ¬ mention.isOf (Program.occurrences program) chosen → name.text =
        (Spelling.replacing word (Program.positions program chosen) line).text name := by
    rintro name rfl notOf
    exact (if_neg (mt (numbered.mem_positions_iff member).mp notOf)).symm
  cases mention with
  | declaration name inScope =>
    by_cases isOf : (Mention.declaration name inScope).isOf (Program.occurrences program) chosen
    · left
      obtain rfl : name = chosen := eq_of_beq isOf
      rcases isLocal with declared | isParameter
      · cases numbered.eq_of_line_eq member declared rfl
        rfl
      · cases numbered.eq_of_line_eq member isParameter rfl
    · exact .inr (same name rfl isOf)
  | parameter name => trivial
  | use target =>
    by_cases isOf : (Mention.use target).isOf (Program.occurrences program) chosen
    · right
      have text := numbered.text_of_isOf member isOf
      have isThere := (numbered.mem_positions_iff member).mpr isOf
      rcases Stmt.coversAll .outside [] false program target member with ⟨use, isUse, id, -⟩
      have means := (numbered.isOf_use_iff isUse id).mp isOf
      refine ⟨?_, text, if_pos isThere⟩
      rw [← id]
      apply recorded use isUse
      rcases Option.bind_eq_some_iff.mp means with ⟨address, found, -⟩
      rw [found]
      rfl
    · exact .inl (same target.name rfl isOf)
  | label name => exact same name rfl (by simp [Mention.isOf])

end Program.IsNumbered

end Lox
