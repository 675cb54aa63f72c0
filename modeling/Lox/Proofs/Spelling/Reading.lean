import Lox.Proofs.Session.Line
import Lox.Proofs.Source.Replacing
import Lox.Proofs.Spelling.Local
import Lox.Proofs.Spelling.Rules

/-!
# Source texts with another name for a local variable

A source text without errors is read a second time with each of its tokens on a line of its own
(`Reading.numbered`), so that the names in its program can be told apart.  If the name of a local
variable is replaced, the text has no errors, too, and the same places of local variables are found
(`Reading.ofSource_replaceNames`).
-/

namespace Lox

/-! ## Tokens -/

namespace Token

/-- Only lines are changed. -/
theorem spell_text (line : Nat → Nat) : spell ⟨Name.text, line⟩ = move line := by
  funext token
  rcases token with ⟨kind, lexeme, number⟩
  cases kind <;> rfl

theorem spell_number (line : Nat → Nat) (tokens : List Token)
    (same : line = lineAt tokens) : (number tokens).map (spell ⟨Name.text, line⟩) = tokens := by
  rw [spell_text, same, move_number]

theorem getElem?_replaceAll (word : String) (positions : List Nat) (position : Nat)
    (tokens : List Token) (index : Nat) :
    (replaceAll word positions position tokens)[index]? = tokens[index]?.map fun token =>
      if position + index ∈ positions then token.replaceName word else token := by
  induction tokens generalizing position index with
  | nil => rfl
  | cons first others induction =>
    cases index with
    | zero => rfl
    | succ index =>
      rw [replaceAll, List.getElem?_cons_succ, List.getElem?_cons_succ, induction]
      simp only [Nat.add_assoc, Nat.add_comm 1]

/-- Tokens with other names are spelt so. -/
theorem spell_replacing (word : String) (positions : List Nat) (tokens : List Token) :
    (number tokens).map (spell (.replacing word positions (lineAt tokens))) =
      replaceAll word positions 0 tokens := by
  apply List.ext_getElem?
  intro position
  rw [getElem?_replaceAll, number, List.getElem?_map, List.getElem?_mapIdx, Nat.zero_add]
  cases found : tokens[position]? with
  | none => rfl
  | some token =>
    have line : lineAt tokens position = token.line := by simp [lineAt, found]
    rcases token with ⟨kind, lexeme, number⟩
    cases kind with
    | identifier =>
      simp only [Option.map_some, spell, Spelling.replacing, line, replaceName]
      split <;> rfl
    | symbol | keyword | string | number | ending =>
      simp only [Option.map_some, spell, Spelling.replacing, line, replaceName, ite_self]

end Token

namespace Token

theorem sublist_line_names (tokens : List Token) :
    ((tokens.filterMap name?).map Name.line).Sublist (tokens.map Token.line) := by
  induction tokens with
  | nil => exact List.Sublist.refl _
  | cons first others induction =>
    rcases first with ⟨kind, lexeme, line⟩
    cases kind with
    | identifier => exact induction.cons_cons line
    | symbol | keyword | string | number | ending => exact induction.cons line

theorem eq_of_name? {token : Token} {name : Name} (isName : token.name? = some name) :
    token.kind = .identifier ∧ token.lexeme = name.text := by
  rcases token with ⟨kind, lexeme, line⟩
  cases kind <;> cases isName
  exact ⟨rfl, rfl⟩

end Token

/-! ## Readings -/

namespace Reading

/-- The program of a source text with each token on a line of its own. -/
def numbered (firstId : Nat) (source : String) : List Stmt :=
  (Grammar.parse firstId (Token.number (Item.tokens (Item.scan source)))).statements

/-- The same is read, without errors, and the program is the same but for its lines. -/
theorem ofSource_eq_renameAll (firstId : Nat) (source : String) :
    let tokens := Item.tokens (Item.scan source)
    let parsed := Grammar.parse firstId (Token.number tokens)
    (ofSource firstId source).syntaxErrors =
        parsed.errors.map (SyntaxError.move (Token.lineAt tokens)) ∧
      (ofSource firstId source).statements =
        Stmt.renameAll (Shift.renaming ⟨0, Token.lineAt tokens⟩) (numbered firstId source) ∧
      (ofSource firstId source).nextId = parsed.nextId := by
  intro tokens parsed
  have closed : (Token.number tokens).any (·.kind.isEnding) := by
    have closed : tokens.any (·.kind.isEnding) := Item.any_isEnding_tokens 1 _
    rw [← Token.move_number tokens, List.any_map] at closed
    exact closed
  have moved := Grammar.parse_move ⟨0, Token.lineAt tokens⟩ firstId closed
  rw [Token.move_number tokens] at moved
  have reads : Grammar.parse firstId tokens =
      ⟨Stmt.renameAll (Shift.renaming ⟨0, Token.lineAt tokens⟩) (numbered firstId source),
        parsed.errors.map (SyntaxError.move (Token.lineAt tokens)), parsed.nextId⟩ := moved
  rw [ofSource, reads]
  exact ⟨rfl, rfl, rfl⟩

section

variable {firstId : Nat} {source : String} (sound : (ofSource firstId source).IsSound)
include sound

theorem errors_parse_number :
    (Grammar.parse firstId (Token.number (Item.tokens (Item.scan source)))).errors = [] := by
  have none := List.map_eq_nil_iff.mp (List.append_eq_nil_iff.mp sound.1).2
  rw [(ofSource_eq_renameAll firstId source).1] at none
  exact List.map_eq_nil_iff.mp none

/-- The program is spelt like the numbered one, on other lines. -/
theorem statements_eq_spellAll : (ofSource firstId source).statements =
    Stmt.spellAll ⟨Name.text, Token.lineAt (Item.tokens (Item.scan source))⟩
      (numbered firstId source) := by
  have parsed := Grammar.parse_spell
    ⟨Name.text, Token.lineAt (Item.tokens (Item.scan source))⟩ (errors_parse_number sound)
  rw [Token.spell_text, Token.move_number] at parsed
  exact congrArg Grammar.Parsed.statements parsed

/-- Nothing is wrong with the numbered program, and the same places are found. -/
theorem resolve_numbered : resolve (numbered firstId source) =
    ⟨[], (resolve (ofSource firstId source).statements).bindings⟩ := by
  have none := sound.2
  have renamed := resolve_rename
    (Shift.renaming ⟨0, Token.lineAt (Item.tokens (Item.scan source))⟩) (numbered firstId source)
  rw [← (ofSource_eq_renameAll firstId source).2.1] at renamed
  rw [renamed] at none ⊢
  have same : (resolve (numbered firstId source)).bindings.map (Binding.rename
      (Shift.renaming ⟨0, Token.lineAt (Item.tokens (Item.scan source))⟩)) =
        (resolve (numbered firstId source)).bindings := List.map_id _
  rw [same, ← List.map_eq_nil_iff.mp none]

theorem spans_numbered :
    ((Program.mentions (numbered firstId source)).map Mention.name).Subperm
      ((Token.number (Item.tokens (Item.scan source))).filterMap Token.name?) := by
  have spans := (Grammar.program_of_parse firstId _ (errors_parse_number sound)).spans
  have within : (Grammar.State.start firstId
      (Token.number (Item.tokens (Item.scan source)))).rest.Sublist
        (Token.number (Item.tokens (Item.scan source))) := List.takeWhile_sublist _
  exact spans.trans (within.filterMap _).subperm

/-- The names in the program are those of tokens. -/
theorem exists_token_of_mem_mentions {mention : Mention}
    (member : mention ∈ Program.mentions (numbered firstId source)) :
    ∃ token ∈ Item.tokens (Item.scan source),
      token.kind = .identifier ∧ token.lexeme = mention.name.text := by
  have isName := (spans_numbered sound).subset (List.mem_map_of_mem member)
  rcases List.mem_filterMap.mp isName with ⟨token, isToken, name⟩
  rcases Token.exists_of_mem_number isToken with ⟨original, isOriginal, kind, lexeme⟩
  rcases Token.eq_of_name? name with ⟨kind', lexeme'⟩
  exact ⟨original, isOriginal, kind.trans kind', lexeme.trans lexeme'⟩

theorem isNumbered_numbered : Program.IsNumbered (numbered firstId source) := by
  constructor
  · rcases spans_numbered sound with ⟨names, same, fewer⟩
    have lines : (names.map Name.line).Nodup :=
      (Token.nodup_line_number _).sublist ((fewer.map Name.line).trans (Token.sublist_line_names _))
    have distinct := (same.map Name.line).nodup_iff.mp lines
    rwa [List.map_map] at distinct
  · exact nodup_id_occurrences firstId _
  · intro mention member
    rcases exists_token_of_mem_mentions sound member with ⟨token, isToken, kind, lexeme⟩
    rw [← lexeme]
    apply Item.named_scan source token isToken
    rw [kind]
    rfl

section

variable {chosen : Name} (isLocal : Program.DeclaresLocal (numbered firstId source) chosen)
  {word : String} (spelt : Kind.IsSpelt .identifier word.toList)
  (fresh : ∀ token ∈ Item.tokens (Item.scan source), token.lexeme ≠ word)
include isLocal spelt fresh

/-- A new name of a local variable is read in its place, and the same places are found. -/
theorem ofSource_replaceNames :
    let positions := Program.positions (numbered firstId source) chosen
    let program := Stmt.spellAll
      (.replacing word positions (Token.lineAt (Item.tokens (Item.scan source))))
      (numbered firstId source)
    ofSource firstId (replaceNames word positions source) =
        ⟨[], [], program, (ofSource firstId source).nextId⟩ ∧
      resolve program = ⟨[], (resolve (ofSource firstId source).statements).bindings⟩ := by
  intro positions program
  have lexical := List.map_eq_nil_iff.mp (List.append_eq_nil_iff.mp sound.1).1
  rcases Item.scan_replaceNames spelt positions lexical with ⟨errors, tokens⟩
  have parsed := Grammar.parse_spell
    (.replacing word positions (Token.lineAt (Item.tokens (Item.scan source))))
    (errors_parse_number sound)
  rw [Token.spell_replacing, ← tokens, ← (ofSource_eq_renameAll firstId source).2.2] at parsed
  constructor
  · rw [ofSource, parsed, errors]
    rfl
  · have numbered := isNumbered_numbered sound
    have isPlain : IsPlainName word := by
      have isPlain := Piece.isPlainName_of_isSpelt spelt
      rwa [String.ofList_toList] at isPlain
    have other : ∀ mention ∈ Program.mentions (Reading.numbered firstId source),
        mention.name.text ≠ word := by
      intro mention member
      rcases exists_token_of_mem_mentions sound member with ⟨token, isToken, -, lexeme⟩
      exact lexeme ▸ fresh token isToken
    have resolved := resolve_numbered sound
    have respelt : resolve program =
        ⟨[], (resolve (Reading.numbered firstId source)).bindings⟩ :=
      resolve_spell (numbered.isConsistent_replacing isLocal isPlain other)
        (congrArg Resolution.errors resolved)
    rw [respelt, resolved]

end

end

end Reading

end Lox
