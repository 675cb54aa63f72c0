import Lox.Proofs.Renaming.Bound
import Lox.Proofs.Renaming.Session

/-!
# Source texts that are read elsewhere

A source text can be read as if it started on another line, and with greater ids.  What is read
is the same up to lines and ids (`Reading.varies_ofItems`).
-/

namespace Lox

/-- An item on another line. -/
def Item.move (line : Nat → Nat) : Item → Item
  | token found => .token (found.move line)
  | error found => .error (found.move line)

namespace Item

theorem tokens_move (line : Nat → Nat) (items : List Item) :
    tokens (items.map (Item.move line)) = (tokens items).map (Token.move line) := by
  rw [tokens, tokens, List.filterMap_map, List.map_filterMap]
  apply List.filterMap_congr
  intro item _
  cases item <;> rfl

theorem errors_move (line : Nat → Nat) (items : List Item) :
    errors (items.map (Item.move line)) = (errors items).map (LexicalError.move line) := by
  rw [errors, errors, List.filterMap_map, List.map_filterMap]
  apply List.filterMap_congr
  intro item _
  cases item <;> rfl

/-- The items of a source text are closed by its end. -/
theorem any_isEnding_tokens (line : Nat) (pieces : List Piece) :
    (tokens (ofPieces line pieces)).any (·.kind.isEnding) := by
  induction pieces generalizing line with
  | nil => rfl
  | cons piece others induction =>
    rw [ofPieces, tokens, List.filterMap_append, List.any_append]
    have later := induction (line + newlines piece.text)
    rw [tokens] at later
    rw [later, Bool.or_true]

/-- The lines of tokens are bounded. -/
theorem exists_line_lt (tokens : List Token) : ∃ lines, ∀ token ∈ tokens, token.line < lines := by
  induction tokens with
  | nil => exact ⟨0, List.forall_mem_nil _⟩
  | cons first others induction =>
    rcases induction with ⟨lines, small⟩
    refine ⟨max (first.line + 1) lines, List.forall_mem_cons.mpr ⟨?_, ?_⟩⟩
    · exact Nat.lt_of_lt_of_le (Nat.lt_succ_self _) (Nat.le_max_left _ _)
    · exact fun token member => Nat.lt_of_lt_of_le (small token member) (Nat.le_max_right _ _)

end Item

/-! ## Readings -/

/-- What some items say. -/
def Reading.ofItems (firstId : Nat) (items : List Item) : Reading :=
  let parsed := Grammar.parse firstId (Item.tokens items)
  ⟨Item.errors items, parsed.errors, parsed.statements, parsed.nextId⟩

namespace Reading

/-- The ids of what is read lie between two bounds. -/
theorem ids_ofItems (firstId : Nat) (items : List Item) :
    ∀ id ∈ Stmt.idsAll (ofItems firstId items).statements,
      firstId ≤ id ∧ id < (ofItems firstId items).nextId :=
  (Grammar.parse_builds (fun _ => True) firstId (Item.tokens items) fun _ _ _ =>
    trivial).2.2.bounds

theorem le_nextId_ofItems (firstId : Nat) (items : List Item) :
    firstId ≤ (ofItems firstId items).nextId :=
  (Grammar.parse_builds (fun _ => True) firstId (Item.tokens items) fun _ _ _ => trivial).2.1

section

variable {items : List Item} (closed : (Item.tokens items).any (·.kind.isEnding))
include closed

theorem nextId_ofItems_move (shift : Shift) (firstId : Nat) :
    (ofItems (firstId + shift.distance) (items.map (Item.move shift.line))).nextId =
      (ofItems firstId items).nextId + shift.distance := by
  simp only [ofItems, Item.tokens_move, Grammar.parse_move shift firstId closed]

/-- Moved items are read as the items, up to ids and lines. -/
theorem varies_ofItems (shift : Shift) (firstId : Nat) :
    (ofItems firstId items).Varies shift.renaming
      (ofItems (firstId + shift.distance) (items.map (Item.move shift.line))) := by
  have parsed := Grammar.parse_move shift firstId closed
  constructor
  · exact Item.errors_move shift.line items
  · simp only [ofItems, Item.tokens_move, parsed]
    rfl
  · simp only [ofItems, Item.tokens_move, parsed]

end

/-- A reading varies also by a renaming that agrees on its ids. -/
theorem Varies.congr {change other : Renaming} {left right : Reading}
    (varies : left.Varies change right) (lines : change.line = other.line)
    (same : ∀ id ∈ Stmt.idsAll left.statements, change.id id = other.id id) :
    left.Varies other right := by
  constructor
  · rw [← lines]
    exact varies.lexicalErrors
  · rw [← lines]
    exact varies.syntaxErrors
  · rw [varies.statements, Stmt.renameAll_congr lines _ same]

end Reading

end Lox
