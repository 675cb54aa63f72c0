import Lox.Proofs.Cursor.Program
import Lox.Proofs.Grammar.Logic

/-!
# Following the tokens by an index

`Tracks` says of a cursor that it is in front of the tokens that are left, that it has read all
others and no end of the input, and that each turn so far was sound.  It stays true when the
cursor moves by a token, when an error is recorded and when a turn is written down.
-/

namespace Lox.Grammar

/--
A turn finishes in front of the end of the input.  It reads a token, unless an error ends the
whole loop or nothing is left.  If it yields nothing, it records an error.  What it records and
what ends the loop is among the errors of the program.
-/
structure Turn.IsSound (turn : Turn) (ending : Nat) (errors : List SyntaxError) : Prop where
  inside : turn.finish ≤ ending
  progresses : turn.start < turn.finish ∨ (∃ error, turn.outcome = .unwound error) ∨
    turn.start = ending
  explained : turn.outcome = .nothing → turn.errors ≠ []
  recorded : turn.errors <:+: errors
  reported : ∀ error, turn.outcome = .unwound error → error ∈ errors

/-- More errors may be recorded later. -/
theorem Turn.IsSound.mono {turn : Turn} {ending : Nat} {errors more : List SyntaxError}
    (sound : turn.IsSound ending errors) (begins : errors <+: more) : turn.IsSound ending more :=
  { sound with
    recorded := sound.recorded.trans begins.isInfix
    reported := fun error ended => begins.subset (sound.reported error ended) }

namespace Cursor

variable {cursor after : Cursor} {state : State} {count : Nat}

/--
The cursor is in front of the tokens that are left.  The errors that are pending are not recorded
yet.
-/
structure Tracks (pending : List SyntaxError) (cursor : Cursor) (state : State) : Prop where
  left : cursor.tokens.drop cursor.current = state.rest ++ [state.ending]
  only : ∀ token ∈ state.rest, token.kind.isEnding = false
  isEnding : state.ending.kind.isEnding = true
  nextId : cursor.nextId = state.nextId
  errors : cursor.errors = state.errors
  consumed : cursor.consumed = cursor.tokens.take cursor.current
  turns : ∀ turn ∈ cursor.turns,
    turn.IsSound (cursor.tokens.length - 1) (cursor.errors.toList ++ pending)

/-- Between two cursors at least `count` tokens were read, and errors were only recorded. -/
structure Grows (before after : Cursor) (count : Nat) : Prop where
  tokens : after.tokens = before.tokens
  current : before.current + count ≤ after.current
  errors : before.errors.toList <+: after.errors.toList

namespace Grows

variable {before middle : Cursor} {first second : Nat}

theorem refl : Grows cursor cursor 0 :=
  ⟨rfl, Nat.le_refl _, List.prefix_refl _⟩

theorem trans (grows : Grows before middle first) (others : Grows middle after second) :
    Grows before after (first + second) where
  tokens := others.tokens.trans grows.tokens
  current := by
    have := grows.current
    have := others.current
    omega
  errors := grows.errors.trans others.errors

theorem weaken (grows : Grows before after first) (fewer : count ≤ first) :
    Grows before after count :=
  { grows with current := Nat.le_trans (Nat.add_le_add_left fewer _) grows.current }

theorem size_le (grows : Grows before after count) : before.errors.size ≤ after.errors.size :=
  grows.errors.length_le

end Grows

/-! ## Moving the cursor -/

/-- Behind the next token. -/
def read (cursor : Cursor) (token : Token) : Cursor :=
  { cursor with current := cursor.current + 1, consumed := cursor.consumed ++ [token] }

/-- With one more error. -/
def push (cursor : Cursor) (error : SyntaxError) : Cursor :=
  { cursor with errors := cursor.errors.push error }

theorem grows_read (token : Token) : Grows cursor (cursor.read token) 1 :=
  ⟨rfl, Nat.le_refl _, List.prefix_refl _⟩

theorem grows_push (error : SyntaxError) : Grows cursor (cursor.push error) 0 where
  tokens := rfl
  current := Nat.le_refl _
  errors := by
    rw [push, Array.toList_push]
    exact List.prefix_append _ _

namespace Tracks

variable {pending : List SyntaxError} {token : Token} {rest : List Token}

/-- What stands how far behind the cursor. -/
theorem getElem? (tracks : Tracks pending cursor state) (distance : Nat) :
    cursor.tokens[cursor.current + distance]? = (state.rest ++ [state.ending])[distance]? := by
  rw [← List.getElem?_drop, tracks.left]

theorem next (tracks : Tracks pending cursor state) :
    cursor.tokens[cursor.current]? = some state.next := by
  rw [← Nat.add_zero cursor.current, tracks.getElem? 0, State.next]
  cases state.rest <;> rfl

/-- The cursor is never behind the end of the input. -/
theorem length_eq (tracks : Tracks pending cursor state) :
    cursor.current + state.rest.length = cursor.tokens.length - 1 := by
  have lengths := congrArg List.length tracks.left
  rw [List.length_drop, List.length_append, List.length_singleton] at lengths
  omega

/-- The next token is the end of the input just if none is left. -/
theorem isEnding_next (tracks : Tracks pending cursor state) :
    state.next.kind.isEnding = state.rest.isEmpty := by
  rw [State.next]
  cases here : state.rest with
  | nil => exact tracks.isEnding
  | cons token rest => exact tracks.only token (here ▸ List.mem_cons_self)

theorem rest_ne_nil (tracks : Tracks pending cursor state) (isToken : state.next.kind.isEnding = false) :
    state.rest ≠ [] := by
  rw [tracks.isEnding_next] at isToken
  rintro none
  rw [none] at isToken
  cases isToken

theorem read (tracks : Tracks pending cursor state) (here : state.rest = token :: rest) :
    Tracks pending (cursor.read token) { state with rest := rest } where
  left := by
    show cursor.tokens.drop (cursor.current + 1) = _
    rw [← List.drop_drop, tracks.left, here]
    rfl
  only := fun other isIn => tracks.only other (here ▸ List.mem_cons_of_mem _ isIn)
  isEnding := tracks.isEnding
  nextId := tracks.nextId
  errors := tracks.errors
  consumed := by
    have found : cursor.tokens[cursor.current]? = some token := by
      rw [tracks.next, State.next, here]
      rfl
    show cursor.consumed ++ [token] = cursor.tokens.take (cursor.current + 1)
    rw [List.take_add_one, tracks.consumed, found]
    rfl
  turns := tracks.turns

/-- The pending error is recorded. -/
theorem push (tracks : Tracks pending cursor state) (error : SyntaxError)
    (settles : pending <+: [error]) : Tracks [] (cursor.push error) (state.note error) :=
  { tracks with
    errors := congrArg (·.push error) tracks.errors
    turns := by
      intro turn isIn
      apply (tracks.turns turn isIn).mono
      rw [Cursor.push, Array.toList_push, List.append_nil]
      exact (List.prefix_append_right_inj _).mpr settles }

/-- A rule fails with an error, which is not recorded yet. -/
theorem fails (tracks : Tracks [] cursor state) (error : SyntaxError) :
    Tracks [error] cursor state :=
  { tracks with
    turns := fun turn isIn => (tracks.turns turn isIn).mono
      ((List.prefix_append_right_inj _).mpr (List.nil_prefix)) }

theorem freshId (tracks : Tracks pending cursor state) :
    Tracks pending { cursor with nextId := cursor.nextId + 1 } { state with nextId := state.nextId + 1 } :=
  { tracks with nextId := congrArg (· + 1) tracks.nextId }

/-- A turn that ended is written down. -/
theorem turned {before : Cursor} (tracks : Tracks pending after state)
    (grows : Grows before after 0) (loop : Loop) (outcome : Outcome)
    (progresses : before.current < after.current ∨ (∃ error, outcome = .unwound error) ∨
      before.current = before.tokens.length - 1)
    (explained : outcome = .nothing → before.errors.size < after.errors.size)
    (reported : ∀ error, outcome = .unwound error → error ∈ pending) :
    Tracks pending (turned loop outcome before after) state where
  left := tracks.left
  only := tracks.only
  isEnding := tracks.isEnding
  nextId := tracks.nextId
  errors := tracks.errors
  consumed := tracks.consumed
  turns := by
    intro turn isIn
    rcases List.mem_append.mp isIn with isOld | isNew
    · exact tracks.turns turn isOld
    · rw [List.mem_singleton.mp isNew]
      refine ⟨?_, ?_, ?_, ?_, ?_⟩
      · have := tracks.length_eq
        show after.current ≤ after.tokens.length - 1
        omega
      · show _ ∨ _ ∨ before.current = after.tokens.length - 1
        rw [grows.tokens]
        exact progresses
      · intro none
        have more := explained none
        apply List.ne_nil_of_length_pos
        rw [List.length_drop, Array.length_toList]
        omega
      · exact (List.drop_suffix _ _).isInfix.trans (List.prefix_append _ _).isInfix
      · exact fun error ended => List.mem_append_right _ (reported error ended)

end Tracks

theorem grows_turned {before : Cursor} (grows : Grows before after count) (loop : Loop)
    (outcome : Outcome) : Grows before (turned loop outcome before after) count :=
  ⟨grows.tokens, grows.current, grows.errors⟩

end Cursor

end Lox.Grammar
