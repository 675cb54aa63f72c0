import Lox.Proofs.Session.Bound
import Lox.Proofs.Source.Joining

/-!
# Source texts that start on other lines

A source text can be run as if its first line were another one.  A run far below all lines of
the session tells which lines are those of the text: if these are counted anew, it becomes a run
on any other line (`Session.runFrom_varies`).
-/

namespace Lox

/-! ## Readings on other lines -/

namespace Reading

/-- Nothing is wrong with what is read. -/
def IsSound (reading : Reading) : Prop :=
  reading.errors = [] ∧ (resolve reading.statements).errors = []

/-- Reads a source text that starts on a line. -/
def onLine (firstId line : Nat) (source : String) : Reading :=
  .ofItems firstId (Item.ofPieces line (Piece.pieces source.toList))

theorem Varies.isSound_iff {change : Renaming} {left right : Reading}
    (varies : left.Varies change right) : right.IsSound ↔ left.IsSound := by
  rw [IsSound, IsSound, varies.errors, varies.statements, resolve_rename, List.map_eq_nil_iff,
    List.map_eq_nil_iff]

section

variable {firstId line line' : Nat} {change : Nat → Nat}
  (moves : ∀ distance, change (line + distance) = line' + distance)
include moves

/-- A source text that starts on another line is read in the same way, also with greater ids. -/
theorem varies_onLine (firstId distance : Nat) (source : String) :
    (onLine firstId line source).Varies (Shift.renaming ⟨distance, change⟩)
      (onLine (firstId + distance) line' source) := by
  have closed : (Item.tokens (Item.ofPieces line (Piece.pieces source.toList))).any
      (·.kind.isEnding) := Item.any_isEnding_tokens line _
  have varies := varies_ofItems closed ⟨distance, change⟩ firstId
  rw [Item.ofPieces_move change moves] at varies
  exact varies

theorem nextId_onLine (firstId distance : Nat) (source : String) :
    (onLine (firstId + distance) line' source).nextId =
      (onLine firstId line source).nextId + distance := by
  have closed : (Item.tokens (Item.ofPieces line (Piece.pieces source.toList))).any
      (·.kind.isEnding) := Item.any_isEnding_tokens line _
  have nextId := nextId_ofItems_move closed ⟨distance, change⟩ firstId
  rw [Item.ofPieces_move change moves] at nextId
  exact nextId

end

/-- Whether something is wrong with a source text depends neither on ids nor on lines. -/
theorem isSound_onLine (firstId line : Nat) (source : String) :
    (onLine firstId line source).IsSound ↔ (ofSource 0 source).IsSound := by
  let change : Nat → Nat := fun number => number - 1 + line
  have moves : ∀ distance, change (1 + distance) = line + distance := by
    intro distance
    show 1 + distance - 1 + line = line + distance
    omega
  have varies := varies_onLine moves 0 firstId source
  rw [Nat.zero_add] at varies
  exact varies.isSound_iff

end Reading

/-- Lines from a bound on are counted from another line on. -/
def Renaming.recount (bound line : Nat) : Renaming :=
  ⟨fun id => id, fun number => if number < bound then number else number - bound + line⟩

theorem Renaming.keeps_recount (ids bound line : Nat) :
    (recount bound line).Keeps ids bound :=
  ⟨fun _ _ => rfl, fun _ isLess => if_pos isLess⟩

theorem Renaming.recount_add (bound line distance : Nat) :
    (recount bound line).line (bound + distance) = line + distance := by
  have beyond : ¬ bound + distance < bound := Nat.not_lt_of_le (Nat.le_add_right _ _)
  show (if bound + distance < bound then _ else _) = _
  rw [if_neg beyond]
  omega

/-! ## Runs on other lines -/

namespace Session

/-- Runs a source text that starts on a line. -/
def runFrom (line fuel : Nat) (source : String) (session : Session) :
    Option (Report × Session) :=
  session.runReading fuel (.onLine session.nextId line source)

theorem runFrom_one (fuel : Nat) (source : String) (session : Session) :
    session.runFrom 1 fuel source = session.run fuel source := rfl

/-- A run far below becomes a run on another line if its lines are counted anew. -/
theorem runFrom_varies {session : Session} {bound : Nat} (below : session.IsBelow bound)
    (line fuel : Nat) (source : String) :
    ∃ nextId, Option.Rel (RunsVary (Renaming.recount bound line).variation nextId nextId)
      (session.runFrom bound fuel source) (session.runFrom line fuel source) := by
  have moves := Renaming.recount_add bound line
  have itself : session.Varies (Renaming.recount bound line).variation session :=
    ⟨below.varies (Renaming.keeps_recount _ bound line), fun _ => rfl⟩
  have reads := Reading.varies_onLine moves session.nextId 0 source
  have nextId := Reading.nextId_onLine moves session.nextId 0 source
  have runs := itself.runReading rfl (fun _ _ same => same) reads
    (fun _ _ => Stmt.makeAll_of_forall (fun _ => trivial) _) fuel
  rw [nextId] at runs
  exact ⟨_, runs⟩

end Session

end Lox
