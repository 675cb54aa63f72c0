import Lox.Proofs.Grammar.Derivation
import Mathlib.Tactic.Common

/-!
# Shapes of derivations

What can be said of the tokens of a derivation without knowing how they are read: which
token comes first, what may be assigned to, and how operations and calls go on after
their first part.
-/

namespace Lox.Derivation

open Grammar (Connective Level)

variable {before middle after : Position} {kind kind' : Kind} {token : Token} {level : Level}
  {tree : Expr}

/-! ## The next token -/

theorem Skips.sees (skips : Skips kind before after) : before.Sees kind :=
  ⟨after, skips⟩

theorem Reads.skips (reads : Reads kind before token after) : Skips kind before after :=
  ⟨token, reads⟩

/-- Only one kind of token comes next. -/
theorem Position.Sees.eq (sees : before.Sees kind) (sees' : before.Sees kind') : kind = kind' := by
  rcases sees with ⟨after, token, reads⟩
  rcases sees' with ⟨after', token', reads'⟩
  have same := reads.rest.symm.trans reads'.rest
  rw [List.cons.injEq] at same
  rw [← reads.kind, ← reads'.kind, same.1]

theorem Position.Sees.not_sees (sees : before.Sees kind) (different : kind ≠ kind') :
    ¬ before.Sees kind' :=
  fun sees' => different (sees.eq sees')

theorem Position.Sees.rest_ne_nil (sees : before.Sees kind) : before.rest ≠ [] := by
  rcases sees with ⟨after, token, reads⟩
  rw [reads.rest]
  exact List.cons_ne_nil _ _

theorem ReadsName.sees {text : Name} (name : ReadsName before text after) :
    before.Sees .identifier := by
  cases name with
  | name word => exact word.skips.sees

theorem ReadsVariable.sees {reference : Reference}
    (read : ReadsVariable before reference after) : before.Sees .identifier := by
  cases read with
  | reference name numbers => exact name.sees

/-- No operator is the end of the input. -/
theorem Joins.isEnding_eq {connective : Connective} (joins : Joins level kind connective) :
    kind.isEnding = false := by
  cases joins <;> rfl

theorem Precedes.isEnding_eq {op : UnaryOp} (precedes : Precedes kind op) :
    kind.isEnding = false := by
  cases precedes <;> rfl

/-! ## Targets of assignments -/

/-- An expression that something may be assigned to. -/
def IsTarget : Expr → Prop
  | .read _ => True
  | .get _ _ => True
  | _ => False

theorem not_isTarget_join (connective : Connective) (line : Nat) (left right : Expr) :
    ¬ IsTarget (connective.join line left right) := by
  cases connective <;> exact id

theorem Unary.isCall (unary : Unary before tree after) (isTarget : IsTarget tree) :
    Call before tree after := by
  cases unary with
  | operator => exact absurd isTarget id
  | call inner => exact inner

mutual

/-- What may be assigned to has no operators. -/
theorem Operation.isCall {level : Level} {before : Position} {tree : Expr} {after : Position} :
    Operation level before tree after → IsTarget tree → Call before tree after
  | .operand inner, isTarget => inner.isCall isTarget
  | .join _ _ _ _, isTarget => absurd isTarget (not_isTarget_join _ _ _ _)

theorem Operand.isCall {level : Level} {before : Position} {tree : Expr} {after : Position} :
    Operand level before tree after → IsTarget tree → Call before tree after
  | .tighter _ inner, isTarget => inner.isCall isTarget
  | .unary inner, isTarget => inner.isCall isTarget

end

theorem Call.of_read {reference : Reference} (call : Call before (.read reference) after) :
    ReadsVariable before reference after := by
  cases call with
  | primary inner =>
    cases inner with
    | read name => exact name

theorem Call.of_get {object : Expr} {text : Name} (call : Call before (.get object text) after) :
    ∃ first second, Call before object first ∧ Skips (.symbol .dot) first second ∧
      ReadsName second text after := by
  cases call with
  | primary inner => cases inner
  | get object dot name => exact ⟨_, _, object, dot, name⟩

end Lox.Derivation
