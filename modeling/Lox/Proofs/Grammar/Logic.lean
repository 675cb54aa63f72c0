import Lox.Grammar.Program
import Mathlib.Tactic.Common

/-!
# Reasoning about rules

`Rule.Ends` says what holds after a rule has read from a state: one assertion for a
rule that yields a result and one for a rule that fails.  Below are its laws for
sequences of rules and for the rules that read single tokens.
-/

namespace Lox.Grammar

variable {α β : Type} {state : State}

/-- After reading from a state a rule has a result with one property or fails with another. -/
def Rule.Ends (rule : Rule α) (state : State) (read : α → State → Prop)
    (failed : Stop → State → Prop) : Prop :=
  match rule state with
  | .ok result after => read result after
  | .error stop after => failed stop after

namespace Rule.Ends

variable {rule : Rule α} {next : α → Rule β} {read read' : α → State → Prop}
  {failed failed' : Stop → State → Prop}

theorem imp (ends : rule.Ends state read failed)
    (ofRead : ∀ result after, read result after → read' result after)
    (ofFailed : ∀ stop after, failed stop after → failed' stop after) :
    rule.Ends state read' failed' := by
  revert ends
  simp only [Rule.Ends]
  split
  · exact ofRead _ _
  · exact ofFailed _ _

theorem bind {read : β → State → Prop}
    (ends : rule.Ends state (fun result after => (next result).Ends after read failed) failed) :
    (rule >>= next).Ends state read failed := by
  revert ends
  show _ → match EStateM.bind rule next state with
    | .ok result after => read result after
    | .error stop after => failed stop after
  simp only [Rule.Ends, EStateM.bind]
  cases rule state <;> exact id

/-- A rule followed by another one: what holds between them is to be given. -/
theorem seq {middle : α → State → Prop} {read : β → State → Prop}
    (ends : rule.Ends state middle failed)
    (rest : ∀ result after, middle result after → (next result).Ends after read failed')
    (ofFailed : ∀ stop after, failed stop after → failed' stop after) :
    (rule >>= next).Ends state read failed' :=
  .bind (ends.imp rest ofFailed)

theorem throw {stop : Stop} (holds : failed stop state) :
    (MonadExcept.throw stop : Rule α).Ends state read failed :=
  holds

end Rule.Ends

/-! ## Single tokens -/

variable {failed : Stop → State → Prop}

theorem ends_peek {read : Token → State → Prop} (holds : read state.next state) :
    peek.Ends state read failed :=
  holds

theorem ends_atEnd {read : Bool → State → Prop} (holds : read state.rest.isEmpty state) :
    atEnd.Ends state read failed :=
  holds

theorem ends_skip {read : Unit → State → Prop}
    (holds : read () { state with rest := state.rest.tail }) : skip.Ends state read failed :=
  holds

theorem ends_note {read : Unit → State → Prop} (token : Token) (fault : SyntaxFault)
    (holds : read () (state.note (.at token fault))) :
    (note token fault).Ends state read failed :=
  holds

theorem ends_freshId {read : Nat → State → Prop}
    (holds : read state.nextId { state with nextId := state.nextId + 1 }) :
    freshId.Ends state read failed :=
  holds

theorem ends_fail {read : α → State → Prop} (fault : SyntaxFault)
    (holds : failed (.mistake (.at state.next fault)) state) :
    (fail fault : Rule α).Ends state read failed :=
  holds

theorem ends_sees {read : Bool → State → Prop} (kind : Kind)
    (holds : read (state.rest.head?.any (·.kind.same kind)) state) :
    (sees kind).Ends state read failed := by
  obtain ⟨_ | ⟨token, rest⟩, ending, nextId, errors⟩ := state <;> exact holds

theorem accept_cons (kind : Kind) (token : Token) (rest : List Token) (ending : Token) (nextId : Nat)
    (errors : Array SyntaxError) :
    accept kind ⟨token :: rest, ending, nextId, errors⟩ =
      if token.kind.same kind then .ok (some token) ⟨rest, ending, nextId, errors⟩
      else .ok none ⟨token :: rest, ending, nextId, errors⟩ := by
  show (if token.kind.same kind then _ else _ : Rule (Option Token)) _ = _
  split <;> rfl

theorem ends_accept {read : Option Token → State → Prop} (kind : Kind)
    (found : ∀ token rest, state.rest = token :: rest → token.kind.same kind →
      read (some token) { state with rest := rest })
    (missing : state.rest.head?.any (·.kind.same kind) = false → read none state) :
    (accept kind).Ends state read failed := by
  obtain ⟨_ | ⟨token, rest⟩, ending, nextId, errors⟩ := state
  · exact missing rfl
  · rw [Rule.Ends, accept_cons]
    by_cases same : token.kind.same kind
    · rw [if_pos same]
      exact found token rest rfl same
    · rw [if_neg same]
      exact missing (Bool.eq_false_iff.mpr same)

theorem ends_demand {read : Token → State → Prop} (kind : Kind) (what : Demand)
    (found : ∀ token rest, state.rest = token :: rest → token.kind.same kind →
      read token { state with rest := rest })
    (missing : state.rest.head?.any (·.kind.same kind) = false →
      failed (.mistake (.at state.next (.missing what))) state) :
    (demand kind what).Ends state read failed :=
  .bind (ends_accept kind found fun absent => ends_fail _ (missing absent))

theorem ends_demandName {read : Name → State → Prop} (what : Demand)
    (found : ∀ token rest, state.rest = token :: rest → token.kind.same .identifier →
      read ⟨token.lexeme, token.line⟩ { state with rest := rest })
    (missing : state.rest.head?.any (·.kind.same .identifier) = false →
      failed (.mistake (.at state.next (.missing what))) state) :
    (demandName what).Ends state read failed :=
  .bind (ends_demand _ what found missing)

/-- A rule whose mistake is noted: then the statement is skipped. -/
theorem ends_recovering {rule : Rule α} {read : Option α → State → Prop}
    (ends : rule.Ends state (fun result after => read (some result) after) fun stop after =>
      match stop with
      | .mistake error => read none { after.note error with rest := skipStatement after.rest }
      | .exhausted => failed .exhausted after) :
    (recovering rule).Ends state read failed := by
  revert ends
  simp only [Rule.Ends, recovering]
  cases rule state with
  | ok => exact id
  | error stop => cases stop <;> exact id

end Lox.Grammar
