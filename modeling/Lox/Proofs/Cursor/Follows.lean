import Lox.Proofs.Cursor.Tracking
import Lox.Proofs.Grammar.Logic

/-!
# Rules that read the same

`Rule.Follows` says that a rule over a cursor does what a rule does that reads from the front,
and how many tokens it reads.  Below are its laws for sequences of rules, for the rules that read
single tokens, and for the turns of the loops with their recovery.
-/

namespace Lox.Grammar.Cursor

variable {α β : Type} {cursor after : Cursor} {state : State} {count : Nat}
  {pending : List SyntaxError}

/-! ## Rules that read the same -/

/-- Two rules end alike; from the first cursor on, `count` tokens are read unless they fail. -/
def Agree (before : Cursor) (count : Nat) :
    EStateM.Result Stop Cursor α → EStateM.Result Grammar.Stop State α → Prop
  | .ok result after, .ok result' state =>
    result = result' ∧ Tracks [] after state ∧ Grows before after count
  | .error (.mistake error) after, .error (.mistake error') state =>
    error = error' ∧ Tracks [error] after state ∧ Grows before after 0
  | .error .exhausted _, .error .exhausted _ => True
  | _, _ => False

/-- What was read before counts, too. -/
theorem Agree.behind {before middle : Cursor} {first : Nat}
    {result : EStateM.Result Stop Cursor α} {result' : EStateM.Result Grammar.Stop State α}
    (grows : Grows before middle first) (agree : Agree middle (count - first) result result') :
    Agree before count result result' := by
  revert agree
  cases result with
  | ok last after =>
    cases result' with
    | error stop state => exact id
    | ok last' state =>
      exact fun ⟨same, tracks, others⟩ => ⟨same, tracks, (grows.trans others).weaken (by omega)⟩
  | error stop after =>
    cases result' with
    | ok last' state => cases stop <;> exact id
    | error stop' state =>
      cases stop <;> cases stop'
      case mistake.mistake =>
        exact fun ⟨same, tracks, others⟩ =>
          ⟨same, tracks, (grows.trans others).weaken (Nat.zero_le _)⟩
      all_goals exact id

/-- A rule over a cursor does what the other one does, and reads at least `count` tokens. -/
def Rule.Follows (rule : Rule α) (model : Grammar.Rule α) (count : Nat) (cursor : Cursor)
    (state : State) : Prop :=
  Tracks [] cursor state → Agree cursor count (rule cursor) (model state)

namespace Rule.Follows

variable {rule : Rule α} {model : Grammar.Rule α} {next : α → Rule β}
  {next' : α → Grammar.Rule β} {first : Nat}

theorem of_eq {result : α} {state' : State} (reads : rule cursor = .ok result after)
    (reads' : model state = .ok result state') (tracks : Tracks [] after state')
    (grows : Grows cursor after count) : rule.Follows model count cursor state := by
  intro _
  rw [reads, reads']
  exact ⟨rfl, tracks, grows⟩

/-- One rule after another: what the first one reads, the second one need not. -/
theorem bind (follows : rule.Follows model first cursor state)
    (continues : ∀ result middle state', Grows cursor middle first →
      (next result).Follows (next' result) (count - first) middle state') :
    (rule >>= next).Follows (model >>= next') count cursor state := by
  intro tracks
  have agree := follows tracks
  show Agree cursor count (EStateM.bind rule next cursor) (EStateM.bind model next' state)
  rw [EStateM.bind, EStateM.bind]
  revert agree
  cases rule cursor with
  | ok result middle =>
    cases model state with
    | error stop state' => exact False.elim
    | ok result' state' =>
      rintro ⟨rfl, tracks, grows⟩
      exact .behind grows (continues result middle state' grows tracks)
  | error stop middle =>
    cases model state with
    | ok result' state' => cases stop <;> exact False.elim
    | error stop' state' => cases stop <;> cases stop' <;> exact id

theorem pure (result : α) :
    Rule.Follows (Pure.pure result) (Pure.pure result) 0 cursor state :=
  fun tracks => ⟨rfl, tracks, .refl⟩

theorem exhausted :
    Rule.Follows (throw .exhausted : Rule α) (throw .exhausted) count cursor state :=
  fun _ => trivial

theorem weaken (follows : rule.Follows model first cursor state) (fewer : count ≤ first) :
    rule.Follows model count cursor state := by
  intro tracks
  have agree := follows tracks
  revert agree
  cases rule cursor with
  | ok result after =>
    cases model state with
    | error stop state' => exact id
    | ok result' state' => exact fun ⟨same, tracks, grows⟩ => ⟨same, tracks, grows.weaken fewer⟩
  | error stop after =>
    cases model state with
    | ok result' state' => cases stop <;> exact id
    | error stop' state' => cases stop <;> cases stop' <;> exact id

end Rule.Follows

/-! ## Single tokens -/

theorem look_eq {index : Nat} {token : Token} (found : cursor.tokens[index]? = some token) :
    look index cursor = .ok token cursor := by
  have here : (get : Rule Cursor) cursor = .ok cursor cursor := rfl
  simp only [look, bind, EStateM.bind, here, found]
  rfl

theorem Tracks.peek_eq (tracks : Tracks pending cursor state) : peek cursor = .ok state.next cursor :=
  look_eq tracks.next

theorem Tracks.atEnd_eq (tracks : Tracks pending cursor state) :
    atEnd cursor = .ok state.rest.isEmpty cursor := by
  show EStateM.bind peek (fun token => pure token.kind.isEnding) cursor = _
  rw [EStateM.bind, tracks.peek_eq]
  show EStateM.Result.ok state.next.kind.isEnding cursor = _
  rw [tracks.isEnding_next]

theorem Tracks.sees_eq (tracks : Tracks pending cursor state) (kind : Kind) :
    sees kind cursor = .ok (state.rest.head?.any (·.kind.same kind)) cursor := by
  show EStateM.bind atEnd (fun ending =>
    if ending = true then pure false
    else peek >>= fun token => pure (token.kind.same kind)) cursor = _
  rw [EStateM.bind, tracks.atEnd_eq]
  cases here : state.rest with
  | nil => rfl
  | cons token rest =>
    show EStateM.bind peek (fun token => pure (token.kind.same kind)) cursor = _
    rw [EStateM.bind, tracks.peek_eq, State.next, here]
    rfl

/-- What has been read last. -/
theorem Tracks.previous_eq (tracks : Tracks pending cursor state) {token : Token} {rest : List Token}
    (here : state.rest = token :: rest) :
    previous (cursor.read token) = .ok token (cursor.read token) := by
  apply look_eq
  show cursor.tokens[cursor.current + 1 - 1]? = some token
  rw [Nat.add_sub_cancel, tracks.next, State.next, here]
  rfl

theorem Tracks.advance_eq (tracks : Tracks pending cursor state) {token : Token} {rest : List Token}
    (here : state.rest = token :: rest) : advance cursor = .ok token (cursor.read token) := by
  have isToken := tracks.only token (here ▸ List.mem_cons_self)
  have next : state.next = token := by
    rw [State.next, here]
    rfl
  rw [advance]
  show EStateM.bind peek _ cursor = _
  rw [EStateM.bind, tracks.peek_eq, next]
  simp only [isToken]
  exact tracks.previous_eq here

theorem Tracks.skip_eq (tracks : Tracks pending cursor state) {token : Token} {rest : List Token}
    (here : state.rest = token :: rest) : skip cursor = .ok () (cursor.read token) := by
  show EStateM.bind advance (fun _ => pure ()) cursor = _
  rw [EStateM.bind, tracks.advance_eq here]
  rfl

theorem sees_eq (kind : Kind) (state : State) :
    Grammar.sees kind state = .ok (state.rest.head?.any (·.kind.same kind)) state := by
  obtain ⟨_ | ⟨token, rest⟩, ending, nextId, errors⟩ := state <;> rfl

theorem follows_sees (kind : Kind) : (sees kind).Follows (Grammar.sees kind) 0 cursor state :=
  fun tracks => Rule.Follows.of_eq (tracks.sees_eq kind) (sees_eq kind state) tracks .refl tracks

theorem follows_atEnd : atEnd.Follows Grammar.atEnd 0 cursor state :=
  fun tracks => Rule.Follows.of_eq tracks.atEnd_eq rfl tracks .refl tracks

/-- Looking at a token that is not the end of the input, one sees that a token is left. -/
theorem follows_peek {next : Token → Rule β} {next' : Token → Grammar.Rule β}
    (continues : ∀ token, (token.kind.isEnding = false → state.rest ≠ []) →
      (next token).Follows (next' token) count cursor state) :
    (peek >>= next).Follows (Grammar.peek >>= next') count cursor state := by
  intro tracks
  have agree := continues state.next tracks.rest_ne_nil tracks
  show Agree cursor count (EStateM.bind peek next cursor) (next' state.next state)
  rw [EStateM.bind, tracks.peek_eq]
  exact agree

theorem follows_skip (isLeft : state.rest ≠ []) :
    skip.Follows Grammar.skip 1 cursor state := by
  intro tracks
  obtain ⟨token, rest, here⟩ := List.exists_cons_of_ne_nil isLeft
  have tracksRest : Tracks [] (cursor.read token) { state with rest := state.rest.tail } := by
    rw [here]
    exact tracks.read here
  exact Rule.Follows.of_eq (tracks.skip_eq here) rfl tracksRest (grows_read token) tracks

theorem follows_fail (fault : SyntaxFault) :
    Rule.Follows (fail fault : Rule α) (Grammar.fail fault) count cursor state :=
  follows_peek fun _ _ tracks => ⟨rfl, tracks.fails _, .refl⟩

theorem follows_note (token : Token) (fault : SyntaxFault) :
    (note token fault).Follows (Grammar.note token fault) 0 cursor state :=
  fun tracks => ⟨rfl, tracks.push _ List.nil_prefix, grows_push _⟩

theorem follows_freshId : freshId.Follows Grammar.freshId 0 cursor state :=
  fun tracks => ⟨tracks.nextId, tracks.freshId, ⟨rfl, Nat.le_refl _, List.prefix_refl _⟩⟩

theorem Tracks.accept_eq (tracks : Tracks pending cursor state) {kind : Kind} {token : Token}
    {rest : List Token} (here : state.rest = token :: rest) (same : token.kind.same kind) :
    accept kind cursor = .ok (some token) (cursor.read token) := by
  show EStateM.bind (sees kind) _ cursor = _
  rw [EStateM.bind, tracks.sees_eq kind, here, List.head?_cons, Option.any_some, same]
  show EStateM.bind advance (fun token => pure (some token)) cursor = _
  rw [EStateM.bind, tracks.advance_eq here]
  rfl

theorem Tracks.accept_eq_none (tracks : Tracks pending cursor state) {kind : Kind}
    (other : state.rest.head?.any (·.kind.same kind) = false) :
    accept kind cursor = .ok none cursor := by
  show EStateM.bind (sees kind) _ cursor = _
  rw [EStateM.bind, tracks.sees_eq kind, other]
  rfl

/-- A token that is read if it is of a kind. -/
theorem follows_accept (kind : Kind) {next : Option Token → Rule β}
    {next' : Option Token → Grammar.Rule β}
    (found : ∀ token middle state', Grows cursor middle 1 →
      (next (some token)).Follows (next' (some token)) (count - 1) middle state')
    (missing : (next none).Follows (next' none) count cursor state) :
    (accept kind >>= next).Follows (Grammar.accept kind >>= next') count cursor state := by
  intro tracks
  show Agree cursor count (EStateM.bind (accept kind) next cursor) _
  rw [EStateM.bind]
  obtain ⟨_ | ⟨token, rest⟩, ending, nextId, errors⟩ := state
  · rw [tracks.accept_eq_none rfl]
    exact missing tracks
  · show Agree cursor count _ (EStateM.bind (Grammar.accept kind) next' _)
    rw [EStateM.bind, accept_cons]
    by_cases same : token.kind.same kind
    · rw [tracks.accept_eq rfl same, if_pos same]
      have grows : Grows cursor (cursor.read token) 1 := grows_read token
      exact .behind grows (found token _ _ grows (tracks.read rfl))
    · rw [tracks.accept_eq_none (Bool.eq_false_iff.mpr same), if_neg same]
      exact missing tracks

theorem follows_ifAccepts (kind : Kind) {whenRead whenMissing : Rule β}
    {whenRead' whenMissing' : Grammar.Rule β}
    (read : ∀ middle state', Grows cursor middle 1 →
      whenRead.Follows whenRead' (count - 1) middle state')
    (missing : whenMissing.Follows whenMissing' count cursor state) :
    Rule.Follows (accepts kind >>= fun found => if found = true then whenRead else whenMissing)
      (Grammar.accepts kind >>= fun found => if found = true then whenRead' else whenMissing')
      count cursor state := by
  rw [accepts, bind_assoc, Grammar.accepts, bind_assoc]
  apply follows_accept
  · exact fun _ middle state' grows => read middle state' grows
  · exact missing

theorem follows_accepts (kind : Kind) :
    (accepts kind).Follows (Grammar.accepts kind) 0 cursor state := by
  apply follows_accept
  · exact fun _ _ _ _ => .pure _
  · exact .pure _

theorem follows_demand (kind : Kind) (what : Demand) :
    (demand kind what).Follows (Grammar.demand kind what) 1 cursor state := by
  apply follows_accept
  · exact fun token _ _ _ => .pure token
  · exact follows_fail _

theorem follows_demandSymbol (symbol : Symbol) (what : Demand) :
    (demandSymbol symbol what).Follows (Grammar.demandSymbol symbol what) 1 cursor state :=
  (follows_demand _ what).bind fun _ _ _ _ => .pure ()

theorem follows_demandName (what : Demand) :
    (demandName what).Follows (Grammar.demandName what) 1 cursor state :=
  (follows_demand _ what).bind fun _ _ _ _ => .pure _

/-! ## Recovery -/

theorem Tracks.skipToStart_succ (tracks : Tracks pending cursor state) {skipped token : Token}
    {rest : List Token} (behind : cursor.tokens[cursor.current - 1]? = some skipped)
    (here : state.rest = token :: rest) (bound : Nat) :
    skipToStart (bound + 1) cursor =
      if skipped.kind.same (.symbol .semicolon) || startsStatement token.kind then .ok () cursor
      else skipToStart bound (cursor.read token) := by
  have next : state.next = token := by
    rw [State.next, here]
    rfl
  have previous : previous cursor = .ok skipped cursor := look_eq behind
  rw [skipToStart]
  show EStateM.bind atEnd _ cursor = _
  rw [EStateM.bind, tracks.atEnd_eq, here]
  show EStateM.bind Cursor.previous _ cursor = _
  rw [EStateM.bind, previous]
  cases ends : skipped.kind.same (.symbol .semicolon) with
  | true => simp only [ends, if_true, Bool.true_or]; rfl
  | false =>
    simp only [ends, Bool.false_eq_true, if_false, Bool.false_or]
    show EStateM.bind peek _ cursor = _
    rw [EStateM.bind, tracks.peek_eq, next]
    cases starts : startsStatement token.kind with
    | true => simp only [starts, if_true]; rfl
    | false =>
      simp only [starts, Bool.false_eq_true, if_false]
      show EStateM.bind skip _ cursor = _
      rw [EStateM.bind, tracks.skip_eq here]

/-- Behind a token that was skipped, tokens are skipped up to a statement. -/
theorem Tracks.skipToStart_eq (tracks : Tracks pending cursor state) {skipped : Token}
    (behind : cursor.tokens[cursor.current - 1]? = some skipped) {bound : Nat}
    (enough : state.rest.length < bound) :
    ∃ after, skipToStart bound cursor = .ok () after ∧ Grows cursor after 0 ∧
      Tracks pending after { state with rest := skipAfter skipped state.rest } := by
  induction bound generalizing cursor state skipped with
  | zero => omega
  | succ bound induction =>
    obtain ⟨_ | ⟨token, rest⟩, ending, nextId, errors⟩ := state
    · refine ⟨cursor, ?_, .refl, tracks⟩
      rw [skipToStart]
      show EStateM.bind atEnd _ cursor = _
      rw [EStateM.bind, tracks.atEnd_eq]
      rfl
    · rw [tracks.skipToStart_succ behind rfl, skipAfter]
      split
      · exact ⟨cursor, rfl, .refl, tracks⟩
      · have found : (cursor.read token).tokens[(cursor.read token).current - 1]? = some token :=
          tracks.next
        obtain ⟨after, skips, grows, tracksAfter⟩ :=
          induction (tracks.read rfl) found (Nat.lt_of_succ_lt_succ enough)
        exact ⟨after, skips, ((grows_read token).trans grows).weaken (Nat.zero_le _), tracksAfter⟩

/-- A statement is skipped, with at least one token if one is left. -/
theorem Tracks.synchronize_eq (tracks : Tracks pending cursor state) :
    ∃ after, synchronize cursor = .ok () after ∧ Grows cursor after (min 1 state.rest.length) ∧
      Tracks pending after { state with rest := skipStatement state.rest } := by
  rw [synchronize]
  show ∃ after, EStateM.bind atEnd _ cursor = _ ∧ _
  rw [EStateM.bind, tracks.atEnd_eq]
  obtain ⟨_ | ⟨token, rest⟩, ending, nextId, errors⟩ := state
  · exact ⟨cursor, rfl, .refl, tracks⟩
  · have enough : rest.length < cursor.tokens.length := by
      have := tracks.length_eq
      rw [List.length_cons] at this
      omega
    have found : (cursor.read token).tokens[(cursor.read token).current - 1]? = some token :=
      tracks.next
    obtain ⟨after, reads, grows, tracksAfter⟩ := (tracks.read rfl).skipToStart_eq found enough
    refine ⟨after, ?_, ((grows_read token).trans grows).weaken (Nat.min_le_left _ _), tracksAfter⟩
    show EStateM.bind skip _ cursor = _
    rw [EStateM.bind, tracks.skip_eq rfl]
    exact reads

/-! ## Turns -/

/-- Behind a mistake a turn goes on: it has recorded the error and skipped the statement. -/
theorem Tracks.recovers (tracks : Tracks pending cursor state) {middle : Cursor} {state' : State}
    (error : SyntaxError)
    (tracksMiddle : Tracks [error] middle state') (grows : Grows cursor middle 0) :
    ∃ last, (do record error; synchronize; return none : Rule (Option α)) middle = .ok none last ∧
      Grows cursor last (min 1 state.rest.length) ∧ cursor.errors.size < last.errors.size ∧
      Tracks [] last { state'.note error with rest := skipStatement state'.rest } := by
  obtain ⟨last, skips, others, tracksLast⟩ := (tracksMiddle.push error (List.prefix_refl _)).synchronize_eq
  refine ⟨last, ?_, ⟨?_, ?_, ?_⟩, ?_, tracksLast⟩
  · show EStateM.bind synchronize (fun _ => pure none) (middle.push error) = _
    rw [EStateM.bind, skips]
    rfl
  · exact others.tokens.trans grows.tokens
  · -- either the mistake was made at the end, or at least one token is skipped
    have whole := tracks.length_eq
    have remains := tracksMiddle.length_eq
    have read := others.current
    have before := grows.current
    rw [grows.tokens] at remains
    show cursor.current + min 1 state.rest.length ≤ last.current
    change middle.current + min 1 state'.rest.length ≤ last.current at read
    omega
  · exact grows.errors.trans ((grows_push error).errors.trans others.errors)
  · have fewer := grows.size_le
    have recorded := others.size_le
    rw [Cursor.push, Array.size_push] at recorded
    omega

/-- A turn that reads a declaration or records an error; it reads a token if one is left. -/
theorem follows_declarationTurn (loop : Loop) {rule : Rule α} {model : Grammar.Rule α}
    (follows : rule.Follows model 1 cursor state) :
    (declarationTurn loop rule).Follows (Grammar.recovering model) (min 1 state.rest.length) cursor
      state := by
  intro tracks
  have agree := follows tracks
  rw [declarationTurn, turn, Cursor.recovering, Grammar.recovering]
  revert agree
  cases rule cursor with
  | ok result after =>
    cases model state with
    | error stop state' => exact False.elim
    | ok result' state' =>
      rintro ⟨rfl, tracksAfter, grows⟩
      refine ⟨rfl, ?_, grows_turned (grows.weaken (Nat.min_le_left _ _)) _ _⟩
      exact tracksAfter.turned (grows.weaken (Nat.zero_le _)) _ _ (.inl grows.current)
        (fun impossible => by cases impossible) (fun _ impossible => by cases impossible)
  | error stop after =>
    cases model state with
    | ok result' state' => cases stop <;> exact False.elim
    | error stop' state' =>
      cases stop <;> cases stop'
      case mistake.mistake error error' =>
        rintro ⟨rfl, tracksAfter, grows⟩
        obtain ⟨last, recovers, others, recorded, tracksLast⟩ :=
          tracks.recovers (α := α) error tracksAfter grows
        have whole := tracks.length_eq
        have read := others.current
        simp only [recovers]
        refine ⟨rfl, ?_, grows_turned others _ _⟩
        exact tracksLast.turned (others.weaken (Nat.zero_le _)) _ _ (by omega) (fun _ => recorded)
          (fun _ impossible => by cases impossible)
      case exhausted.exhausted => exact id
      all_goals exact False.elim

/-- A turn that reads a method or ends with an error. -/
theorem follows_methodTurn {rule : Rule α} {model : Grammar.Rule α}
    (follows : rule.Follows model 1 cursor state) :
    (methodTurn rule).Follows model 1 cursor state := by
  intro tracks
  have agree := follows tracks
  rw [methodTurn, turn]
  revert agree
  cases rule cursor with
  | ok result after =>
    cases model state with
    | error stop state' => exact id
    | ok result' state' =>
      rintro ⟨same, tracksAfter, grows⟩
      refine ⟨same, ?_, grows_turned grows _ _⟩
      exact tracksAfter.turned (grows.weaken (Nat.zero_le _)) _ _ (.inl grows.current)
        (fun impossible => by cases impossible) (fun _ impossible => by cases impossible)
  | error stop after =>
    cases model state with
    | ok result' state' => cases stop <;> exact id
    | error stop' state' =>
      cases stop <;> cases stop'
      case mistake.mistake error error' =>
        rintro ⟨same, tracksAfter, grows⟩
        refine ⟨same, ?_, grows_turned grows _ _⟩
        apply tracksAfter.turned grows _ _ (.inr (.inl ⟨error, rfl⟩))
          (fun impossible => by cases impossible)
        rintro _ ⟨⟩
        exact List.mem_singleton_self _
      all_goals exact id

end Lox.Grammar.Cursor
