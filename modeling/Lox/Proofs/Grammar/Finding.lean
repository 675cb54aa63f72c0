import Lox.Proofs.Grammar.Clause

/-!
# Findings

A rule of the grammar reads from one place among the tokens of a program to another one, and what
it finds to be wrong belongs to tokens in between.  `Listed` says in which order these findings
are listed: in the order of their tokens, but an assignment to what is no target is listed behind
all that is wrong in the value.  `Rule.Lists` says that a rule keeps to this order; below are its
laws for sequences of rules and for the rules that read single tokens.
-/

namespace Lox.Grammar

variable {α β : Type} {tokens : List Token}

/-- A fault, the token it is reported at, and how many tokens are in front of this one. -/
structure Finding where
  position : Nat
  token : Token
  fault : SyntaxFault

/-- The syntax error that reports a finding. -/
def Finding.error (finding : Finding) : SyntaxError :=
  .at finding.token finding.fault

/-! ## Places among tokens -/

/-- From this place on the tokens are left to read. -/
structure State.IsAt (tokens : List Token) (place : Nat) (state : State) : Prop where
  left : tokens.drop place = state.rest ++ [state.ending]
  isEnding : state.ending.kind.isEnding

namespace State.IsAt

variable {place : Nat} {state : State}

theorem getElem?_eq_next (isAt : state.IsAt tokens place) : tokens[place]? = some state.next := by
  rw [← List.head?_drop, isAt.left, State.next]
  cases state.rest <;> rfl

/-- Some of the tokens that are left are read. -/
theorem exists_of_suffix (isAt : state.IsAt tokens place) {rest : List Token}
    (suffix : rest <:+ state.rest) :
    ∃ finish, place ≤ finish ∧ State.IsAt tokens finish { state with rest := rest } := by
  rcases suffix with ⟨read, split⟩
  refine ⟨place + read.length, Nat.le_add_right _ _, ?_, isAt.isEnding⟩
  rw [← List.drop_drop, isAt.left, ← split, List.append_assoc, List.drop_left]

theorem of_cons (isAt : state.IsAt tokens place) {token : Token} {rest : List Token}
    (here : state.rest = token :: rest) :
    State.IsAt tokens (place + 1) { state with rest := rest } := by
  refine ⟨?_, isAt.isEnding⟩
  rw [← List.drop_drop, isAt.left, here]
  rfl

theorem getElem?_eq_head (isAt : state.IsAt tokens place) {token : Token} {rest : List Token}
    (here : state.rest = token :: rest) : tokens[place]? = some token := by
  rw [isAt.getElem?_eq_next, State.next, here]
  rfl

end State.IsAt

/-- An expression is read from one place to another one. -/
def IsValue (tokens : List Token) (start finish : Nat) : Prop :=
  ∃ fuel state value after, expression fuel state = .ok value after ∧
    state.IsAt tokens start ∧ after.IsAt tokens finish

/-! ## The order of findings -/

/-- The findings of a rule that reads from one place to another one are listed in this order. -/
inductive Listed (tokens : List Token) : Nat → Nat → List Finding → Prop where
  | nil {start finish : Nat} (le : start ≤ finish) : Listed tokens start finish []
  /-- A finding at some token is listed in front of those at later tokens. -/
  | cons {start finish : Nat} {finding : Finding} {others : List Finding}
    (isAt : tokens[finding.position]? = some finding.token)
    (isOther : finding.fault ≠ .invalidTarget) (le : start ≤ finding.position)
    (later : Listed tokens finding.position finish others) :
    Listed tokens start finish (finding :: others)
  /-- An invalid assignment is listed at its sign, but behind the findings in the value. -/
  | assignment {start position stop finish : Nat} {sign : Token} {inner others : List Finding}
    (isAt : tokens[position]? = some sign) (isSign : sign.kind.same (.symbol .equal))
    (le : start ≤ position) (value : IsValue tokens (position + 1) stop)
    (within : Listed tokens (position + 1) stop inner)
    (inside : ∀ finding ∈ inner, finding.position < stop)
    (later : Listed tokens stop finish others) :
    Listed tokens start finish (inner ++ ⟨position, sign, .invalidTarget⟩ :: others)

namespace Listed

variable {start place finish : Nat} {first second : List Finding}

theorem le (listed : Listed tokens start finish first) : start ≤ finish := by
  induction listed with
  | nil le => exact le
  | cons _ _ le _ induction => exact Nat.le_trans le induction
  | assignment _ _ le _ _ _ _ within later => omega

/-- All findings are at tokens from the first place on, and none is behind the last one. -/
theorem bounds (listed : Listed tokens start finish first) :
    ∀ finding ∈ first, start ≤ finding.position ∧ finding.position ≤ finish := by
  induction listed with
  | nil => exact List.forall_mem_nil _
  | cons _ _ le later induction =>
    refine List.forall_mem_cons.mpr ⟨⟨le, later.le⟩, ?_⟩
    exact fun finding member => ⟨Nat.le_trans le (induction finding member).1,
      (induction finding member).2⟩
  | assignment _ _ le _ within _ later inner others =>
    have sign := within.le
    have stop := later.le
    rw [List.forall_mem_append, List.forall_mem_cons]
    refine ⟨fun finding member => ?_, ⟨le, ?_⟩, fun finding member => ?_⟩
    · have bound := inner finding member
      omega
    · dsimp only
      omega
    · have bound := others finding member
      omega

theorem append (listed : Listed tokens start place first)
    (listed' : Listed tokens place finish second) :
    Listed tokens start finish (first ++ second) := by
  induction listed with
  | nil le =>
    cases listed' with
    | nil le' => exact .nil (Nat.le_trans le le')
    | cons isAt isOther le' later => exact .cons isAt isOther (Nat.le_trans le le') later
    | assignment isAt isSign le' value within inside later =>
      exact .assignment isAt isSign (Nat.le_trans le le') value within inside later
  | cons isAt isOther le _ induction => exact .cons isAt isOther le (induction listed')
  | assignment isAt isSign le value within inside _ _ induction =>
    rw [List.append_assoc, List.cons_append]
    exact .assignment isAt isSign le value within inside (induction listed')

/-- Only an invalid assignment is listed behind a finding at a later token. -/
theorem pairwise (listed : Listed tokens start finish first) :
    first.Pairwise fun earlier later =>
      earlier.position ≤ later.position ∨ later.fault = .invalidTarget := by
  induction listed with
  | nil => exact .nil
  | cons _ _ _ later induction =>
    exact .cons (fun finding member => .inl (later.bounds finding member).1) induction
  | assignment _ _ _ _ within _ later inner others =>
    rw [List.pairwise_append]
    refine ⟨inner, .cons ?_ others, ?_⟩
    · intro finding member
      have bound := (later.bounds finding member).1
      have sign := within.le
      left
      dsimp only
      omega
    · intro earlier isInner
      refine List.forall_mem_cons.mpr ⟨.inr rfl, fun finding member => .inl ?_⟩
      exact Nat.le_trans (within.bounds earlier isInner).2 (later.bounds finding member).1

/-- Each finding is at a token of the program. -/
theorem getElem? (listed : Listed tokens start finish first) :
    ∀ finding ∈ first, tokens[finding.position]? = some finding.token := by
  induction listed with
  | nil => exact List.forall_mem_nil _
  | cons isAt _ _ _ induction => exact List.forall_mem_cons.mpr ⟨isAt, induction⟩
  | assignment isAt _ _ _ _ _ _ inner others =>
    rw [List.forall_mem_append, List.forall_mem_cons]
    exact ⟨inner, isAt, others⟩

end Listed

/-! ## Rules that list what they find -/

/-- From one place to another one these findings are noted. -/
structure Passage (tokens : List Token) (state : State) (start finish : Nat)
    (found : List Finding) (after : State) : Prop where
  arrives : after.IsAt tokens finish
  errors : after.errors.toList = state.errors.toList ++ found.map Finding.error
  listed : Listed tokens start finish found

namespace Passage

variable {state middle after : State} {start place finish : Nat} {first second : List Finding}

theorem quiet (arrives : after.IsAt tokens finish) (errors : after.errors = state.errors)
    (le : start ≤ finish) : Passage tokens state start finish [] after :=
  ⟨arrives, by rw [errors, List.map_nil, List.append_nil], .nil le⟩

theorem trans (passage : Passage tokens state start place first middle)
    (passage' : Passage tokens middle place finish second after) :
    Passage tokens state start finish (first ++ second) after where
  arrives := passage'.arrives
  errors := by rw [passage'.errors, passage.errors, List.map_append, List.append_assoc]
  listed := passage.listed.append passage'.listed

end Passage

/--
From a state on a rule lists what it finds.  If it succeeds, then it reads at least `count` tokens,
and the findings are at tokens that are read, but for the next `slack` ones.  If it fails, then at
the next token.
-/
def Rule.ListsFrom (tokens : List Token) (place : Nat) (state : State) (rule : Rule α)
    (count slack : Nat) : Prop :=
  rule.Ends state
    (fun _ after => ∃ finish found, Passage tokens state place finish found after ∧
      place + count ≤ finish ∧ ∀ finding ∈ found, finding.position < finish + slack)
    fun stop after => ∀ error, stop = .mistake error → ∃ finish found,
      Passage tokens state place finish found after ∧
        ∃ fault, fault ≠ .invalidTarget ∧ error = .at after.next fault

/-- A rule lists what it finds, whatever the tokens are that it reads. -/
def Rule.Lists (tokens : List Token) (rule : Rule α) (count slack : Nat) : Prop :=
  ∀ place state, state.IsAt tokens place → rule.ListsFrom tokens place state count slack

variable {place count slack : Nat} {state : State}

namespace Rule.ListsFrom

variable {rule : Rule α} {next : α → Rule β} {first second : Nat}

/-- One rule after another: findings at the tokens that the first one leaves are at those that the
next one reads. -/
theorem bind (lists : rule.ListsFrom tokens place state first second)
    (continues : ∀ result, (next result).Lists tokens (count - first) slack)
    (enough : second ≤ count - first + slack) :
    (rule >>= next).ListsFrom tokens place state count slack := by
  apply Rule.Ends.seq lists
  · rintro result middle ⟨between, found, passage, advanced, inside⟩
    apply (continues result between middle passage.arrives).imp
    · rintro last after ⟨finish, others, passage', advanced', inside'⟩
      refine ⟨finish, found ++ others, passage.trans passage', by omega, ?_⟩
      rw [List.forall_mem_append]
      refine ⟨fun finding member => ?_, inside'⟩
      have bound := inside finding member
      omega
    · intro stop after failed error isError
      rcases failed error isError with ⟨finish, others, passage', reported⟩
      exact ⟨finish, found ++ others, passage.trans passage', reported⟩
  · exact fun _ _ failed => failed

theorem weaken (lists : rule.ListsFrom tokens place state first slack) (fewer : second ≤ first)
    (more : slack ≤ count) : rule.ListsFrom tokens place state second count := by
  apply Rule.Ends.imp lists
  · rintro result after ⟨finish, found, passage, advanced, inside⟩
    refine ⟨finish, found, passage, by omega, fun finding member => ?_⟩
    have bound := inside finding member
    omega
  · exact fun _ _ failed => failed

/-- A rule that finds nothing wrong and reads no token. -/
theorem quiet {after : State} (arrives : after.IsAt tokens place)
    (errors : after.errors = state.errors) :
    ∃ finish found, Passage tokens state place finish found after ∧ place + 0 ≤ finish ∧
      ∀ finding ∈ found, finding.position < finish + 0 :=
  ⟨place, [], .quiet arrives errors (Nat.le_refl _), Nat.le_refl _, List.forall_mem_nil _⟩

end Rule.ListsFrom

namespace Rule.Lists

variable {rule : Rule α} {next : α → Rule β} {first second : Nat}

/-- One rule after another, of which the first one finds nothing at the tokens that it leaves. -/
theorem bind (lists : rule.Lists tokens first 0)
    (continues : ∀ result, (next result).Lists tokens (count - first) slack) :
    (rule >>= next).Lists tokens count slack :=
  fun place state isAt => (lists place state isAt).bind continues (Nat.zero_le _)

/-- One rule after another, of which the first one may find something at the next token. -/
theorem bind_of_le (lists : rule.Lists tokens first 1)
    (continues : ∀ result, (next result).Lists tokens (count - first) slack)
    (enough : 1 ≤ count - first + slack) : (rule >>= next).Lists tokens count slack :=
  fun place state isAt => (lists place state isAt).bind continues enough

theorem weaken (lists : rule.Lists tokens first slack) (fewer : second ≤ first)
    (more : slack ≤ count) : rule.Lists tokens second count :=
  fun place state isAt => (lists place state isAt).weaken fewer more

theorem pure (result : α) : (Pure.pure result : Rule α).Lists tokens 0 0 :=
  fun _ _ isAt => Rule.ListsFrom.quiet isAt rfl

theorem fail {fault : SyntaxFault} (isOther : fault ≠ .invalidTarget) :
    (Grammar.fail fault : Rule α).Lists tokens count slack := by
  intro place state isAt
  apply ends_fail
  rintro error ⟨⟩
  exact ⟨place, [], .quiet isAt rfl (Nat.le_refl _), fault, isOther, rfl⟩

theorem exhausted : (throw .exhausted : Rule α).Lists tokens count slack := by
  intro place state isAt
  apply Rule.Ends.throw
  rintro error ⟨⟩

end Rule.Lists

/-! ## Single tokens -/

/-- Looking at a token that is not the end of the input, one sees that a token is left. -/
theorem listsFrom_peek {next : Token → Rule β}
    (continues : (state.next.kind.isEnding = false → state.rest ≠ []) →
      (next state.next).ListsFrom tokens place state count slack)
    (isAt : state.IsAt tokens place) :
    (peek >>= next).ListsFrom tokens place state count slack := by
  apply Rule.Ends.bind
  apply ends_peek
  apply continues
  intro isToken none
  rw [State.next, none] at isToken
  exact absurd isAt.isEnding (Bool.eq_false_iff.mp isToken)

theorem lists_peek {next : Token → Rule β} (continues : ∀ token, (next token).Lists tokens count slack) :
    (peek >>= next).Lists tokens count slack :=
  fun place state isAt => listsFrom_peek (fun _ => continues state.next place state isAt) isAt

theorem listsFrom_skip (isLeft : state.rest ≠ []) (isAt : state.IsAt tokens place) :
    skip.ListsFrom tokens place state 1 0 := by
  rcases List.exists_cons_of_ne_nil isLeft with ⟨token, rest, here⟩
  apply ends_skip
  rw [here]
  exact ⟨place + 1, [], .quiet (isAt.of_cons here) rfl (Nat.le_succ _), Nat.le_refl _,
    List.forall_mem_nil _⟩

/-- At the end of the input no token is skipped. -/
theorem lists_skip : skip.Lists tokens 0 0 := by
  rintro place ⟨_ | ⟨token, rest⟩, ending, nextId, errors⟩ isAt
  · exact ends_skip (Rule.ListsFrom.quiet isAt rfl)
  · exact (listsFrom_skip (List.cons_ne_nil _ _) isAt).weaken (Nat.zero_le _) (Nat.le_refl _)

theorem lists_sees (kind : Kind) : (sees kind).Lists tokens 0 0 :=
  fun _ _ isAt => ends_sees kind (Rule.ListsFrom.quiet isAt rfl)

theorem lists_atEnd : atEnd.Lists tokens 0 0 :=
  fun _ _ isAt => ends_atEnd (Rule.ListsFrom.quiet isAt rfl)

theorem lists_freshId : freshId.Lists tokens 0 0 :=
  fun _ _ isAt => ends_freshId (Rule.ListsFrom.quiet ⟨isAt.left, isAt.isEnding⟩ rfl)

/-- A fault at the next token is noted, and the token is left. -/
theorem listsFrom_note {fault : SyntaxFault} (isOther : fault ≠ .invalidTarget)
    (isAt : state.IsAt tokens place) :
    (note state.next fault).ListsFrom tokens place state 0 1 := by
  apply ends_note
  refine ⟨place, [⟨place, state.next, fault⟩], ⟨⟨isAt.left, isAt.isEnding⟩, ?_, ?_⟩,
    Nat.le_refl _, ?_⟩
  · exact Array.toList_push
  · exact .cons isAt.getElem?_eq_next isOther (Nat.le_refl _) (.nil (Nat.le_refl _))
  · exact List.forall_mem_singleton.mpr (Nat.lt_succ_self _)

theorem lists_note {fault : SyntaxFault} (isOther : fault ≠ .invalidTarget) :
    (peek >>= fun token => note token fault).Lists tokens 0 1 :=
  fun _ _ isAt => listsFrom_peek (fun _ => listsFrom_note isOther isAt) isAt

/-- A token that is read if it is of a kind. -/
theorem lists_accept (kind : Kind) {next : Option Token → Rule β}
    (found : ∀ token, (next (some token)).Lists tokens (count - 1) slack)
    (missing : (next none).Lists tokens count slack) :
    (accept kind >>= next).Lists tokens count slack := by
  intro place state isAt
  apply Rule.Ends.bind
  apply ends_accept
  · intro token rest here _
    have read : Passage tokens state place (place + 1) [] { state with rest := rest } :=
      .quiet (isAt.of_cons here) rfl (Nat.le_succ _)
    apply (found token _ _ read.arrives).imp
    · rintro result after ⟨finish, others, passage, advanced, inside⟩
      exact ⟨finish, others, read.trans passage, by omega, inside⟩
    · intro stop after failed error isError
      rcases failed error isError with ⟨finish, others, passage, reported⟩
      exact ⟨finish, others, read.trans passage, reported⟩
  · exact fun _ => missing place state isAt

theorem lists_ifAccepts (kind : Kind) {whenRead whenMissing : Rule β}
    (read : whenRead.Lists tokens (count - 1) slack)
    (missing : whenMissing.Lists tokens count slack) :
    (accepts kind >>= fun found => if found = true then whenRead else whenMissing).Lists tokens
      count slack := by
  rw [accepts, bind_assoc]
  exact lists_accept kind (fun _ => read) missing

theorem lists_demand (kind : Kind) (what : Demand) : (demand kind what).Lists tokens 1 0 := by
  apply lists_accept
  · exact fun token => .pure token
  · exact .fail fun impossible => by cases impossible

theorem lists_demandSymbol (symbol : Symbol) (what : Demand) :
    (demandSymbol symbol what).Lists tokens 1 0 :=
  (lists_demand _ what).bind fun _ => .pure ()

theorem lists_demandName (what : Demand) : (demandName what).Lists tokens 1 0 :=
  (lists_demand _ what).bind fun _ => .pure _

/-! ## Recovery -/

theorem skipAfter_suffix (skipped : Token) (tokens : List Token) :
    skipAfter skipped tokens <:+ tokens := by
  induction tokens generalizing skipped with
  | nil => exact List.suffix_refl _
  | cons token rest induction =>
    rw [skipAfter]
    split
    · exact List.suffix_refl _
    · exact (induction token).trans (List.suffix_cons token rest)

theorem skipStatement_suffix (tokens : List Token) : skipStatement tokens <:+ tokens := by
  cases tokens with
  | nil => exact List.suffix_refl _
  | cons token rest => exact (skipAfter_suffix token rest).trans (List.suffix_cons token rest)

/-- The mistake at which a rule fails is listed behind its other findings. -/
theorem lists_recovering {rule : Rule α} (lists : rule.Lists tokens count slack)
    (le : slack ≤ 1) : (recovering rule).Lists tokens 0 1 := by
  intro place state isAt
  apply ends_recovering
  apply Rule.Ends.imp (lists place state isAt)
  · rintro result after ⟨finish, found, passage, advanced, inside⟩
    refine ⟨finish, found, passage, by omega, fun finding member => ?_⟩
    have bound := inside finding member
    omega
  · intro stop middle failed
    cases stop with
    | exhausted => rintro error ⟨⟩
    | mistake error =>
      rcases failed error rfl with ⟨between, found, passage, fault, isOther, rfl⟩
      rcases passage.arrives.exists_of_suffix (skipStatement_suffix middle.rest) with
        ⟨finish, le, arrives⟩
      have skipped : Passage tokens middle between finish [⟨between, middle.next, fault⟩]
          { middle.note (.at middle.next fault) with rest := skipStatement middle.rest } :=
        { arrives := ⟨arrives.left, arrives.isEnding⟩
          errors := Array.toList_push
          listed := .cons passage.arrives.getElem?_eq_next isOther (Nat.le_refl _) (.nil le) }
      have whole := passage.trans skipped
      refine ⟨finish, _, whole, Nat.le_trans passage.listed.le le, fun finding member => ?_⟩
      exact Nat.lt_succ_of_le (whole.listed.bounds finding member).2

end Lox.Grammar
