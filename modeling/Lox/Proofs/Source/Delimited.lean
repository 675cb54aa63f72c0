import Lox.Proofs.Source.Lexeme

/-!
# Strings and block comments

A string literal is read up to the next quote.  A block comment is read up to the marker that
closes it, however deep comments are nested (`closeComment_eq_ok_iff`).  What follows does not
matter then.  What is left open goes on to the end of the text.
-/

namespace Lox

/-- All characters of a text without some character are other ones. -/
theorem forall_bne_of_not_mem {chars : List Char} {stop : Char} (missing : stop ∉ chars) :
    ∀ char ∈ chars, (char != stop) = true := by
  intro char member
  rw [bne_iff_ne]
  rintro rfl
  exact missing member

/-! ## Strings -/

/-- A string literal ends with the first quote. -/
theorem Piece.string_of_closed {contents : List Char} (closed : '"' ∉ contents)
    (after : List Char) :
    string (contents ++ '"' :: after) =
      (.token (.string (.ofList contents)) ('"' :: contents ++ ['"']), after) := by
  have inside := forall_bne_of_not_mem closed
  rw [string, List.dropWhile_append_of_pos inside, List.takeWhile_append_of_pos inside,
    List.dropWhile_cons_of_neg (by decide), List.takeWhile_cons_of_neg (by decide),
    List.append_nil]

/-- Without a quote a string literal does not end. -/
theorem Piece.string_of_open {rest : List Char} (unclosed : '"' ∉ rest) :
    string rest = (.fault .unterminatedString (newlines rest) ('"' :: rest), []) := by
  rw [string, List.dropWhile_eq_nil_iff.mpr (forall_bne_of_not_mem unclosed)]

/-! ## Depths of comments -/

theorem depthChanges_cons {char : Char} {rest : List Char}
    (notClosing : ∀ others, char = '*' → rest = '/' :: others → False)
    (notOpening : ∀ others, char = '/' → rest = '*' :: others → False) :
    depthChanges (char :: rest) = 0 :: depthChanges rest := by
  rw [depthChanges.eq_def]
  split
  · next same => cases same
  · next same => cases same; exact (notClosing _ rfl rfl).elim
  · next same => cases same; exact (notOpening _ rfl rfl).elim
  · next same => cases same; rfl

/-- Of some open comments the last one is closed by the last of the changes. -/
structure Closes (depth : Int) (changes : List Int) : Prop where
  sum : depth + changes.sum = 0
  isOpen : ∀ parts, parts <+: changes → parts ≠ changes → 0 < depth + parts.sum

theorem Closes.cons {depth change : Int} {changes : List Int} (isOpen : 0 < depth)
    (later : Closes (depth + change) changes) : Closes depth (change :: changes) := by
  constructor
  · have sum := later.sum
    rw [List.sum_cons]
    omega
  · intro parts isPrefix isProper
    rcases List.prefix_cons_iff.mp isPrefix with rfl | ⟨others, rfl, within⟩
    · rwa [List.sum_nil, Int.add_zero]
    · have stillOpen := later.isOpen others within fun same => isProper (same ▸ rfl)
      rw [List.sum_cons]
      omega

theorem Closes.tail {depth change : Int} {changes : List Int}
    (closes : Closes depth (change :: changes)) : Closes (depth + change) changes := by
  constructor
  · have sum := closes.sum
    rw [List.sum_cons] at sum
    omega
  · intro parts isPrefix isProper
    have stillOpen := closes.isOpen (change :: parts) (List.cons_prefix_cons.mpr ⟨rfl, isPrefix⟩)
      fun same => isProper (List.cons.inj same).2
    rw [List.sum_cons] at stillOpen
    omega

/-- Nothing follows when no comment is open any more. -/
theorem Closes.eq_nil {changes : List Int} (closes : Closes 0 changes) : changes = [] := by
  by_contra nonempty
  have stillOpen := closes.isOpen [] (List.nil_prefix) (Ne.symm nonempty)
  rw [List.sum_nil] at stillOpen
  omega

theorem Closes.ne_nil {depth : Int} {changes : List Int} (isOpen : 0 < depth)
    (closes : Closes depth changes) : changes ≠ [] := by
  rintro rfl
  have sum := closes.sum
  rw [List.sum_nil] at sum
  omega

theorem depthChanges_eq_nil {text : List Char} (none : depthChanges text = []) : text = [] := by
  unfold depthChanges at none
  split at none
  · rfl
  all_goals cases none

/-- Of some open comments there is one open at every time. -/
def StaysOpen (depth : Int) (changes : List Int) : Prop :=
  ∀ parts, parts <+: changes → 0 < depth + parts.sum

theorem StaysOpen.cons {depth change : Int} {changes : List Int} (isOpen : 0 < depth)
    (later : StaysOpen (depth + change) changes) : StaysOpen depth (change :: changes) := by
  intro parts isPrefix
  rcases List.prefix_cons_iff.mp isPrefix with rfl | ⟨others, rfl, within⟩
  · rwa [List.sum_nil, Int.add_zero]
  · have stillOpen := later others within
    rw [List.sum_cons]
    omega

/-! ## Block comments -/

/-- A block comment ends where its opening marker is closed. -/
theorem isBlockComment_iff {comment : List Char} :
    IsBlockComment (['/', '*'] ++ comment) ↔ Closes 1 (depthChanges comment) := by
  have changes : depthChanges (['/', '*'] ++ comment) = 1 :: depthChanges comment := rfl
  rw [IsBlockComment, changes]
  constructor
  · rintro ⟨-, sum, isOpen⟩
    rw [List.sum_cons] at sum
    refine ⟨sum, ?_⟩
    intro parts isPrefix isProper
    have stillOpen := isOpen (1 :: parts) (List.cons_prefix_cons.mpr ⟨rfl, isPrefix⟩)
      (List.cons_ne_nil _ _) fun same => isProper (List.cons.inj same).2
    rwa [List.sum_cons] at stillOpen
  · intro closes
    refine ⟨List.prefix_append _ _, closes.sum, ?_⟩
    intro parts isPrefix nonempty isProper
    rcases List.prefix_cons_iff.mp isPrefix with rfl | ⟨others, rfl, within⟩
    · exact (nonempty rfl).elim
    · exact closes.isOpen others within fun same => isProper (same ▸ rfl)

section

variable {innermost before line : Nat} {others : List Nat} {chars text after : List Char}

/-- A comment is read up to the marker that closes it, and it is open before. -/
theorem closes_closeComment
    (closed : closeComment innermost others before chars = .ok (text, after)) :
    Closes (others.length + 1) (depthChanges text) := by
  fun_induction closeComment innermost others before chars generalizing text after with
  | case1 => cases closed
  | case2 =>
    cases closed
    exact .cons (by decide) ⟨rfl, fun parts isPrefix isProper =>
      absurd (List.prefix_nil.mp isPrefix) isProper⟩
  | case3 innermost before rest outer outermost induction =>
    cases inner : closeComment outer outermost before rest with
    | error => rw [inner] at closed; cases closed
    | ok pair =>
      rw [inner] at closed
      cases closed
      apply Closes.cons (by omega)
      have later := induction inner
      rwa [List.length_cons, Int.natCast_succ, Int.add_neg_cancel_right]
  | case4 innermost others before rest induction =>
    cases inner : closeComment before (innermost :: others) before rest with
    | error => rw [inner] at closed; cases closed
    | ok pair =>
      rw [inner] at closed
      cases closed
      apply Closes.cons (by omega)
      have later := induction inner
      rwa [List.length_cons, Int.natCast_succ] at later
  | case5 innermost others before char rest notClosing notOpening induction =>
    cases inner : closeComment innermost others (before + newlines [char]) rest with
    | error => rw [inner] at closed; cases closed
    | ok pair =>
      rw [inner] at closed
      cases closed
      have whole := closeComment_append inner
      rw [depthChanges_cons]
      · apply Closes.cons (by omega)
        rw [Int.add_zero]
        exact induction inner
      · intro others isStar same
        rw [same] at whole
        exact notClosing _ isStar whole.symm
      · intro others isSlash same
        rw [same] at whole
        exact notOpening _ isSlash whole.symm

/-- A comment that is closed by its last marker is read to its end, whatever follows. -/
theorem closeComment_of_closes (closes : Closes (others.length + 1) (depthChanges text))
    (after : List Char) :
    closeComment innermost others before (text ++ after) = .ok (text, after) := by
  fun_induction depthChanges text generalizing innermost others before with
  | case1 => exact (closes.ne_nil (by omega) rfl).elim
  | case2 rest induction =>
    cases others with
    | nil =>
      obtain rfl : rest = [] := depthChanges_eq_nil closes.tail.eq_nil
      rfl
    | cons outer outermost =>
      have later := closes.tail
      rw [List.length_cons, Int.natCast_succ, Int.add_neg_cancel_right] at later
      rw [List.cons_append, List.cons_append, closeComment, induction later]
      rfl
  | case3 rest induction =>
    have later := closes.tail
    rw [List.cons_append, List.cons_append, closeComment, induction]
    · rfl
    · rwa [List.length_cons, Int.natCast_succ]
  | case4 char rest notClosing notOpening induction =>
    have later := closes.tail
    rw [Int.add_zero] at later
    -- The comment goes on, so the next character is one of its own.
    have nonempty : rest ≠ [] := by
      rintro rfl
      exact later.ne_nil (by omega) rfl
    rcases List.exists_cons_of_ne_nil nonempty with ⟨second, others, rfl⟩
    rw [List.cons_append, closeComment, induction later]
    · rfl
    · rintro more rfl same
      obtain rfl := (List.cons.inj same).1
      exact notClosing others rfl rfl
    · rintro more rfl same
      obtain rfl := (List.cons.inj same).1
      exact notOpening others rfl rfl

/-- What is read is the part of the text that closes all comments. -/
theorem closeComment_eq_ok_iff :
    closeComment innermost others before chars = .ok (text, after) ↔
      chars = text ++ after ∧ Closes (others.length + 1) (depthChanges text) := by
  constructor
  · exact fun closed => ⟨(closeComment_append closed).symm, closes_closeComment closed⟩
  · rintro ⟨rfl, closes⟩
    exact closeComment_of_closes closes after

/-- If a comment has no end, then it is open all the time. -/
theorem staysOpen_closeComment
    (unclosed : closeComment innermost others before chars = .error line) :
    StaysOpen (others.length + 1) (depthChanges chars) := by
  fun_induction closeComment innermost others before chars with
  | case1 =>
    intro parts isPrefix
    rw [List.prefix_nil.mp isPrefix, List.sum_nil]
    omega
  | case2 => cases unclosed
  | case3 innermost before rest outer outermost induction =>
    cases inner : closeComment outer outermost before rest with
    | ok => rw [inner] at unclosed; cases unclosed
    | error =>
      rw [inner] at unclosed
      cases unclosed
      apply StaysOpen.cons (by omega)
      have later := induction inner
      rwa [List.length_cons, Int.natCast_succ, Int.add_neg_cancel_right]
  | case4 innermost others before rest induction =>
    cases inner : closeComment before (innermost :: others) before rest with
    | ok => rw [inner] at unclosed; cases unclosed
    | error =>
      rw [inner] at unclosed
      cases unclosed
      apply StaysOpen.cons (by omega)
      have later := induction inner
      rwa [List.length_cons, Int.natCast_succ] at later
  | case5 innermost others before char rest notClosing notOpening induction =>
    cases inner : closeComment innermost others (before + newlines [char]) rest with
    | ok => rw [inner] at unclosed; cases unclosed
    | error =>
      rw [inner] at unclosed
      cases unclosed
      rw [depthChanges_cons notClosing notOpening]
      apply StaysOpen.cons (by omega)
      rw [Int.add_zero]
      exact induction inner

end

end Lox
