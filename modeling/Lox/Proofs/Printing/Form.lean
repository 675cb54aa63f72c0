import Lox.Proofs.Printing.Word

/-!
# Printed forms

A printed tree is a form: a word, a text in quotes, or forms in parentheses or braces.  The
characters of a form can be read in one way only, whatever stands behind it
(`Form.eq_of_chars_append`).
-/

namespace Lox

/-- The shape of a printed tree. -/
inductive Form where
  | atom (word : Word)
  | quoted (contents : String)
  /-- Forms in parentheses, with spaces between. -/
  | round (parts : List Form)
  /-- Forms in braces, with a space in front of each of them and at the end. -/
  | curly (parts : List Form)

mutual

/-- How a form is printed. -/
@[simp]
def Form.chars : Form → List Char
  | .atom word => word.text.toList
  | .quoted contents => '"' :: contents.toList ++ ['"']
  | .round parts => '(' :: Form.charsJoined parts ++ [')']
  | .curly parts => '{' :: Form.charsAll parts ++ [' ', '}']

/-- Forms with spaces between. -/
@[simp]
def Form.charsJoined : List Form → List Char
  | [] => []
  | first :: others => first.chars ++ Form.charsAll others

/-- Forms, each behind a space. -/
@[simp]
def Form.charsAll : List Form → List Char
  | [] => []
  | first :: others => ' ' :: first.chars ++ Form.charsAll others

end

section

variable (numbers : Float → Prop)

mutual

/-- The words of a form may be in a tree with these numbers, and its texts have no quotes. -/
def Form.IsFit : Form → Prop
  | .atom word => word.IsFit numbers
  | .quoted contents => '"' ∉ contents.toList
  | .round parts => Form.AreFit parts
  | .curly parts => Form.AreFit parts

def Form.AreFit : List Form → Prop
  | [] => True
  | first :: others => first.IsFit ∧ Form.AreFit others

end

end

namespace Form

@[simp]
theorem charsAll_append (first second : List Form) :
    charsAll (first ++ second) = charsAll first ++ charsAll second := by
  induction first with
  | nil => rfl
  | cons form others induction => simp [induction]

theorem areFit_append {numbers : Float → Prop} {first second : List Form} :
    AreFit numbers (first ++ second) ↔ AreFit numbers first ∧ AreFit numbers second := by
  induction first with
  | nil => simp [AreFit]
  | cons form others induction => simp [AreFit, induction, and_assoc]

variable {numbers : Float → Prop} (legible : AreLegible numbers)

/-! ## Where a form ends -/

/-- No word goes on here. -/
abbrev StopsWord (rest : List Char) : Prop :=
  Stops isPlain rest

/-- A closing parenthesis, or a closing brace behind a space. -/
def ClosesForm (rest : List Char) : Prop :=
  [')'] <+: rest ∨ [' ', '}'] <+: rest

theorem ClosesForm.stopsWord {rest : List Char} (closes : ClosesForm rest) : StopsWord rest := by
  rcases closes with ⟨others, rfl⟩ | ⟨others, rfl⟩ <;>
    · rintro char ⟨⟩
      rfl

theorem stopsWord_charsAll_append (forms : List Form) {rest : List Char}
    (closes : ClosesForm rest) : StopsWord (charsAll forms ++ rest) := by
  cases forms with
  | nil => exact closes.stopsWord
  | cons form others =>
    rintro char ⟨⟩
    rfl

include legible in
/-- A form starts with a character that closes none. -/
theorem exists_chars_eq_cons {form : Form} (fit : form.IsFit numbers) :
    ∃ first others, form.chars = first :: others ∧ first ≠ ')' ∧ first ≠ '}' := by
  cases form with
  | atom word =>
    rcases List.exists_cons_of_ne_nil (Word.toList_text_ne_nil legible fit) with
      ⟨first, others, same⟩
    have plain := Word.isPlain_of_isFit legible fit first (same ▸ List.mem_cons_self)
    refine ⟨first, others, same, ?_, ?_⟩ <;>
      · rintro rfl
        cases plain
  | quoted => exact ⟨_, _, rfl, by decide, by decide⟩
  | round => exact ⟨_, _, rfl, by decide, by decide⟩
  | curly => exact ⟨_, _, rfl, by decide, by decide⟩

/-! ## Words and quoted texts -/

section

variable {rest rest' : List Char}

/-- What stops in front of the same characters is the same. -/
theorem eq_of_append_eq_of_stops {goesOn : Char → Bool} {text text' : List Char}
    (inside : ∀ char ∈ text, goesOn char) (inside' : ∀ char ∈ text', goesOn char)
    (stops : Stops goesOn rest) (stops' : Stops goesOn rest')
    (same : text ++ rest = text' ++ rest') : text = text' ∧ rest = rest' := by
  have texts := congrArg (List.takeWhile goesOn) same
  rw [stops.takeWhile_append inside, stops'.takeWhile_append inside'] at texts
  subst texts
  exact ⟨rfl, List.append_cancel_left same⟩

include legible in
theorem eq_of_word_append {word word' : Word} (fit : word.IsFit numbers)
    (fit' : word'.IsFit numbers) (stops : StopsWord rest) (stops' : StopsWord rest')
    (same : word.text.toList ++ rest = word'.text.toList ++ rest') :
    word = word' ∧ rest = rest' := by
  rcases eq_of_append_eq_of_stops (Word.isPlain_of_isFit legible fit)
    (Word.isPlain_of_isFit legible fit') stops stops' same with ⟨texts, rests⟩
  exact ⟨Word.eq_of_text_eq legible fit fit' (String.toList_inj.mp texts), rests⟩

theorem eq_of_quoted_append {text text' : String} (closed : '"' ∉ text.toList)
    (closed' : '"' ∉ text'.toList)
    (same : text.toList ++ '"' :: rest = text'.toList ++ '"' :: rest') :
    text = text' ∧ rest = rest' := by
  have stops (more : List Char) : Stops (· != '"') ('"' :: more) := by
    rintro char ⟨⟩
    rfl
  rcases eq_of_append_eq_of_stops (forall_bne_of_not_mem closed) (forall_bne_of_not_mem closed')
    (stops rest) (stops rest') same with ⟨texts, rests⟩
  exact ⟨String.toList_inj.mp texts, (List.cons.inj rests).2⟩

include legible in
/-- A word is no form of another kind. -/
theorem word_append_ne {word : Word} (fit : word.IsFit numbers) {first : Char}
    {others : List Char} (special : isPlain first = false) :
    word.text.toList ++ rest ≠ first :: others := by
  intro same
  rcases List.exists_cons_of_ne_nil (Word.toList_text_ne_nil legible fit) with
    ⟨head, tail, starts⟩
  have plain := Word.isPlain_of_isFit legible fit head (starts ▸ List.mem_cons_self)
  rw [starts] at same
  rw [(List.cons.inj same).1, special] at plain
  cases plain

end

/-! ## Forms -/

include legible

mutual

/-- A form is read in one way only. -/
theorem eq_of_chars_append : ∀ (form : Form) {form' : Form} {rest rest' : List Char},
    form.IsFit numbers → form'.IsFit numbers → StopsWord rest → StopsWord rest' →
      form.chars ++ rest = form'.chars ++ rest' → form = form' ∧ rest = rest'
  | .atom word, form', rest, rest', fit, fit', stops, stops', same => by
    cases form' with
    | atom word' =>
      rcases eq_of_word_append legible fit fit' stops stops' same with ⟨rfl, rests⟩
      exact ⟨rfl, rests⟩
    | quoted => exact (word_append_ne legible fit rfl same).elim
    | round => exact (word_append_ne legible fit rfl same).elim
    | curly => exact (word_append_ne legible fit rfl same).elim
  | .quoted contents, form', rest, rest', fit, fit', stops, stops', same => by
    cases form' with
    | atom => exact (word_append_ne legible fit' rfl same.symm).elim
    | quoted contents' =>
      simp only [chars, List.cons_append, List.append_assoc, List.nil_append] at same
      rcases eq_of_quoted_append fit fit' (List.cons.inj same).2 with ⟨rfl, rests⟩
      exact ⟨rfl, rests⟩
    | round => cases (List.cons.inj same).1
    | curly => cases (List.cons.inj same).1
  | .round parts, form', rest, rest', fit, fit', stops, stops', same => by
    cases form' with
    | atom => exact (word_append_ne legible fit' rfl same.symm).elim
    | quoted => cases (List.cons.inj same).1
    | round parts' =>
      simp only [chars, List.cons_append, List.append_assoc, List.nil_append] at same
      rcases eq_of_charsJoined_append parts fit fit' (List.cons.inj same).2 with ⟨rfl, rests⟩
      exact ⟨rfl, rests⟩
    | curly => cases (List.cons.inj same).1
  | .curly parts, form', rest, rest', fit, fit', stops, stops', same => by
    cases form' with
    | atom => exact (word_append_ne legible fit' rfl same.symm).elim
    | quoted => cases (List.cons.inj same).1
    | round => cases (List.cons.inj same).1
    | curly parts' =>
      simp only [chars, List.cons_append, List.append_assoc, List.nil_append] at same
      have closes (more : List Char) : ClosesForm (' ' :: '}' :: more) := .inr ⟨more, rfl⟩
      rcases eq_of_charsAll_append parts fit fit' (closes rest) (closes rest')
        (List.cons.inj same).2 with ⟨rfl, rests⟩
      exact ⟨rfl, (List.cons.inj (List.cons.inj rests).2).2⟩

/-- Forms in parentheses are read in one way only. -/
theorem eq_of_charsJoined_append : ∀ (parts : List Form) {parts' : List Form}
    {rest rest' : List Char}, AreFit numbers parts → AreFit numbers parts' →
      charsJoined parts ++ ')' :: rest = charsJoined parts' ++ ')' :: rest' →
        parts = parts' ∧ rest = rest'
  | [], parts', rest, rest', _, fit', same => by
    cases parts' with
    | nil => exact ⟨rfl, (List.cons.inj same).2⟩
    | cons first others =>
      rcases exists_chars_eq_cons legible fit'.1 with ⟨head, tail, starts, noRound, -⟩
      rw [charsJoined, charsJoined, starts] at same
      exact (noRound (List.cons.inj same).1.symm).elim
  | first :: others, parts', rest, rest', fit, fit', same => by
    have closes (more : List Char) : ClosesForm (')' :: more) := .inl ⟨more, rfl⟩
    cases parts' with
    | nil =>
      rcases exists_chars_eq_cons legible fit.1 with ⟨head, tail, starts, noRound, -⟩
      rw [charsJoined, charsJoined, starts] at same
      exact (noRound (List.cons.inj same).1).elim
    | cons first' others' =>
      rw [charsJoined, charsJoined, List.append_assoc, List.append_assoc] at same
      rcases eq_of_chars_append first fit.1 fit'.1 (stopsWord_charsAll_append others (closes rest))
        (stopsWord_charsAll_append others' (closes rest')) same with ⟨rfl, behind⟩
      rcases eq_of_charsAll_append others fit.2 fit'.2 (closes rest) (closes rest') behind with
        ⟨rfl, rests⟩
      exact ⟨rfl, (List.cons.inj rests).2⟩

/-- Forms behind spaces are read in one way only. -/
theorem eq_of_charsAll_append : ∀ (parts : List Form) {parts' : List Form}
    {rest rest' : List Char}, AreFit numbers parts → AreFit numbers parts' →
      ClosesForm rest → ClosesForm rest' →
        charsAll parts ++ rest = charsAll parts' ++ rest' → parts = parts' ∧ rest = rest'
  | [], parts', rest, rest', _, fit', closes, _, same => by
    cases parts' with
    | nil => exact ⟨rfl, same⟩
    | cons first others =>
      rcases exists_chars_eq_cons legible fit'.1 with ⟨head, tail, starts, noRound, noCurly⟩
      rw [charsAll, charsAll, starts] at same
      rcases closes with ⟨more, rfl⟩ | ⟨more, rfl⟩
      · cases (List.cons.inj same).1
      · exact (noCurly (List.cons.inj (List.cons.inj same).2).1.symm).elim
  | first :: others, parts', rest, rest', fit, fit', closes, closes', same => by
    cases parts' with
    | nil =>
      rcases exists_chars_eq_cons legible fit.1 with ⟨head, tail, starts, noRound, noCurly⟩
      rw [charsAll, charsAll, starts] at same
      rcases closes' with ⟨more, rfl⟩ | ⟨more, rfl⟩
      · cases (List.cons.inj same).1
      · exact (noCurly (List.cons.inj (List.cons.inj same).2).1).elim
    | cons first' others' =>
      rw [charsAll, charsAll, List.cons_append, List.cons_append, List.append_assoc,
        List.append_assoc] at same
      rcases eq_of_chars_append first fit.1 fit'.1 (stopsWord_charsAll_append others closes)
        (stopsWord_charsAll_append others' closes') (List.cons.inj same).2 with ⟨rfl, behind⟩
      rcases eq_of_charsAll_append others fit.2 fit'.2 closes closes' behind with ⟨rfl, rests⟩
      exact ⟨rfl, rests⟩

end

end Form

end Lox
