import Lox.Proofs.Bytes.Scanner

/-!
# Steps of the scanner over bytes

What each action does is said by the bytes that are left, and by how many bytes and line breaks it
reads (`Scanner.forward`).
-/

namespace Lox.Bytes

namespace Scanner

/-- The bytes that are left. -/
def left (scanner : Scanner) : List UInt8 :=
  (bytes scanner.text).drop scanner.curr

/-- Some bytes and line breaks further on. -/
def forward (scanner : Scanner) (count lines : Nat) : Scanner :=
  { scanner with curr := scanner.curr + count, line := scanner.line + lines }

variable (scanner : Scanner) (count lines : Nat)

@[simp]
theorem left_forward : (scanner.forward count lines).left = scanner.left.drop count :=
  List.drop_drop.symm

@[simp]
theorem forward_forward (count' lines' : Nat) :
    (scanner.forward count lines).forward count' lines' =
      scanner.forward (count + count') (lines + lines') := by
  rw [forward, forward, forward, Nat.add_assoc, Nat.add_assoc]

@[simp]
theorem curr_forward : (scanner.forward count lines).curr = scanner.curr + count := rfl

@[simp]
theorem line_forward : (scanner.forward count lines).line = scanner.line + lines := rfl

end Scanner

/-! ## Actions one behind the other -/

section

variable {α β : Type} {action : Scan α} {next : α → Scan β} {before after : Scanner} {value : α}

/-- Actions that do the same do the same in front of other ones. -/
theorem bind_congr {other : Scan α} {start : Scanner} (same : action before = other start) :
    (action >>= next) before = (other >>= next) start := by
  show EStateM.bind action next before = EStateM.bind other next start
  rw [EStateM.bind, same, EStateM.bind]

theorem bind_eq (ran : action before = .ok value after) :
    (action >>= next) before = next value after := by
  show EStateM.bind action next before = _
  rw [EStateM.bind, ran]

end

variable {scanner : Scanner} {byte : UInt8} {rest : List UInt8}

theorem Scanner.left_behind (here : scanner.left = byte :: rest) (lines : Nat) :
    (scanner.forward 1 lines).left = rest := by
  rw [left_forward, here]
  rfl

/-! ## Single bytes -/

theorem getElem?_curr (distance : Nat) :
    (bytes scanner.text)[scanner.curr + distance]? = scanner.left[distance]? :=
  List.getElem?_drop.symm

theorem atEnd_eq : atEnd scanner = .ok scanner.left.isEmpty scanner := by
  have same : decide ((bytes scanner.text).length ≤ scanner.curr) = scanner.left.isEmpty := by
    rw [Bool.eq_iff_iff, decide_eq_true_iff, List.isEmpty_iff, Scanner.left,
      List.drop_eq_nil_iff]
  exact congrArg (EStateM.Result.ok · scanner) same

theorem advance_eq (here : scanner.left = byte :: rest) :
    advance scanner = .ok byte (scanner.forward 1 0) := by
  have found : (bytes scanner.text)[scanner.curr]? = some byte := by
    rw [← Nat.add_zero scanner.curr, getElem?_curr, here]
    rfl
  rcases List.getElem?_eq_some_iff.mp found with ⟨inside, isByte⟩
  show (if inside : scanner.curr < (bytes scanner.text).length then _ else _ : Scan UInt8)
    scanner = _
  rw [dif_pos inside]
  exact congrArg (EStateM.Result.ok · _) isByte

theorem peek_eq (distance : Nat) :
    peek distance scanner = .ok (scanner.left[distance]?.getD 0) scanner := by
  rw [← getElem?_curr]
  rfl

theorem accepts_eq_true {expected : Char} (here : scanner.left = expected.toUInt8 :: rest) :
    accepts expected scanner = .ok true (scanner.forward 1 0) := by
  rw [accepts, bind_eq (peek_eq 0), bind_eq atEnd_eq, here]
  simp only [List.getElem?_cons_zero, Option.getD_some, beq_self_eq_true, List.isEmpty_cons,
    Bool.not_false, Bool.and_self, if_true]
  rfl

theorem accepts_eq_false {expected : Char}
    (other : scanner.left.head? ≠ some expected.toUInt8) :
    accepts expected scanner = .ok false scanner := by
  have noMatch : (scanner.left[0]?.getD 0 == expected.toUInt8 && !scanner.left.isEmpty) =
      false := by
    cases here : scanner.left with
    | nil => exact Bool.and_false _
    | cons byte rest =>
      rw [here] at other
      simpa using other
  rw [accepts, bind_eq (peek_eq 0), bind_eq atEnd_eq, noMatch]
  rfl

/-! ## Loops -/

theorem skip_eq (here : scanner.left = byte :: rest) :
    skip scanner = .ok () (scanner.forward 1 0) := by
  rw [skip, bind_eq (advance_eq here)]
  rfl

theorem skipCounting_eq (here : scanner.left = byte :: rest) :
    skipCounting scanner =
      .ok () (scanner.forward 1 (if Char.ofUInt8 byte == '\n' then 1 else 0)) := by
  rw [skipCounting, bind_eq (advance_eq here)]
  split <;> rfl

section

variable {condition : Scan Bool} {step : Scan Unit} {goesOn counts : UInt8 → Bool}

/-- A loop reads the bytes for which its condition holds, and counts some of them as line breaks. -/
theorem skipWhile_eq
    (looks : ∀ scanner, condition scanner = .ok (scanner.left.head?.any goesOn) scanner)
    (steps : ∀ scanner byte rest, scanner.left = byte :: rest →
      step scanner = .ok () (scanner.forward 1 (if counts byte then 1 else 0)))
    {fuel : Nat} (enough : scanner.left.length < fuel) :
    skipWhile condition step fuel scanner =
      .ok () (scanner.forward (scanner.left.takeWhile goesOn).length
        ((scanner.left.takeWhile goesOn).countP counts)) := by
  induction fuel generalizing scanner with
  | zero => omega
  | succ fuel induction =>
    rw [skipWhile, bind_eq (looks scanner)]
    cases here : scanner.left with
    | nil => rfl
    | cons byte rest =>
      rw [here] at enough
      cases holds : goesOn byte with
      | false =>
        rw [List.head?_cons, Option.any_some, holds,
          List.takeWhile_cons_of_neg (by rw [holds]; decide)]
        rfl
      | true =>
        have next := steps scanner byte rest here
        have less : (scanner.forward 1 (if counts byte then 1 else 0)).left.length < fuel := by
          rw [Scanner.left_forward, here]
          exact Nat.lt_of_succ_lt_succ enough
        rw [List.head?_cons, Option.any_some, holds, if_pos rfl, bind_eq next, induction less,
          Scanner.left_forward, here, Scanner.forward_forward, List.takeWhile_cons_of_pos holds,
          List.length_cons, List.countP_cons, Nat.add_comm 1, Nat.add_comm (ite _ _ _)]
        rfl

/-- A loop without line breaks reads the bytes for which its condition holds. -/
theorem skipWhile_skip_eq
    (looks : ∀ scanner, condition scanner = .ok (scanner.left.head?.any goesOn) scanner)
    {fuel : Nat} (enough : scanner.left.length < fuel) :
    skipWhile condition skip fuel scanner =
      .ok () (scanner.forward (scanner.left.takeWhile goesOn).length 0) := by
  have steps (scanner : Scanner) (byte : UInt8) (rest : List UInt8)
      (here : scanner.left = byte :: rest) :
      skip scanner = .ok () (scanner.forward 1 (if (fun _ => false) byte then 1 else 0)) :=
    skip_eq here
  rw [skipWhile_eq looks steps enough, List.countP_false]
  rfl

end

/-! ## Parts of the source text -/

theorem length_left : scanner.left.length = (bytes scanner.text).length - scanner.curr :=
  List.length_drop

theorem findIdx_eq (stops : UInt8 → Bool) (all : List UInt8) :
    all.findIdx stops = (all.takeWhile (!stops ·)).length := by
  induction all with
  | nil => rfl
  | cons byte rest induction =>
    rw [List.findIdx_cons, induction]
    cases holds : stops byte <;> simp [holds]

/-- A line comment is read up to the line break. -/
theorem skipLine_eq (inside : scanner.curr ≤ (bytes scanner.text).length) :
    skipLine scanner = .ok () (scanner.forward
      (scanner.left.takeWhile fun byte => Char.ofUInt8 byte != '\n').length 0) := by
  have found : bytesFrom scanner.curr scanner = .ok scanner.left scanner := by
    show (if scanner.curr ≤ (bytes scanner.text).length then _ else _ : Scan (List UInt8))
      scanner = _
    rw [if_pos inside]
    rfl
  show (bytesFrom scanner.curr >>= _) scanner = _
  rw [bind_eq found, findIdx_eq]
  rfl

theorem bytesBetween_eq {first last : Nat} (ordered : first ≤ last)
    (inside : last ≤ (bytes scanner.text).length) :
    bytesBetween first last scanner =
      .ok (((bytes scanner.text).drop first).take (last - first)) scanner := by
  show (if first ≤ last ∧ last ≤ (bytes scanner.text).length then _ else _ : Scan (List UInt8))
    scanner = _
  rw [if_pos ⟨ordered, inside⟩]
  rfl

/-- A text between two boundaries is taken. -/
theorem slice_eq {before middle after : List Char}
    (whole : scanner.text.toList = before ++ middle ++ after) :
    slice (byteSize before) (byteSize (before ++ middle)) scanner =
      .ok (.ofList middle) scanner := by
  have between : byteSize before ≤ byteSize (before ++ middle) ∧
      String.Pos.Raw.IsValid scanner.text ⟨byteSize before⟩ ∧
      String.Pos.Raw.IsValid scanner.text ⟨byteSize (before ++ middle)⟩ := by
    refine ⟨?_, ?_, isValid_byteSize whole⟩
    · rw [byteSize_append]
      exact Nat.le_add_right _ _
    · exact isValid_byteSize (whole.trans (List.append_assoc _ _ _))
  show (if between : _ then _ else _ : Scan String) scanner = _
  rw [dif_pos between]
  exact congrArg (EStateM.Result.ok · scanner) (extract_eq whole _ _ rfl rfl)

end Lox.Bytes
