import Lox.Source.Piece
import Mathlib

/-!
# Characters as bytes

A text is encoded by bytes.  Characters below 128 are their own bytes; all others start with a byte
from `0xC0` on, and go on with bytes from `0x80` up to there.  So tests of bytes for such characters
say the same as tests of the characters themselves (`takeWhile_encode`), and what lies between two
characters is a boundary of the text (`isValid_byteSize`).
-/

namespace Lox.Bytes

/-- The bytes of characters. -/
def encode (chars : List Char) : List UInt8 :=
  chars.flatMap String.utf8EncodeChar

/-- The number of bytes of characters. -/
def byteSize (chars : List Char) : Nat :=
  (encode chars).length

/-- The bytes of a text. -/
def bytes (text : String) : List UInt8 :=
  text.toByteArray.data.toList

theorem bytes_eq_encode (text : String) : bytes text = encode text.toList := by
  rw [bytes, ← String.utf8Encode_toList, List.utf8Encode, List.data_toByteArray]
  rfl

theorem bytes_inj {first second : String} : bytes first = bytes second ↔ first = second := by
  rw [bytes, bytes, Array.toList_inj, ← String.toByteArray_inj, ByteArray.ext_iff]

@[simp]
theorem encode_nil : encode [] = [] := rfl

theorem encode_cons (char : Char) (chars : List Char) :
    encode (char :: chars) = String.utf8EncodeChar char ++ encode chars := rfl

@[simp]
theorem encode_append (first second : List Char) :
    encode (first ++ second) = encode first ++ encode second :=
  List.flatMap_append

@[simp]
theorem byteSize_append (first second : List Char) :
    byteSize (first ++ second) = byteSize first + byteSize second := by
  rw [byteSize, encode_append, List.length_append]
  rfl

/-! ## Single characters -/

/-- What holds of all small numbers holds of all bytes. -/
theorem forall_byte {property : UInt8 → Prop} (all : ∀ code : Fin 256, property (.ofNat code))
    (byte : UInt8) : property byte := by
  have holds := all ⟨byte.toNat, byte.toNat_lt⟩
  rwa [UInt8.ofNat_toNat] at holds

/-- A byte that goes on with a character. -/
def isContinuation (byte : UInt8) : Bool :=
  byte &&& 0xC0 == 0x80

theorem isContinuation_iff : ∀ byte : UInt8,
    isContinuation byte ↔ 0x80 ≤ byte.toNat ∧ byte.toNat < 0xC0 :=
  forall_byte (by decide +kernel)

/-- A character below 128 is its own byte. -/
theorem utf8EncodeChar_of_lt {char : Char} (isAscii : char.toNat < 128) :
    String.utf8EncodeChar char = [char.toUInt8] := by
  have isAscii : char.val.toNat ≤ 0x7f := Nat.le_of_lt_succ isAscii
  rw [String.utf8EncodeChar, if_pos isAscii]
  rfl

/-- Any other character starts with a byte from `0xC0` on. -/
theorem utf8EncodeChar_of_le {char : Char} (isOther : 128 ≤ char.toNat) :
    ∃ first others, String.utf8EncodeChar char = first :: others ∧ 0xC0 ≤ first.toNat ∧
      ∀ byte ∈ others, 0x80 ≤ byte.toNat ∧ byte.toNat < 0xC0 := by
  have isOther : ¬ char.val.toNat ≤ 0x7f := Nat.not_le.mpr isOther
  have tail (code : Nat) : 0x80 ≤ (UInt8.ofNat (code % 0x40 + 0x80)).toNat ∧
      (UInt8.ofNat (code % 0x40 + 0x80)).toNat < 0xC0 := by
    rw [UInt8.toNat_ofNat']
    omega
  have head (code : Nat) {least : Nat} (small : code < 0x40) (le : 0xC0 ≤ least)
      (fits : least + code < 256) : 0xC0 ≤ (UInt8.ofNat (code + least)).toNat := by
    rw [UInt8.toNat_ofNat']
    omega
  rw [String.utf8EncodeChar, if_neg isOther]
  split
  · exact ⟨_, _, rfl, head _ (by omega) (by omega) (by omega),
      List.forall_mem_singleton.mpr (tail _)⟩
  split
  · exact ⟨_, _, rfl, head _ (by omega) (by omega) (by omega),
      List.forall_mem_cons.mpr ⟨tail _, List.forall_mem_singleton.mpr (tail _)⟩⟩
  · exact ⟨_, _, rfl, head _ (by omega) (by omega) (by omega), List.forall_mem_cons.mpr
      ⟨tail _, List.forall_mem_cons.mpr ⟨tail _, List.forall_mem_singleton.mpr (tail _)⟩⟩⟩

theorem utf8EncodeChar_ne_nil (char : Char) : String.utf8EncodeChar char ≠ [] := by
  rw [← List.length_pos_iff, String.length_utf8EncodeChar]
  exact char.utf8Size_pos

theorem toNat_ofUInt8 (byte : UInt8) : (Char.ofUInt8 byte).toNat = byte.toNat := rfl

theorem ofUInt8_toUInt8 {char : Char} (isAscii : char.toNat < 128) :
    Char.ofUInt8 char.toUInt8 = char := by
  apply Char.toNat_inj.mp
  rw [toNat_ofUInt8]
  show char.toNat % 256 = char.toNat
  omega

/-! ## Tests of bytes -/

section

variable {holds : Char → Bool} {other : Bool}
  (uniform : ∀ char : Char, 128 ≤ char.toNat → holds char = other)
include uniform

/-- A test that tells only characters below 128 apart holds of a byte if it does of its character. -/
theorem holds_of_mem_utf8EncodeChar (char : Char) :
    ∀ byte ∈ String.utf8EncodeChar char, holds (.ofUInt8 byte) = holds char := by
  intro byte member
  rcases Nat.lt_or_ge char.toNat 128 with isAscii | isOther
  · rw [utf8EncodeChar_of_lt isAscii] at member
    rw [List.mem_singleton.mp member, ofUInt8_toUInt8 isAscii]
  · rw [uniform char isOther]
    apply uniform
    rw [toNat_ofUInt8]
    rcases utf8EncodeChar_of_le isOther with ⟨first, others, same, large, rest⟩
    rw [same] at member
    rcases List.mem_cons.mp member with rfl | member
    · omega
    · exact (rest byte member).1

theorem takeWhile_encode (chars : List Char) :
    (encode chars).takeWhile (fun byte => holds (.ofUInt8 byte)) =
      encode (chars.takeWhile holds) := by
  induction chars with
  | nil => rfl
  | cons char chars induction =>
    have same := holds_of_mem_utf8EncodeChar uniform char
    rw [encode_cons]
    cases here : holds char with
    | true =>
      rw [List.takeWhile_append_of_pos (fun byte member => (same byte member).trans here),
        induction, List.takeWhile_cons_of_pos here]
      rfl
    | false =>
      rcases List.exists_cons_of_ne_nil (utf8EncodeChar_ne_nil char) with ⟨first, others, starts⟩
      have stops := same first (starts ▸ List.mem_cons_self)
      rw [here] at stops
      rw [List.takeWhile_cons_of_neg (by rw [here]; decide), starts, List.cons_append,
        List.takeWhile_cons_of_neg (by rw [stops]; decide)]
      rfl

end

theorem countP_encode (chars : List Char) :
    (encode chars).countP (fun byte => Char.ofUInt8 byte == '\n') = newlines chars := by
  induction chars with
  | nil => rfl
  | cons char chars induction =>
    have uniform (char : Char) (isOther : 128 ≤ char.toNat) : (char == '\n') = false := by
      rw [beq_eq_false_iff_ne]
      rintro rfl
      revert isOther
      decide
    have same := holds_of_mem_utf8EncodeChar uniform char
    rw [encode_cons, List.countP_append, induction]
    by_cases isBreak : char = '\n'
    · subst isBreak
      exact (Nat.add_comm _ _).trans (List.count_cons_self).symm
    · have none : (String.utf8EncodeChar char).countP (Char.ofUInt8 · == '\n') = 0 := by
        rw [List.countP_eq_zero]
        intro byte member
        rw [same byte member, beq_iff_eq]
        exact isBreak
      rw [none, Nat.zero_add]
      exact (List.count_cons_of_ne isBreak).symm

/-! ## Boundaries -/

section

variable {text : String} {before middle after : List Char}

/-- Between two characters is a boundary. -/
theorem isValid_byteSize (whole : text.toList = before ++ after) :
    String.Pos.Raw.IsValid text ⟨byteSize before⟩ := by
  rw [String.Pos.Raw.isValid_iff_exists_append]
  refine ⟨.ofList before, .ofList after, ?_, ?_⟩
  · rw [← String.ofList_append, ← whole, String.ofList_toList]
  · apply String.Pos.Raw.ext
    rw [String.byteIdx_rawEndPos, ← String.size_toByteArray, String.toByteArray_ofList,
      List.utf8Encode, List.size_toByteArray]
    rfl

/-- The text between two boundaries. -/
theorem extract_eq (whole : text.toList = before ++ middle ++ after) (first last : text.Pos)
    (starts : first.offset.byteIdx = byteSize before)
    (ends : last.offset.byteIdx = byteSize (before ++ middle)) :
    text.extract first last = .ofList middle := by
  apply String.toByteArray_inj.mp
  apply ByteArray.ext
  apply Array.toList_inj.mp
  have here := bytes_eq_encode text
  rw [whole, bytes, encode_append, encode_append, List.append_assoc] at here
  rw [String.toByteArray_extract, starts, ends, byteSize_append, ByteArray.data_extract,
    Array.toList_extract, List.extract_eq_take_drop, Nat.add_sub_cancel_left, here, byteSize,
    byteSize, List.drop_left, List.take_left, String.toByteArray_ofList, List.utf8Encode,
    List.data_toByteArray]
  rfl

end

end Lox.Bytes
