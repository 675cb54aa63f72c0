/-!
# Sets of characters

A set of characters is a list of the runs of numbers that its characters have.  Three
sets are short and stand here: the separators, the characters that are ignored where
text is displayed, and the halfwidth sound marks.
-/

namespace Lox

/-- A set of characters: the first and the last number of each run, in rising order. -/
structure CharSet where
  runs : List (Nat × Nat)
deriving DecidableEq, Repr

namespace CharSet

/-- Whether a character is in a set. -/
def contains (set : CharSet) (char : Char) : Bool :=
  set.runs.any fun (first, last) => first ≤ char.toNat && char.toNat ≤ last

/-- The general category `Z`: spaces, the line separator and the paragraph separator. -/
def separator : CharSet := ⟨[
  (0x20, 0x20), (0xa0, 0xa0), (0x1680, 0x1680), (0x2000, 0x200a), (0x2028, 0x2029),
  (0x202f, 0x202f), (0x205f, 0x205f), (0x3000, 0x3000)]⟩

/-- The property `Default_Ignorable_Code_Point`: by default these have no visible form. -/
def defaultIgnorable : CharSet := ⟨[
  (0xad, 0xad), (0x34f, 0x34f), (0x61c, 0x61c), (0x115f, 0x1160), (0x17b4, 0x17b5),
  (0x180b, 0x180f), (0x200b, 0x200f), (0x202a, 0x202e), (0x2060, 0x206f), (0x3164, 0x3164),
  (0xfe00, 0xfe0f), (0xfeff, 0xfeff), (0xffa0, 0xffa0), (0xfff0, 0xfff8), (0x1bca0, 0x1bca3),
  (0x1d173, 0x1d17a), (0xe0000, 0xe0fff)]⟩

/--
The halfwidth voiced and semi-voiced sound marks.  They extend the letter before them
as accents do, but are letters themselves, which have a place and a form of their own.
-/
def halfwidthSoundMark : CharSet := ⟨[(0xff9e, 0xff9f)]⟩

end CharSet

end Lox
