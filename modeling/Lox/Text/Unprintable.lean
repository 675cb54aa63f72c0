import Lox.Text.CharSet.GraphemeExtend
import Lox.Text.CharSet.Other

/-!
# Unprintable characters

Characters that leave no visible trace, or none by themselves.  Texts in quotes show
them by their numbers.
-/

namespace Lox

/--
Whether a character leaves no visible trace by itself: it is no text, it is a blank
other than the space, it is drawn onto the character before it, or it is ignored.
Of the characters that extend others the sound marks are drawn beside them.
-/
def isUnprintable (char : Char) : Bool :=
  CharSet.other.contains char
    || CharSet.separator.contains char && char ≠ ' '
    || CharSet.graphemeExtend.contains char && !CharSet.halfwidthSoundMark.contains char
    || CharSet.defaultIgnorable.contains char

theorem isUnprintable_of_isWhitespace {char : Char} (blank : char.isWhitespace = true)
    (notSpace : char ≠ ' ') : isUnprintable char = true := by
  simp only [Char.isWhitespace, Bool.or_eq_true, decide_eq_true_eq] at blank
  rcases blank with ((space | tab) | carriageReturn) | newline
  · exact absurd space notSpace
  · subst tab; rfl
  · subst carriageReturn; rfl
  · subst newline; rfl

end Lox
