import Modulize.Text.Basic
import Modulize.Text.CharRanges
import Modulize.Text.LetterCase

/-!
# Character classes and letter case

The classes of characters that the patterns and the naming rules distinguish: blanks
(`isBlank`), letters and digits (`isAlnum`), word characters (`isWord`, `isIdent`), capitals
(`isCapital`), and characters that show when printed (`isPrintable`); and the capital and small
forms of a letter (`capital`, `small`), which may be several characters. The small form of a text
(`Text.toSmall`) also asks where its words end.
-/

namespace Modulize

open CharClass LetterCase

/-- Blanks: the ASCII blanks and separators, and the spaces of the other scripts. -/
def isBlank (c : Char) : Bool :=
  let n := c.toNat
  c == ' ' || (0x9 ≤ n && n ≤ 0xd) || (0x1c ≤ n && n ≤ 0x1f) ||
    (0x80 ≤ n && (n == 0x85 || n == 0xa0 || n == 0x1680 || (0x2000 ≤ n && n ≤ 0x200a) ||
      n == 0x2028 || n == 0x2029 || n == 0x202f || n == 0x205f || n == 0x3000))

/-- A space or a tab. -/
def isSpaceOrTab (c : Char) : Bool := c == ' ' || c == '\t'

/-- Letters and digits. -/
def isAlnum (c : Char) : Bool :=
  c.isAlphanum || (0x80 ≤ c.toNat && inRanges c.toNat alnumRanges)

/-- Decimal digits. -/
def isDecimal (c : Char) : Bool :=
  c.isDigit || (0x80 ≤ c.toNat && inRanges c.toNat decimalRanges)

/-- Word characters: letters, digits and the underscore. -/
def isWord (c : Char) : Bool := isAlnum c || c == '_'

/-- Characters that may begin a name: the underscore and most letters. -/
def isNameStart (c : Char) : Bool :=
  c == '_' || (isAlnum c && !isDecimal c && !inRanges c.toNat loneRanges)

/-- Characters of a name: those that may begin it, digits, and accents. -/
def isNamePart (c : Char) : Bool :=
  isNameStart c || isDecimal c || inRanges c.toNat [(0x300, 0x36f)]

/-- Characters of an identifier: word characters and the dollar sign. -/
def isIdent (c : Char) : Bool := isWord c || c == '$'

/-- Characters that may begin an ASCII identifier. -/
def isIdentStart (c : Char) : Bool := c.isAlpha || c == '_' || c == '$'

/-- Capital letters; a titlecase digraph is none. -/
def isCapital (c : Char) : Bool :=
  c.isUpper || (0x80 ≤ c.toNat && capitalRuns.any (·.has c.toNat))

/-- Characters that show when printed. -/
def isPrintable (c : Char) : Bool :=
  0x20 ≤ c.toNat && (c.toNat < 0x7f || !inRanges c.toNat hiddenRanges)

/-- The capital form of a character; some letters have one of several characters. -/
def capital (c : Char) : Text :=
  let n := c.toNat
  if n < 0x80 then [c.toUpper]
  else match lookup? n longCapitals with
    | some ms => ms.map Char.ofNat
    | none => [Char.ofNat ((shifted? n capitalShifts).getD n)]

/-- The small form of a character; a capital with a dot above keeps the dot as an accent. -/
def small (c : Char) : Text :=
  let n := c.toNat
  if n < 0x80 then [c.toLower]
  else if n == 0x130 then ['i', Char.ofNat 0x307]
  else [Char.ofNat ((shifted? n smallShifts).getD n)]

namespace Text

/-- A text with no character but blanks. -/
def allBlank (t : Text) : Bool := t.all isBlank

/-- Without the blanks at the beginning. -/
def trimStart (t : Text) : Text := t.dropWhile isBlank

/-- Without the blanks at the end. -/
def trimEnd (t : Text) : Text := dropEndWhile isBlank t

/-- Without the blanks at both ends. -/
def trim (t : Text) : Text := trimEnd (trimStart t)

/-- All letters in their capital form. -/
def toCapitals (t : Text) : Text := t.flatMap capital

/-- The next character, marks and accents aside, is a letter with case. -/
def isCasedNext (t : Text) : Bool :=
  (t.dropWhile fun c => inRanges c.toNat passedRanges).head?.any fun c =>
    inRanges c.toNat casedRanges

/-- The small form of a letter between two texts, the first one in reverse. A sigma at the end of a
word has a form of its own. -/
def smallBetween (before : Text) (c : Char) (after : Text) : Text :=
  if c = 'Σ' ∧ isCasedNext before ∧ ¬isCasedNext after then ['ς'] else small c

/-- All letters in their small form, behind what is given in reverse. -/
def toSmallBehind (before : Text) : Text → Text
  | [] => []
  | c :: r => smallBetween before c r ++ toSmallBehind (c :: before) r

/-- All letters in their small form. -/
def toSmall (t : Text) : Text := toSmallBehind [] t

end Text

end Modulize
