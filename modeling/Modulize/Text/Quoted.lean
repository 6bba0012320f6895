import Modulize.Text.CharClass

/-!
# Texts quoted in messages

`Text.quoted` writes a text as one quoted word: between single quotes, or between double quotes
when the text holds a single quote and no double quote. Within, a backslash stands before the
quote in use and before another backslash, and characters that do not show are written by their
code in hexadecimal.
-/

namespace Modulize

namespace Text

/-- The hexadecimal digits of `n`, filled up with zeros to at least `width`. -/
def hexDigits (width n : Nat) : Text :=
  let ds := Nat.toDigits 16 n
  List.replicate (width - ds.length) '0' ++ ds

/-- The written form of one character between the quotes `quote`. -/
def quotedChar (quote c : Char) : Text :=
  if c = quote || c = '\\' then ['\\', c]
  else if c = '\n' then "\\n"
  else if c = '\r' then "\\r"
  else if c = '\t' then "\\t"
  else if isPrintable c then [c]
  else if c.toNat < 0x100 then "\\x" ++ hexDigits 2 c.toNat
  else if c.toNat < 0x10000 then "\\u" ++ hexDigits 4 c.toNat
  else "\\U" ++ hexDigits 8 c.toNat

/-- The quote that a text is written in. -/
def quoteFor (t : Text) : Char :=
  if '\'' ∈ t ∧ '"' ∉ t then '"' else '\''

/-- A text as one quoted word. -/
def quoted (t : Text) : Text :=
  let quote := quoteFor t
  [quote] ++ t.flatMap (quotedChar quote) ++ [quote]

end Text

end Modulize
