import Modulize.Text.CharClass

/-!
# Numbers in texts

`Text.isGroupedDigits` tells decimal digits, of which single underscores may make groups, and
`Text.wholeNumber?` reads them as a number, with a sign in front and blanks around.
-/

namespace Modulize.Text

/-- Decimal digits, which may be grouped by single underscores. -/
def isGroupedDigits (t : Text) : Bool :=
  (splitOn '_' t).all fun part => part ≠ [] ∧ part.all isDecimal

/-- The value of a decimal digit: its distance from the zero before it. -/
def digitValue (c : Char) : Nat :=
  let n := c.toNat
  if n < 0x80 then n - 0x30
  else match CharClass.decimalRanges.find? fun (lo, hi) => lo ≤ n && n ≤ hi with
    | some (lo, _) => (n - lo) % 10
    | none => 0

/-- The number that decimal digits write; underscores between them are passed over. -/
def ofDigits (ds : Text) : Nat :=
  (ds.filter (· ≠ '_')).foldl (fun n d => n * 10 + digitValue d) 0

/-- The whole number that a text writes. -/
def wholeNumber? (t : Text) : Option Int :=
  let (sign, digits) : Int × Text := match t.trim with
    | '-' :: r => (-1, r)
    | '+' :: r => (1, r)
    | r => (1, r)
  if isGroupedDigits digits then some (sign * ofDigits digits) else none

end Modulize.Text
