import Modulize.Failure
import Modulize.Script.Chars

/-!
# Where statements and groups end

`statementEnd` finds the end of the statement that begins at a place, `groupEnd` the end of the
bracket group that opens there. Both count the brackets among the code characters only. A plain
count of braces that takes no notice of literals is `bracedEnd`; it serves the types in comments.
-/

namespace Modulize.Script

/-- Opening brackets. -/
def isOpening (c : Char) : Bool := c == '(' || c == '[' || c == '{'

/-- Closing brackets. -/
def isClosing (c : Char) : Bool := c == ')' || c == ']' || c == '}'

/-- An empty line follows, or nothing but blanks. -/
def endsParagraph (rest : Text) : Bool := Text.startsWith "\n\n" rest || rest.allBlank

/-- The end of a statement among code characters, inside `depth` open brackets: a semicolon
outside all brackets, or a brace that closes the outermost bracket at the end of a paragraph. -/
def statementEndAmong : Int → List CodeChar → Option Nat
  | _, [] => none
  | depth, c :: cs =>
    if c.char = ';' ∧ depth = 0 then some (c.offset + 1)
    else if isOpening c.char then statementEndAmong (depth + 1) cs
    else if isClosing c.char then
      if c.char = '}' ∧ depth = 1 ∧ endsParagraph c.rest then some (c.offset + 1)
      else statementEndAmong (depth - 1) cs
    else statementEndAmong depth cs

/-- The end of a bracket group among code characters, inside `depth` open brackets. -/
def groupEndAmong : Int → List CodeChar → Option Nat
  | _, [] => none
  | depth, c :: cs =>
    if isOpening c.char then groupEndAmong (depth + 1) cs
    else if isClosing c.char then
      if depth = 1 then some (c.offset + 1) else groupEndAmong (depth - 1) cs
    else groupEndAmong depth cs

/-- The failure to find an end, with the text around the beginning. -/
def overrunAt (t : Text) (start : Nat) (extent : Extent) : Failure :=
  .overrun extent start (t.slice (start - 30) (start + 60))

/-- The offset behind the statement that begins at `start`. -/
def statementEnd (t : Text) (start : Nat) : Except Failure Nat :=
  match statementEndAmong 0 (codeChars t start) with
  | some e => .ok e
  | none => .error (overrunAt t start .statement)

/-- The offset behind the bracket group that opens at `start`. -/
def groupEnd (t : Text) (start : Nat) : Except Failure Nat :=
  match groupEndAmong 0 (codeChars t start) with
  | some e => .ok e
  | none => .error (overrunAt t start .bracketGroup)

/-- The number of characters up to the brace that closes the group, inside `depth` open braces. -/
def bracedLength : Int → Text → Option Nat
  | _, [] => none
  | depth, c :: r =>
    if c = '{' then (bracedLength (depth + 1) r).map (· + 1)
    else if c = '}' then
      if depth = 1 then some 1 else (bracedLength (depth - 1) r).map (· + 1)
    else (bracedLength depth r).map (· + 1)

/-- The offset behind the brace group that opens at `start`, counting every brace. -/
def bracedEnd? (t : Text) (start : Nat) : Option Nat :=
  (bracedLength 0 (t.drop start)).map (start + ·)

end Modulize.Script
