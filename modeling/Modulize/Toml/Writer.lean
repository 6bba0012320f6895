import Modulize.Toml.Statement
import Modulize.Text.Quoted

/-!
# Writing settings files

A settings file is written line by line: comments, empty lines, headers and entries (`Line`).
Texts stand in double quotes with escapes for quotes, backslashes and control characters, and lists
stand on one line. `statements` forgets the comments and empty lines.
-/

namespace Modulize.Toml

/-- A value of a setting as it is written. -/
inductive Item
  | text (t : Text)
  | flag (b : Bool)
  | number (n : Nat)
  | texts (ts : List Text)
  deriving DecidableEq, Repr

/-- A line of a settings file. -/
inductive Line
  | comment (t : Text)
  | blank
  | header (keys : List Text)
  | arrayHeader (keys : List Text)
  | entry (key : Text) (item : Item)
  deriving DecidableEq, Repr

/-- A character within double quotes. -/
def escapedChar (c : Char) : Text :=
  if c = '"' then "\\\""
  else if c = '\\' then "\\\\"
  else if c = '\n' then "\\n"
  else if c = '\r' then "\\r"
  else if c = '\t' then "\\t"
  else if c.toNat = 8 then "\\b"
  else if c.toNat = 12 then "\\f"
  else if c.toNat < 0x20 ∨ c.toNat = 0x7f then "\\u" ++ Text.hexDigits 4 c.toNat
  else [c]

/-- A text within double quotes. -/
def writeText (t : Text) : Text := ['"'] ++ t.flatMap escapedChar ++ ['"']

/-- A key: bare where that is possible, else within double quotes. -/
def writeKey (k : Text) : Text :=
  if k ≠ [] ∧ k.all (fun c => c.isAlphanum || c == '_' || c == '-') then k else writeText k

namespace Item

/-- The written form of a value. -/
def written : Item → Text
  | text t => writeText t
  | flag b => if b then "true" else "false"
  | number n => Text.ofNat n
  | texts ts => ['['] ++ Text.joinWith ", " (ts.map writeText) ++ [']']

/-- The value that is written. -/
def value : Item → Value
  | text t => .text t
  | flag b => .flag b
  | number n => .number n
  | texts ts => .list (ts.map .text)

end Item

namespace Line

/-- The written form of a line, with its line break. -/
def written : Line → Text
  | comment t => "# " ++ t ++ ['\n']
  | blank => ['\n']
  | header keys => ['['] ++ Text.joinWith ['.'] (keys.map writeKey) ++ "]\n"
  | arrayHeader keys => "[[" ++ Text.joinWith ['.'] (keys.map writeKey) ++ "]]\n"
  | entry key item => writeKey key ++ " = " ++ item.written ++ ['\n']

/-- The statement of a line. -/
def statement? : Line → Option Statement
  | comment _ | blank => none
  | header keys => some (.header keys)
  | arrayHeader keys => some (.arrayHeader keys)
  | entry key item => some (.entry [key] item.value)

end Line

/-- The text of a settings file. -/
def write (lines : List Line) : Text := lines.flatMap Line.written

/-- The statements of a settings file. -/
def statements (lines : List Line) : List Statement := lines.filterMap Line.statement?

end Modulize.Toml
