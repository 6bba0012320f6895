import Modulize.Failure
import Modulize.Text.CharClass

/-!
# Events

What happens during a conversion is reported as events: a level, a name, and named fields. Levels
are read from their names in any case (`Level.read`), and an event is written to the log file as
one line with its fields in the order of their names (`Event.line`).
-/

namespace Modulize.Log

/-- The importance of an event. -/
inductive Level
  | notset
  | debug
  | info
  | warning
  | error
  | critical
  deriving DecidableEq, Repr

namespace Level

/-- Levels are compared by their numbers. -/
def number : Level → Nat
  | notset => 0
  | debug => 10
  | info => 20
  | warning => 30
  | error => 40
  | critical => 50

/-- The word for a level. -/
def word : Level → Text
  | notset => "notset"
  | debug => "debug"
  | info => "info"
  | warning => "warning"
  | error => "error"
  | critical => "critical"

/-- The names of the levels in capitals. -/
def names : List (Text × Level) :=
  [("CRITICAL", critical), ("FATAL", critical), ("ERROR", error), ("WARNING", warning),
   ("WARN", warning), ("INFO", info), ("DEBUG", debug), ("NOTSET", notset)]

/-- Read the name of a level. -/
def read (t : Text) : Except Failure Level :=
  match lookup? t.trim.toCapitals names with
  | some l => .ok l
  | none => .error (.unknownLevel t)

end Level

/-- The value of a field. -/
inductive FieldValue
  | text (t : Text)
  | number (n : Nat)
  | flag (b : Bool)
  | texts (ts : List Text)
  deriving DecidableEq, Repr

/-- Something that happened. -/
structure Event where
  level : Level
  name : Text
  fields : List (Text × FieldValue)
  deriving DecidableEq, Repr

/-- The parts of the conversion that report events. -/
inductive Stage
  | reader
  | selection
  | files
  | cycles
  | classes
  | recaster
  | patches
  | verify
  deriving DecidableEq, Repr

/-- The word for a stage. -/
def Stage.word : Stage → Text
  | reader => "reader"
  | selection => "selection"
  | files => "files"
  | cycles => "cycles"
  | classes => "classes"
  | recaster => "rewriter"
  | patches => "patches"
  | verify => "verify"

/-- An event that a stage reports. -/
def Stage.event (s : Stage) (level : Level) (name : Text) (fields : List (Text × FieldValue)) :
    Event :=
  ⟨level, name, ("stage", .text s.word) :: fields⟩

/-- A character within quotes in a line of the log. -/
def escapedChar (c : Char) : Text :=
  if c = '"' then "\\\""
  else if c = '\\' then "\\\\"
  else if c = '\n' then "\\n"
  else if c = '\r' then "\\r"
  else if c = '\t' then "\\t"
  else if c.toNat = 8 then "\\b"
  else if c.toNat = 12 then "\\f"
  else if 0x20 ≤ c.toNat && c.toNat < 0x7f then [c]
  else if c.toNat < 0x10000 then "\\u" ++ hex4 c.toNat
  else "\\u" ++ hex4 (0xd800 + (c.toNat - 0x10000) / 0x400) ++
    "\\u" ++ hex4 (0xdc00 + (c.toNat - 0x10000) % 0x400)
where
  /-- Four hexadecimal digits. -/
  hex4 (n : Nat) : Text :=
    let ds := Nat.toDigits 16 n
    List.replicate (4 - ds.length) '0' ++ ds

/-- A text within quotes in a line of the log. -/
def quotedText (t : Text) : Text := ['"'] ++ t.flatMap escapedChar ++ ['"']

/-- A value in a line of the log. -/
def FieldValue.written : FieldValue → Text
  | text t => quotedText t
  | number n => Text.ofNat n
  | flag b => if b then "true" else "false"
  | texts ts => ['['] ++ Text.joinWith ", " (ts.map quotedText) ++ [']']

/-- The line of the log file for an event, with the fields in the order of their names. -/
def Event.line (e : Event) : Text :=
  let all : List (Text × FieldValue) :=
    ("event", .text e.name) :: ("level", .text e.level.word) :: e.fields
  let ordered := sortBy (fun a b => Text.precedes a.1 b.1) all
  "\x7b" ++ Text.joinWith ", " (ordered.map fun (k, v) => quotedText k ++ ": " ++ v.written) ++
    "\x7d\n"

end Modulize.Log
