import Modulize.Text.Basic

/-!
# Values of settings

What a settings file or a command line says before it is checked: flags, numbers, texts, lists and
tables. The entries of a table keep their order. `Value.overlay` puts one value over another:
tables are merged entry by entry, and anything else is replaced.
-/

namespace Modulize

/-- The kinds of points in time. -/
inductive MomentKind
  | date
  | time
  | dateTime
  deriving DecidableEq, Repr

/-- A value that has not been checked. Numbers with a fraction or an exponent and points in time are
kept as they are written. A table that has been put together from pairs may have keys that are no
texts. -/
inductive Value
  | null
  | flag (b : Bool)
  | number (n : Int)
  | real (written : Text)
  | moment (kind : MomentKind) (written : Text)
  | text (t : Text)
  | list (items : List Value)
  | table (entries : List (Text × Value))
  | pairs (entries : List (Value × Value))
  deriving Inhabited

/-- The entries of a table. -/
abbrev Table := List (Text × Value)

namespace Value

mutual

/-- Put a value over another. -/
def overlay (base : Value) : Value → Value
  | table entries =>
    match base with
    | table below => table (overlayEntries below entries)
    | _ => table entries
  | v => v

/-- Put the entries of a table over those of another. -/
def overlayEntries (below : List (Text × Value)) : List (Text × Value) → List (Text × Value)
  | [] => below
  | (k, v) :: rest =>
    let v' := match lookup? k below with
      | some b => overlay b v
      | none => v
    overlayEntries (assign k v' below) rest

end

/-- The entry of a table. -/
def get? (k : Text) : Value → Option Value
  | table entries => lookup? k entries
  | _ => none

/-- The value at a path of keys. -/
def at? : List Text → Value → Option Value
  | [], v => some v
  | k :: ks, v => (v.get? k).bind (at? ks)

/-- The word for the kind of a value. -/
def kindWord : Value → Text
  | null => "NoneType"
  | flag _ => "bool"
  | number _ => "int"
  | real _ => "float"
  | moment .date _ => "datetime.date"
  | moment .time _ => "datetime.time"
  | moment .dateTime _ => "datetime.datetime"
  | text _ => "str"
  | list _ => "list"
  | table _ | pairs _ => "dict"

end Value

end Modulize
