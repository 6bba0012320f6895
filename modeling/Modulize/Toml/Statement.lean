import Modulize.Failure
import Modulize.Settings.Value

/-!
# The statements of a settings file

A settings file is a list of statements: headers of tables, headers of the members of a list of
tables, and entries, whose keys may be dotted. `meaning` gives the table that they describe
together. A table is opened once, a value is written once, and what was written as a whole, a
list or a table within braces, is not added to later.
-/

namespace Modulize.Toml

/-- A statement of a settings file. -/
inductive Statement
  | header (keys : List Text)
  | arrayHeader (keys : List Text)
  | entry (keys : List Text) (value : Value)

/-- Change the table at a path of keys. Tables that are not there are created, and the last member
stands for a list of tables when `throughLists` is set. -/
def within (throughLists : Bool) (f : Table → Option Table) : List Text → Table → Option Table
  | [], t => f t
  | k :: ks, t =>
    match lookup? k t with
    | none => (within throughLists f ks []).map fun t' => assign k (.table t') t
    | some (.table inner) =>
      (within throughLists f ks inner).map fun t' => assign k (.table t') t
    | some (.list items) =>
      if throughLists then
        match items.getLast? with
        | some (.table inner) =>
          (within throughLists f ks inner).map fun t' =>
            assign k (.list (items.dropLast ++ [.table t'])) t
        | _ => none
      else none
    | some _ => none

/-- Write an entry, unless there is one. -/
def insertNew (k : Text) (v : Value) (t : Table) : Option Table :=
  match lookup? k t with
  | none => some (t ++ [(k, v)])
  | some _ => none

/-- Add an empty table to the list under a key. -/
def appendTable (k : Text) (t : Table) : Option Table :=
  match lookup? k t with
  | none => some (t ++ [(k, .list [.table []])])
  | some (.list items) => some (assign k (.list (items ++ [.table []])) t)
  | some _ => none

/-- A value that is complete as it is written. -/
def isWhole : Value → Bool
  | .list _ | .table _ => true
  | _ => false

/-- What the statements so far have said: the table, where the entries go, the paths of the
tables opened by a header or, once the next header has come, by dotted keys, and the paths of what
was written as a whole. -/
structure Reading where
  table : Table
  current : List Text
  opened : List (List Text)
  pending : List (List Text)
  whole : List (List Text)

namespace Reading

/-- Nothing has been said. -/
def start : Reading := ⟨[], [], [], [], []⟩

/-- The path leads into something that was written as a whole. -/
def isFrozen (r : Reading) (keys : List Text) : Bool := r.whole.any (·.isPrefixOf keys)

/-- The paths that dotted keys pass through. -/
def passed (base : List Text) (keys : List Text) : List (List Text) :=
  ((List.range keys.length).drop 1).map fun n => base ++ keys.take n

/-- Read one more statement. -/
def step (r : Reading) : Statement → Option Reading
  | .header keys =>
    let opened := r.pending ++ r.opened
    if opened.contains keys || r.isFrozen keys then none
    else
      (within true some keys r.table).map fun t =>
        { r with table := t, current := keys, opened := keys :: opened, pending := [] }
  | .arrayHeader keys =>
    let opened := r.pending ++ r.opened
    if r.isFrozen keys then none
    else
      (within true (appendTable (keys.getLast?.getD [])) keys.dropLast r.table).map fun t =>
        { r with
          table := t
          current := keys
          opened := keys :: opened.filter (! keys.isPrefixOf ·)
          whole := r.whole.filter (! keys.isPrefixOf ·)
          pending := [] }
  | .entry keys v =>
    let through := passed r.current keys
    let parent := r.current ++ keys.dropLast
    if through.any r.opened.contains || r.isFrozen parent then none
    else
      (within true (insertNew (keys.getLast?.getD []) v) parent r.table).map fun t =>
        { r with
          table := t
          pending := through ++ r.pending
          whole := if isWhole v then (r.current ++ keys) :: r.whole else r.whole }

end Reading

/-- The table that statements describe. -/
def meaning? (statements : List Statement) : Option Table :=
  (statements.foldlM Reading.step Reading.start).map Reading.table

/-- Add an entry within braces to those before it; `whole` are the paths written as a whole. -/
def addInline (acc : Table × List (List Text)) (keys : List Text) (v : Value) :
    Option (Table × List (List Text)) :=
  if acc.2.any (·.isPrefixOf keys) then none
  else
    (within false (insertNew (keys.getLast?.getD []) v) keys.dropLast acc.1).map fun t =>
      (t, if isWhole v then keys :: acc.2 else acc.2)

end Modulize.Toml
