import Modulize.Failure
import Modulize.Settings.Real
import Modulize.Settings.Value

/-!
# Tables made of pairs

A table may be given as a list of pairs (`Value.asTable`): a key and what stands under it. Of equal
keys the first stays, with the value of the last. A text is the list of its characters, and a table
as a pair is the list of its keys.
-/

namespace Modulize.Value

/-- The parts of a value that has parts. -/
def parts? : Value → Option (List Value)
  | text t => some (t.map fun c => text [c])
  | list items => some items
  | table entries => some (entries.map fun e => text e.1)
  | pairs entries => some (entries.map Prod.fst)
  | _ => none

/-- The whole number that a key is equal to: flags are equal to zero and one. -/
def keyNumber? : Value → Option Int
  | flag b => some (if b then 1 else 0)
  | number n => some n
  | real t =>
    match RealValue.read t with
    | .whole n => some n
    | _ => none
  | _ => none

/-- Two keys are equal. -/
def isSameKey (a b : Value) : Bool :=
  match keyNumber? a, keyNumber? b with
  | some m, some n => m == n
  | none, none =>
    match a, b with
    | null, null => true
    | text s, text t | real s, real t | moment _ s, moment _ t => s == t
    | _, _ => false
  | _, _ => false

/-- Put a value under a key: in place of the one under an equal key, else at the end. -/
def assignKey (k v : Value) : List (Value × Value) → List (Value × Value)
  | [] => [(k, v)]
  | (k', v') :: rest =>
    if isSameKey k' k then (k', v) :: rest else (k', v') :: assignKey k v rest

/-- The value can be a key: it is neither a list nor a table. -/
def isKey : Value → Bool
  | list _ | table _ | pairs _ => false
  | _ => true

/-- The pair that a value with a number is. -/
def pair (i : Nat) (v : Value) : Except PairsProblem (Value × Value) :=
  match v.parts? with
  | none => .error (.notPair i)
  | some [k, x] => if k.isKey then .ok (k, x) else .error (.notKey k.kindWord)
  | some parts => .error (.notTwo i parts.length)

/-- The pairs that values are, numbered from `i` on, put behind those before them. -/
def collectPairs :
    Nat → List (Value × Value) → List Value → Except PairsProblem (List (Value × Value))
  | _, entries, [] => .ok entries
  | i, entries, v :: vs =>
    match pair i v with
    | .error problem => .error problem
    | .ok (k, x) => collectPairs (i + 1) (assignKey k x entries) vs

/-- The text of a key. -/
def keyText? : Value × Value → Option (Text × Value)
  | (text t, v) => some (t, v)
  | _ => none

/-- The table with the entries. -/
def ofEntries (entries : List (Value × Value)) : Value :=
  match entries.mapM keyText? with
  | some texts => table texts
  | none => pairs entries

/-- The table that a value is, or that its pairs make. -/
def asTable : Value → Except PairsProblem Value
  | table entries => .ok (table entries)
  | v =>
    match v.parts? with
    | none => .error (.noMembers v.kindWord)
    | some parts => (collectPairs 0 [] parts).map ofEntries

end Modulize.Value
