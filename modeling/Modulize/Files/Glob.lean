import Modulize.Files.Store
import Modulize.Pattern.Basic

/-!
# Searching a tree by names

A search pattern is a path whose names may hold wildcards: `*` and `?` stand for any characters and
`[...]` for one of a class. `Glob.read` reads it, and `FileStore.glob` lists what it leads to below
a folder. A range of a class that runs backwards has no characters, and a bracket that is not
closed stands for itself.
-/

namespace Modulize

namespace Glob

open Pattern

/-- The members of a class: single characters and ranges. -/
def members : Text → List (Char × Option Char)
  | a :: '-' :: b :: r => (a, some b) :: members r
  | a :: r => (a, none) :: members r
  | [] => []

/-- The member is no range that runs backwards. -/
def isForward (m : Char × Option Char) : Bool := m.2.all (m.1 ≤ ·)

/-- A member of a class has a character. -/
def has (m : Char × Option Char) (c : Char) : Bool :=
  match m with
  | (a, none) => c == a
  | (a, some b) => a ≤ c && c ≤ b

/-- The class that stands between brackets. An exclamation mark in front takes the other characters;
so does one that comes to the front because the ranges before it have no characters. -/
def bracketClass (t : Text) : Char → Bool :=
  match t with
  | '!' :: r => fun c => !((members r).filter isForward).any (has · c)
  | t =>
    match (members t).filter isForward with
    | ('!', none) :: r => fun c => !r.any (has · c)
    | ('!', some b) :: r => fun c => !(c == '-' || c == b || r.any (has · c))
    | ms => fun c => ms.any (has · c)

/-- The number of characters between brackets, from behind the opening one. A mark of negation and
a closing bracket at the beginning belong to them. -/
def classLength? (t : Text) : Option Nat :=
  let mark := if t.head? = some '!' then 1 else 0
  let first := if (t.drop mark).head? = some ']' then mark + 1 else mark
  let inside := ((t.drop first).takeWhile (· != ']')).length
  if first + inside < t.length then some (first + inside) else none

/-- The pattern for a name; the first `skip` characters belong to a class that has been read. -/
def namePattern : Nat → Text → Pattern
  | _, [] => place fun _ rest => rest.isEmpty
  | skip + 1, _ :: r => namePattern skip r
  | 0, '*' :: r => run (fun _ => true) ++ namePattern 0 r
  | 0, '?' :: r => one (fun _ => true) ++ namePattern 0 r
  | 0, '[' :: r =>
    match classLength? r with
    | some n => one (bracketClass (r.take n)) ++ namePattern (n + 1) r
    | none => one (· == '[') ++ namePattern 0 r
  | 0, c :: r => one (· == c) ++ namePattern 0 r

/-- A step of a search. -/
inductive Step
  /-- To the folder itself and all folders below it. -/
  | folders
  /-- To the entries whose names fit a pattern. -/
  | fitting (p : Pattern)
  /-- To the entry with a name. -/
  | named (name : Text)
  /-- To the folder itself. -/
  | stay

/-- Two wildcards for any characters. -/
def stars : Text := ['*', '*']

/-- Read a name of a search pattern. -/
def Step.read (name : Text) : Except Failure Step :=
  if name = stars then .ok .folders
  else if Text.contains stars name then .error .badEnding
  else if name.any (· ∈ ['*', '?', '[']) then .ok (.fitting (namePattern 0 name))
  else .ok (.named name)

/-- Read a search pattern. A slash at its end leads to folders only. -/
def read (t : Text) : Except Failure (List Step) := do
  let steps ← (Path.parse t).names.mapM Step.read
  pure (if t.getLast? = some '/' then steps ++ [.stay] else steps)

end Glob

namespace FileStore

/-- The folder at a path and all folders below it, without those behind links. -/
def foldersFrom (fs : FileStore) (p : Path) : List Path :=
  p :: (fs.below p).filter fun q => fs.isFolder q && !fs.isLink q

/-- What a search from a folder leads to. -/
def glob (fs : FileStore) : List Glob.Step → Path → List Path
  | [], p => [p]
  | .stay :: _, p => [p]
  | .folders :: rest, p => (fs.foldersFrom p).flatMap (glob fs rest)
  | .fitting pattern :: rest, p =>
    let children := ((fs.list p).filter fun n => pattern.fits (.start n)).map p.child
    (children.filter fun q => rest.isEmpty || fs.isFolder q).flatMap (glob fs rest)
  | .named n :: rest, p =>
    let q := p.child n
    if fs.isThere q && (rest.isEmpty || fs.isFolder q) then glob fs rest q else []

/-- What a search pattern leads to from a folder and all folders below it, in the order of
paths. -/
def globBelow (fs : FileStore) (pattern : Text) (p : Path) : Except Failure (List Path) := do
  let steps ← Glob.read pattern
  pure (if fs.isFolder p then Path.sort (dedup (fs.glob (.folders :: steps) p)) else [])

end FileStore

end Modulize
