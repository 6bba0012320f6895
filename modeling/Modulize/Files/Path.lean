import Modulize.Text.Basic

/-!
# Paths

A path is the anchor it starts from and the names below it. Reading a path drops repeated
slashes, single dots and a slash at the end, and keeps double dots (`Path.parse`); `toText` writes
it again. `Path.normalize` folds the double dots away by name alone, and `Path.relativeFrom` is
the way from one folder to a file: up with double dots to their common folder, then down.
-/

namespace Modulize

/-- Where a path starts: where the program stands, at the root, or at the root named by two
slashes. -/
inductive Anchor
  | here
  | root
  | doubleRoot
  deriving DecidableEq, Repr

/-- A path: its anchor and the names below it, outermost first. -/
structure Path where
  anchor : Anchor
  names : List Text
  deriving DecidableEq, Repr

namespace Path

/-- The written form of an anchor. -/
def anchorText : Anchor → Text
  | .here => []
  | .root => "/"
  | .doubleRoot => "//"

/-- Read a path. -/
def parse (t : Text) : Path :=
  let slashes := (t.takeWhile (· == '/')).length
  let anchor := if slashes = 0 then Anchor.here else if slashes = 2 then .doubleRoot else .root
  ⟨anchor, (Text.splitOn '/' t).filter fun n => n ≠ [] ∧ n ≠ ['.']⟩

/-- Write a path; the empty one is a dot. -/
def toText (p : Path) : Text :=
  match p.anchor, p.names with
  | .here, [] => "."
  | a, ns => anchorText a ++ Text.joinWith ['/'] ns

/-- The root of the tree of files. -/
def top : Path := ⟨.root, []⟩

/-- The path starts at the root. -/
def isAbsolute (p : Path) : Bool := p.anchor ≠ .here

/-- A path below another; a path that starts at the root stays as it is. -/
def join (p q : Path) : Path := if q.isAbsolute then q else ⟨p.anchor, p.names ++ q.names⟩

/-- The entry `name` of a folder. -/
def child (p : Path) (name : Text) : Path := ⟨p.anchor, p.names ++ [name]⟩

/-- The folder that holds a path; the root and the empty path hold themselves. -/
def parent (p : Path) : Path := ⟨p.anchor, p.names.dropLast⟩

/-- The last name of a path, empty when there is none. -/
def name (p : Path) : Text := p.names.getLast?.getD []

/-- The names of a path below `base`. -/
def relativeTo? (p base : Path) : Option Path :=
  if p.anchor = base.anchor ∧ base.names.isPrefixOf p.names then
    some ⟨.here, p.names.drop base.names.length⟩
  else none

/-- `p` is `base` or lies below it. -/
def isWithin (p base : Path) : Bool := (p.relativeTo? base).isSome

/-- The names by which paths are ordered. -/
def orderKey (p : Path) : List Text :=
  match p.anchor with
  | .here => p.names
  | a => anchorText a :: p.names

/-- The order of paths, name by name. -/
def precedes (p q : Path) : Bool := Text.precedesAll p.orderKey q.orderKey

/-- The paths in their order. -/
def sort (ps : List Path) : List Path := sortBy precedes ps

/-- Fold names from the outermost in; a double dot takes the name before it away. The names so
far are given in reverse; above the root a double dot leads nowhere. -/
def foldNames (absolute : Bool) : List Text → List Text → List Text
  | done, [] => done.reverse
  | done, n :: ns =>
    if n = ['.', '.'] then
      match done with
      | [] => foldNames absolute (if absolute then [] else [n]) ns
      | d :: ds =>
        if d = ['.', '.'] then foldNames absolute (n :: d :: ds) ns else foldNames absolute ds ns
    else foldNames absolute (n :: done) ns

/-- The path without double dots behind a name. -/
def normalize (p : Path) : Path := ⟨p.anchor, foldNames p.isAbsolute [] p.names⟩

/-- The names that are left of two lists after their common beginning. -/
def afterCommon : List Text → List Text → List Text × List Text
  | a :: r, b :: s => if a = b then afterCommon r s else (a :: r, b :: s)
  | r, s => (r, s)

/-- The way from the folder `base` to `target`. -/
def relativeFrom (base target : Path) : Path :=
  let (up, down) := afterCommon base.normalize.names target.normalize.names
  ⟨.here, up.map (fun _ => ['.', '.']) ++ down⟩

end Path

end Modulize
