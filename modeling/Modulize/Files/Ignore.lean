import Modulize.Failure
import Modulize.Pattern.Basic

/-!
# Ignore patterns

A line of an ignore file excludes paths or, behind an exclamation mark, takes them in again; empty
lines and lines with a hash sign say nothing (`IgnoreRule.read`). Within a name, `*` and `?` stand
for any characters and `[...]` for a class; a name of two stars crosses folders. A slash other than
at the end ties the line to the root of the tree, and a slash at the end makes it speak of folders
only. What excludes a folder excludes all that is below it. Of the lines that speak of a path the
last one counts (`isIgnored`). Paths are given from the root, folders with a slash at the end.

A name is first taken apart (`nameParts`) and then turned into a pattern (`NamePart.pattern?`). A
line with a class that is not closed says nothing; a line that names nothing, that ends within an
escape, or that runs through a range of characters backwards is refused.
-/

namespace Modulize

/-- What a line of an ignore file says: the paths that it speaks of, and whether it excludes
them. -/
structure IgnoreRule where
  pattern : Pattern
  excludes : Bool

namespace IgnoreRule

open Pattern

/-- A part of a name in a line. -/
inductive NamePart
  /-- A character. -/
  | char (c : Char)
  /-- Any character. -/
  | any
  /-- Any number of any characters. -/
  | anyMany
  /-- One of the characters that the members describe, or none of them. -/
  | oneOf (isNegated : Bool) (members : Text)
  deriving DecidableEq, Repr

/-- Why a name cannot be taken apart. -/
inductive NameFlaw
  | openClass
  | openEscape
  deriving DecidableEq, Repr

/-- The number of characters of a class up to its closing bracket, without the opening one. A
mark of negation and a closing bracket at the beginning belong to the class. -/
def classLength? (t : Text) : Option Nat :=
  let mark := match t with
    | '!' :: _ | '^' :: _ => 1
    | _ => 0
  let first := if (t.drop mark).head? = some ']' then mark + 1 else mark
  let inside := ((t.drop first).takeWhile (· != ']')).length
  if first + inside < t.length then some (first + inside + 1) else none

/-- The class between brackets, given without them. -/
def bracketClass (t : Text) : NamePart :=
  match t with
  | '!' :: r | '^' :: r => .oneOf true r
  | r => .oneOf false r

/-- Take a name apart; the first `skip` characters belong to a class that has been read. -/
def nameParts : Nat → Text → Except NameFlaw (List NamePart)
  | _, [] => .ok []
  | skip + 1, _ :: r => nameParts skip r
  | 0, ['\\'] => .error .openEscape
  | 0, '\\' :: c :: r => (nameParts 0 r).map (.char c :: ·)
  | 0, '*' :: r => (nameParts 0 r).map (.anyMany :: ·)
  | 0, '?' :: r => (nameParts 0 r).map (.any :: ·)
  | 0, '[' :: r =>
    match classLength? r with
    | some n => (nameParts n r).map (bracketClass (r.take (n - 1)) :: ·)
    | none => .error .openClass
  | 0, c :: r => (nameParts 0 r).map (.char c :: ·)

/-- The characters that the members of a class describe. Nothing results for a range that runs
backwards. -/
def members? : Text → Option (Char → Bool)
  | [] => some fun _ => false
  | a :: '-' :: b :: r =>
    if b < a then none else (members? r).map fun p c => (a ≤ c && c ≤ b) || p c
  | a :: r => (members? r).map fun p c => c == a || p c

/-- The pattern for a part of a name. Nothing results for a range that runs backwards. -/
def NamePart.pattern? : NamePart → Option Pattern
  | .char c => some (one (· == c))
  | .any => some (one (· != '/'))
  | .anyMany => some (run (· != '/'))
  | .oneOf isNegated members => (members? members).map fun p => one fun c => p c != isNegated

/-- The pattern for the parts of a name. -/
def namePattern? (parts : List NamePart) : Option Pattern :=
  (parts.mapM NamePart.pattern?).map fun ps => ps.foldr seq nothing

/-- A name of a line: any number of folders, any name, or a name given by its parts. -/
inductive LineName
  | folders
  | anyName
  | parts (ps : List NamePart)
  deriving DecidableEq, Repr

/-- The name that stands for any number of folders. -/
def stars : Text := ['*', '*']

/-- Read a name of a line. -/
def LineName.read (name : Text) : Except NameFlaw LineName :=
  if name = stars then .ok folders
  else if name = ['*'] then .ok anyName
  else (nameParts 0 name).map parts

/-- The pattern for a name that stands for one name. -/
def LineName.pattern? : LineName → Option Pattern
  | folders => none
  | anyName => some (run1 (· != '/'))
  | parts ps => namePattern? ps

/-- The end of a name. -/
def nameEnd : Pattern := one (· == '/') <|> textEnd

/-- Any characters and then a slash. -/
def throughSlash : Pattern := run (fun _ => true) ++ one (· == '/')

/-- The pattern for names from a place on; `slash` says that a slash comes before the next
name. -/
def tailPattern? (slash : Bool) : List LineName → Option Pattern
  | [] => some nothing
  | [.folders] => some (one (· == '/'))
  | .folders :: r => (tailPattern? true r).map (optional (one (· == '/') ++ run1 (· != '\n')) ++ ·)
  | n :: r => do
    let p ← n.pattern?
    let q ← if r.isEmpty then some nameEnd else tailPattern? true r
    pure ((if slash then one (· == '/') else nothing) ++ p ++ q)

/-- The pattern for the names of a line, which speaks of folders only or not. -/
def linePattern? (isFolder : Bool) (names : List LineName) : Option Pattern :=
  match names with
  | [.folders] => some (if isFolder then throughSlash else nothing)
  | [.folders, .anyName] => some nothing
  | [.folders, .anyName, .folders] => some throughSlash
  | .folders :: r =>
    (tailPattern? false r).map (optional (run1 (· != '\n') ++ one (· == '/')) ++ ·)
  | names => tailPattern? false names

/-- The names of a line with runs of two-star names made one. -/
def foldStars : List Text → List Text
  | a :: b :: r => if a = stars ∧ b = stars then foldStars (b :: r) else a :: foldStars (b :: r)
  | r => r

/-- The names from the root on, for the pieces of a line between its slashes: a line without a
slash in front or in the middle may begin anywhere, and a slash at the end leads to everything
below. -/
def rootedNames (pieces : List Text) : List Text :=
  let names := match pieces with
    | [] :: r => r
    | [a] | [a, []] => if a = stars then pieces else stars :: pieces
    | r => r
  foldStars (if names.getLast? = some [] then names.dropLast ++ [stars] else names)

/-- The line without the blanks at its end; an escaped blank stays, with all that follows it. -/
def trimLine (line : Text) : Text :=
  if Text.endsWith ['\\', ' '] line then line else line.trimEnd

/-- What a line says by its body, which is what comes behind a mark for taking in. -/
def ofBody (line body : Text) (excludes : Bool) : Except Failure (Option IgnoreRule) :=
  let pieces := Text.splitOn '/' body
  match (rootedNames pieces).mapM LineName.read with
  | .error .openClass => .ok none
  | .error .openEscape | .ok [] => .error (.badIgnoreLine line)
  | .ok names =>
    match linePattern? (pieces.getLast? = some []) names with
    | none => .error .badPattern
    | some p => .ok (some ⟨textStart ++ p, excludes⟩)

/-- What a line of an ignore file says. Nothing results for a line that says nothing. -/
def read (line : Text) : Except Failure (Option IgnoreRule) :=
  match trimLine line with
  | [] | '#' :: _ | ['/'] => .ok none
  | '!' :: body => ofBody line body false
  | body => ofBody line body true

/-- The line speaks of a path. -/
def speaksOf (r : IgnoreRule) (path : Text) : Bool := r.pattern.fits (Cursor.start path)

end IgnoreRule

/-- The rules that lines give, in order. -/
def ignoreRules (lines : List Text) : Except Failure (List IgnoreRule) :=
  (lines.mapM IgnoreRule.read).map (·.filterMap id)

/-- The last rule that speaks of a path excludes it. -/
def isIgnored (rules : List IgnoreRule) (path : Text) : Bool :=
  match (rules.filter (·.speaksOf path)).getLast? with
  | some r => r.excludes
  | none => false

end Modulize
