import Modulize.Failure
import Modulize.Qualified

/-!
# Aliases

The local name under which a namespace is imported. The search begins with the last segment of
the namespace. While the candidate is taken (forbidden, or declared in the text) it is changed in
one way, and while something is reached through it in the text it is changed in another
(`Search.avoidClash`, `Search.avoidPrefix`); both go on in turn until neither finds anything to
object to. Each change is one attempt, and the attempts are limited. The alias of a class begins
with a capital letter.
-/

namespace Modulize.Alias

open Pattern

/-- Short words with a fixed replacement. -/
def replacements : List (Text × Text) := [("string", "strings"), ("number", "numbers")]

/-- A declaration of the variable `name`. -/
def declaration (name : Text) : Pattern :=
  notAfter isIdent ++ oneOf [literal "var", literal "let", literal "const"] ++ blanks1 ++
    literal name ++ notBefore isIdent

/-- An access through `name`. -/
def access (name : Text) : Pattern :=
  notAfter (fun c => isIdent c || c == '.') ++ literal name ++ one (· == '.')

/-- The text declares a variable of this name. -/
def isDeclared (t name : Text) : Bool := (declaration name).occursIn t

/-- The text reaches something through this name. -/
def isAccessed (t name : Text) : Bool := (access name).occursIn t

/-- What an alias has to keep clear of. -/
structure Surroundings where
  forbidden : List Text
  text : Text

/-- A search for an alias: the candidate, the outer segments not yet used (innermost first), and
whether the alias is that of a class. -/
structure Search where
  candidate : Text
  outer : List Text
  isClass : Bool
  deriving DecidableEq, Repr

namespace Search

/-- The beginning of the search for a namespace. -/
def start (name : Text) : Search :=
  let last := Qualified.lastSegment name
  ⟨last, (Qualified.segments name).reverse.tail, Qualified.isClassName last⟩

/-- The name that the candidate stands for. -/
def name (s : Search) : Text :=
  if s.isClass then Qualified.capitalizeFirst s.candidate else s.candidate

/-- The name is forbidden or declared. -/
def clashes (s : Search) (around : Surroundings) : Bool :=
  around.forbidden.contains s.name || isDeclared around.text s.name

/-- The name is one through which the text reaches something. -/
def isPrefix (s : Search) (around : Surroundings) : Bool := isAccessed around.text s.name

/-- The change for a name that is taken: the fixed replacement, else the next outer segment in
front, else an underscore. -/
def avoidClash (s : Search) : Search :=
  match lookup? s.candidate replacements with
  | some word => { s with candidate := word }
  | none =>
    match s.outer with
    | o :: os => { s with candidate := o ++ s.candidate, outer := os }
    | [] => { s with candidate := '_' :: s.candidate }

/-- The change for a name that is a prefix: the next outer segment with an underscore in front,
else an s at the end, else an underscore in front. -/
def avoidPrefix (s : Search) : Search :=
  match s.outer with
  | o :: os => { s with candidate := o ++ '_' :: s.candidate, outer := os }
  | [] =>
    if Text.endsWith ['s'] s.candidate then { s with candidate := '_' :: s.candidate }
    else { s with candidate := s.candidate ++ ['s'] }

/-- Where the search stands: names that are taken are dealt with first, and once a prefix has
been found prefixes are avoided until there is none. -/
inductive Phase
  | clash
  | accessed
  deriving DecidableEq, Repr

/-- The change that the search has to make next, with the phase after it, or nothing when the
name is free. -/
def next? (around : Surroundings) : Phase → Search → Option (Phase × Search)
  | .clash, s =>
    if s.clashes around then some (.clash, s.avoidClash)
    else if s.isPrefix around then some (.accessed, s.avoidPrefix)
    else none
  | .accessed, s =>
    if s.isPrefix around then some (.accessed, s.avoidPrefix)
    else if s.clashes around then some (.clash, s.avoidClash)
    else none

/-- Search on with a number of attempts left. -/
def run (around : Surroundings) : Nat → Phase → Search → Option Text
  | attempts, phase, s =>
    match next? around phase s with
    | none => some s.name
    | some (phase', s') =>
      match attempts with
      | 0 => none
      | attempts + 1 => run around attempts phase' s'

end Search

/-- An alias for a namespace that is safe to use in the surroundings. -/
def allocate (name : Text) (around : Surroundings) (attempts : Nat) : Except Failure Text :=
  match Search.run around attempts .clash (Search.start name) with
  | some a => .ok a
  | none => .error (.noAlias name attempts)

end Modulize.Alias
