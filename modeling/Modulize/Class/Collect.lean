import Modulize.Class.Basic
import Modulize.Qualified
import Modulize.Script.Definition

/-!
# Finding classes

`collect` finds the classes in a text: constructor functions with a documentation comment that
says so, the members assigned to their prototypes outside of the constructors, and the calls that
make them inherit.
-/

namespace Modulize.Class

open Pattern

/-- Any characters of a comment before its end. -/
def commentText (greedy : Bool) : Pattern :=
  span (fun a r => !(a == '*' && r.head? == some '/')) greedy

/-- Characters of a dotted name. -/
def isDotted (c : Char) : Bool := isIdent c || c == '.'

/-- A constructor: group 1 is the comment, group 2 the word that declares the name, group 3 the
name. -/
def constructorHead : Pattern :=
  lineStart ++
    group 1 (literal "/**" ++ commentText false ++ one (· == '@') ++
      oneOf [literal "constructor", literal "interface", literal "record"] ++ wordEdge ++
      commentText true ++ literal "*/" ++ blanks) ++
    optional (group 2 (oneOf [literal "const", literal "let", literal "var"] ++ blanks1)) ++
    group 3 (run1 isDotted) ++ blanks ++ one (· == '=') ++ blanks ++ literal "function" ++ wordEdge

/-- A member: group 1 is the comment, group 2 the name of the class, group 3 the name of the
member, group 4 the semicolon or the equals sign with its blanks. -/
def memberHead : Pattern :=
  lineStart ++
    optional (group 1 (literal "/**" ++ commentText true ++ literal "*/" ++ spacesOrTabs ++
      one (· == '\n'))) ++
    group 2 (run1 isDotted) ++ literal ".prototype." ++ group 3 identifier ++
    group 4 (one (· == ';') <|>
      (blanks ++ one (· == '=') ++ notBefore (· == '=') ++ blanks))

/-- A call that makes a class inherit: group 1 is the class, group 2 its parent. -/
def inheritsCall (root : Text) : Pattern :=
  lineStart ++ literal root ++ literal ".inherits(" ++ blanks ++ group 1 (run1 isDotted) ++
    blanks ++ one (· == ',') ++ blanks ++ group 2 (run1 isDotted) ++ blanks ++ one (· == ')') ++
    spacesOrTabs ++ optional (one (· == ';'))

/-- The constructor at a match of its head. -/
def readConstructor (t : Text) (m : Match) : Except Failure Constructor := do
  let e ← Script.statementEnd t m.stop.offset
  let definition := Text.dropEndWhile (· == ';') (Text.trimEnd (t.slice m.stop.offset e))
  let binding := match (m.groupText 2).trim with
    | [] => []
    | word => word ++ [' ']
  pure ⟨m.groupText 3, definition, (m.start.offset, e), Doc.Comment.parse (m.groupText 1), binding⟩

/-- The constructors of a text; of those with one name, the first. -/
def constructors (t : Text) : Except Failure (List Constructor) := do
  let all ← (constructorHead.allMatches t).mapM (readConstructor t)
  pure (all.foldl (fun kept c => if kept.any (·.name = c.name) then kept else kept ++ [c]) [])

/-- A match that begins outside of all the pieces. -/
def isOutside (spans : List (Nat × Nat)) (m : Match) : Bool :=
  spans.all fun (start, stop) => m.start.offset < start || stop ≤ m.start.offset

/-- The member at a match of its head. -/
def readMember (root t : Text) (m : Match) : Except Failure Member := do
  let mark := (m.group? 4).getD ⟨0, 0, []⟩
  let (body, _) ← Script.definition t mark
  pure ⟨m.groupText 3, body, (m.start.offset, mark.start + body.length),
    Doc.Comment.parse (m.groupText 1), root⟩

/-- The members of the classes, each with the name of its class. -/
def members (root t : Text) (constructors : List Constructor) :
    Except Failure (List (Text × Member)) :=
  let found := (memberHead.allMatches t).filter fun m =>
    constructors.any (·.name = m.groupText 2) && isOutside (constructors.map (·.span)) m
  found.mapM fun m => (readMember root t m).map fun member => (m.groupText 2, member)

/-- The last call that makes a class inherit. -/
def inheritance? (calls : List Match) (name : Text) : Option Match :=
  (calls.filter (·.groupText 1 = name)).getLast?

/-- The classes of a text. -/
def collect (root t : Text) : Except Failure (List Definition) := do
  match ← constructors t with
  | [] => pure []
  | cs =>
    let found ← members root t cs
    let calls := (inheritsCall root).allMatches t
    pure (cs.map fun c =>
      let call := inheritance? calls c.name
      ⟨c, (found.filter (·.1 = c.name)).map Prod.snd, call.map (·.groupText 2),
        call.map Match.span⟩)

end Modulize.Class
