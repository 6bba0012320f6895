import Modulize.Pattern.Basic
import Modulize.Script.Extent

/-!
# What documentation comments mention

A documentation comment runs from a slash with two stars to the next star with a slash
(`comments`). Within it, a tag may be followed by a type in braces (`types`), a type mentions
dotted names (`dottedNames`), and a parameter tag names a parameter, behind its type if it has
one (`parameters`).
-/

namespace Modulize.Doc

open Pattern

/-- A documentation comment. -/
def comment : Pattern :=
  literal "/**" ++ span (fun _ _ => true) false ++ literal "*/"

/-- A tag with the brace of its type directly behind it. -/
def typeTag : Pattern :=
  one (· == '@') ++ run1 isWord ++ blanks ++ place fun _ rest => rest.head? == some '{'

/-- A dotted name of at least two segments that stands on its own. -/
def dottedName : Pattern :=
  notAfter (fun c => isIdent c || c == '.') ++ one isIdentStart ++ run isIdent ++
    (let part := one (· == '.') ++ one isIdentStart ++ run isIdent
     part ++ many part none true)

/-- The tag of a parameter. -/
def parameterTag : Pattern :=
  one (· == '*') ++ blanks ++ literal "@param" ++ blanks

/-- The documentation comments of a text, in order. -/
def comments (t : Text) : List Text := (comment.allMatches t).map Match.text

/-- The types in braces behind the tags of a comment; a type that is not closed is left out. -/
def types (comment : Text) : List Text :=
  (typeTag.allMatches comment).filterMap fun m =>
    (Script.bracedEnd? comment m.stop.offset).map fun e =>
      comment.slice (m.stop.offset + 1) (e - 1)

/-- The dotted names in a text, in order. -/
def dottedNames (t : Text) : List Text := (dottedName.allMatches t).map Match.text

/-- The identifier at offset `n` of a text, behind any blanks. -/
def identifierAt? (t : Text) (n : Nat) : Option Text :=
  match ((t.drop n).dropWhile isBlank).takeWhile isIdent with
  | [] => none
  | name => some name

/-- The parameters that a comment names, in order. -/
def parameters (comment : Text) : List Text :=
  (parameterTag.allMatches comment).filterMap fun m =>
    let n := m.stop.offset
    match m.stop.rest with
    | '{' :: _ => (Script.bracedEnd? comment n).bind (identifierAt? comment)
    | _ => identifierAt? comment n

end Modulize.Doc
