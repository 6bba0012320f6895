import Modulize.Declaration.Header

/-!
# Defines

A define is a call below the root namespace that declares a constant. `bindDefines` gives it a
`const` binding: a define that is bound by `let` already, and a define that stands at the
beginning of a line, whose dotted name is then shortened everywhere.
-/

namespace Modulize.Recast

open Pattern

/-- A text together with the entries that it is going to export. -/
structure Converted where
  text : Text
  entries : List ExportEntry
  deriving DecidableEq, Repr

/-- The call of a define, up to its parenthesis. -/
def defineCall (root : Text) : Pattern :=
  Qualified.spaced root ++ Qualified.dot ++ literal "define" ++ blanks ++ one (· == '(')

/-- A define bound by `let`; group 1 is the name. -/
def letDefine (root : Text) : Pattern :=
  notAfter isIdent ++ literal "let" ++ blanks1 ++ group 1 identifier ++ blanks ++
    one (· == '=') ++ blanks ++ defineCall root

/-- A define at the beginning of a line: group 1 is the indentation, group 2 the call up to its
first comma, group 3 the dotted name and group 4 its last segment. -/
def lineDefine (root : Text) : Pattern :=
  let quote := one fun c => c == '\'' || c == '"'
  lineStart ++ group 1 spacesOrTabs ++
    group 2 (defineCall root ++ blanks ++ quote ++
      group 3 (run1 (fun c => isIdent c || c == '.') ++ one (· == '.') ++ group 4 identifier) ++
      quote ++ blanks ++ one (· == ','))

/-- An entry exported under its own name, which is known to be visible. -/
def sameEntry (name : Text) : ExportEntry := ⟨name, name⟩

/-- Bind the defines of a text to constants and list these. -/
def bindDefines (root t : Text) : Converted :=
  let lets := ((letDefine root).allMatches t).map (·.groupText 1)
  let t := (letDefine root).replace
    (fun m => "const " ++ m.groupText 1 ++ " = " ++ root ++ ".define(") t
  let calls := ((lineDefine root).allMatches t).map fun m => (m.groupText 3, m.groupText 4)
  let t := (lineDefine root).replace
    (fun m => m.groupText 1 ++ "const " ++ m.groupText 4 ++ " = " ++ m.groupText 2) t
  let t := calls.foldl (fun t (name, short) => Qualified.replaceReferences t name short) t
  ⟨t, (lets ++ calls.map Prod.snd).map sameEntry⟩

end Modulize.Recast
