import Modulize.Declaration.Basic
import Modulize.Pattern.Basic
import Modulize.Script.Extent

/-!
# The exports of a module

A module exports by assigning to members of `exports`, or by assigning to `exports` itself either
a list in braces, with comments between its entries, or a single name (`moduleExports`).
-/

namespace Modulize.Declaration

open Pattern

/-- An equals sign that is not the first half of a comparison. -/
def equalsSign : Pattern := one (· == '=') ++ notBefore (· == '=')

/-- The beginning of an assignment to a member of `exports`; group 1 is the member. -/
def memberExport : Pattern :=
  lineStart ++ spacesOrTabs ++ literal "exports." ++ group 1 identifier ++ blanks ++ equalsSign

/-- The beginning of an assignment to `exports`. -/
def wholeExport : Pattern :=
  lineStart ++ spacesOrTabs ++ literal "exports" ++ blanks ++ equalsSign ++ blanks

/-- A comment between a slash with a star and a star with a slash. -/
def blockComment : Pattern := literal "/*" ++ span (fun _ _ => true) false ++ literal "*/"

/-- A comment from two slashes to the end of the line. -/
def lineComment : Pattern := literal "//" ++ run (· != '\n')

/-- The text without its comments. -/
def withoutComments (t : Text) : Text := lineComment.erase (blockComment.erase t)

/-- The text is one identifier. -/
def isIdentifier (t : Text) : Bool := t ≠ [] ∧ t.all isIdent

/-- Read an entry: a name, or an exported name with the local one behind a colon. -/
def readEntry (t : Text) : Except Failure ExportEntry :=
  let (external, internal) := match Text.cut? [':'] t with
    | some (a, b) => (a.trim, b.trim)
    | none => (t.trim, t.trim)
  if isIdentifier external && isIdentifier internal then .ok ⟨external, internal⟩
  else .error (.exportEntry t.trim)

/-- The exports assigned one by one. -/
def memberExports (t : Text) : List ModuleExport :=
  (memberExport.allMatches t).map fun m => ⟨⟨m.groupText 1, m.groupText 1⟩, true, m.text⟩

/-- The entries of a list in braces. -/
def readEntries (body : Text) : Except Failure (List ExportEntry) :=
  ((Text.splitOn ',' (withoutComments body)).filter (! ·.allBlank)).mapM readEntry

/-- The offset behind spaces and tabs and one semicolon, if there is one. -/
def afterSemicolon (t : Text) (n : Nat) : Nat :=
  let spaces := ((t.drop n).takeWhile isSpaceOrTab).length
  if (t.drop (n + spaces)).head? = some ';' then n + spaces + 1 else n + spaces

/-- The entries assigned to `exports` at once, and the offset behind the statement. -/
def wholeEntries (t : Text) (m : Match) : Except Failure (List ExportEntry × Nat) :=
  let n := m.stop.offset
  match m.stop.rest with
  | '{' :: _ => do
    let e ← Script.groupEnd t n
    let entries ← readEntries (t.slice (n + 1) (e - 1))
    pure (entries, afterSemicolon t e)
  | _ => do
    let e ← Script.statementEnd t n
    let entry ← readEntry (t.slice n (e - 1))
    pure ([entry], e)

/-- The exports of one assignment to `exports`. -/
def wholeExports (t : Text) (m : Match) : Except Failure (List ModuleExport) := do
  let (entries, e) ← wholeEntries t m
  let statement := (t.slice m.start.offset e).dropWhile isSpaceOrTab
  pure (entries.map fun entry => ⟨entry, false, statement⟩)

/-- The exports of a module: those assigned one by one, then those assigned at once. -/
def moduleExports (t : Text) : Except Failure (List ModuleExport) := do
  let whole ← (wholeExport.allMatches t).mapM (wholeExports t)
  pure (memberExports t ++ whole.flatten)

/-- The name of the first assignment of a single name to `exports`. -/
def defaultExport? (t : Text) : Option Text :=
  (wholeExport.allMatches t).findSome? fun m =>
    match m.stop.rest.takeWhile isIdent with
    | [] => none
    | name => some name

end Modulize.Declaration
