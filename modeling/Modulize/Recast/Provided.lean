import Modulize.Recast.Defines

/-!
# Files that provide namespaces

`convertProvided` turns every namespace that a file provides into local bindings, the longest
namespace first, and puts one export clause at the end of the file. A namespace that is a value
becomes a binding of its own; of a namespace that is an object, every member becomes one.
-/

namespace Modulize.Recast

open Pattern

/-- Names that end with an underscore are not exported. -/
def isPublic (name : Text) : Bool := !Text.endsWith ['_'] name

/-- The text without the first occurrence of a statement and the blanks behind it. -/
def removeFirst (t statement : Text) : Text :=
  match Text.cut? statement t with
  | some (a, b) => a ++ b.trimStart
  | none => t

/-- The entry for a name, when the name is exported. -/
def exportOf (name localName : Text) : Except Failure (List ExportEntry) :=
  if isPublic name then (ExportEntry.make name localName).map ([·]) else .ok []

/-- The first declaration of a namespace by itself; group 1 is the indentation, group 2 what
follows the name. -/
def valueDeclaration (name : Text) : Pattern :=
  lineStart ++ group 1 spacesOrTabs ++ Qualified.spaced name ++
    group 2 ((blanks ++ Declaration.equalsSign) <|> (blanks ++ one (· == ';')))

/-- The local name for a namespace that is a value: its last segment, behind the segment before
it when it is reserved. -/
def valueName (reserved : List Text) (name : Text) : Text :=
  match (Qualified.segments name).reverse with
  | last :: outer :: _ => if last ∈ reserved then outer ++ '_' :: last else last
  | [last] => last
  | [] => []

/-- Turn a namespace that is a value into a local binding. -/
def bindValue (reserved : List Text) (name : Text) (c : Converted) : Except Failure Converted := do
  let localName := valueName reserved name
  let exported ← exportOf (Qualified.lastSegment name) localName
  let t := (valueDeclaration name).replaceFirst
    (fun m => m.groupText 1 ++ "let " ++ localName ++ m.groupText 2) c.text
  pure ⟨Qualified.replaceReferences t name localName, c.entries ++ exported⟩

/-- How the members of a namespace are declared: with a value, or by the name alone. -/
inductive MemberForm
  | assigned
  | bare
  deriving DecidableEq, Repr

/-- What follows the name in a declaration of this form; group 2 is kept. -/
def MemberForm.tail : MemberForm → Pattern
  | .assigned => group 2 (blanks ++ Declaration.equalsSign)
  | .bare => blanks ++ group 2 (one (· == ';'))

/-- A declaration of a member, whose name the pattern `member` describes. -/
def memberDeclaration (name : Text) (form : MemberForm) (member : Pattern) : Pattern :=
  lineStart ++ Qualified.spaced name ++ Qualified.dot ++ member ++ form.tail

/-- The members that are declared in this form, each once, in order. -/
def memberNames (t name : Text) (form : MemberForm) : List Text :=
  dedup (((memberDeclaration name form (group 1 identifier)).allMatches t).map (·.groupText 1))

/-- The local name for a member: behind an underscore when it is reserved. -/
def memberName (reserved : List Text) (member : Text) : Text :=
  if member ∈ reserved then '_' :: member else member

/-- Turn a member of a namespace into a local binding. -/
def bindMember (reserved : List Text) (name : Text) (form : MemberForm) (c : Converted)
    (member : Text) : Except Failure Converted := do
  let localName := memberName reserved member
  let exported ← exportOf member localName
  let t := (memberDeclaration name form (literal member)).replaceFirst
    (fun m => "let " ++ localName ++ m.groupText 2) c.text
  pure ⟨Qualified.replaceReferences t (name ++ '.' :: member) localName, c.entries ++ exported⟩

/-- Turn all members of a namespace that are declared in this form into local bindings. -/
def bindMembers (reserved : List Text) (name : Text) (form : MemberForm) (c : Converted) :
    Except Failure Converted :=
  (memberNames c.text name form).foldlM (bindMember reserved name form) c

/-- Turn a provided namespace into local bindings, and remove its header. -/
def bindProvide (reserved : List Text) (c : Converted) (p : Provide) :
    Except Failure Converted := do
  let c ← match Declaration.shapeOf c.text p.name with
    | .value => bindValue reserved p.name c
    | .object =>
      (bindMembers reserved p.name .assigned c).bind (bindMembers reserved p.name .bare)
  match p.matched with
  | some (a :: header) => pure { c with text := removeFirst c.text (a :: header) }
  | _ => pure c

/-- Put an export clause at the end of a text. -/
def appendExports (t : Text) (entries : List ExportEntry) : Text :=
  t.trimEnd ++ "\n\nexport \x7b" ++ Text.joinWith ", " (entries.map ExportEntry.exportClause) ++
    "\x7d;\n"

/-- The members of a list, those with longer names first. -/
def longestFirst {α : Type} (name : α → Text) (l : List α) : List α :=
  sortBy (fun a b => (name b).length ≤ (name a).length) l

/-- Convert a file that provides namespaces. -/
def convertProvided (root : Text) (reserved : List Text) (t : Text) (provides : List Provide) :
    Except Failure Converted := do
  let c ← (longestFirst Provide.name provides).foldlM (bindProvide reserved) (bindDefines root t)
  if c.entries.isEmpty then .error (.noExports (provides.map Provide.name))
  else
    let entries := ExportEntry.sort (dedup c.entries)
    pure ⟨appendExports (bindDefines root c.text).text entries, entries⟩

end Modulize.Recast
