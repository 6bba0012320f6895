import Modulize.Recast.Provided

/-!
# Files that are modules

`convertModule` writes the exports of a module as export declarations. An assignment to a member
of `exports` becomes a constant that is exported where it stands; an assignment to `exports`
itself becomes an export clause at the end of the file.
-/

namespace Modulize.Recast

open Pattern

/-- The text without any occurrence of a statement and the end of its line. -/
def removeStatement (t statement : Text) : Text :=
  (literal statement ++ spacesOrTabs ++ optional (one (· == '\n'))).erase t

/-- The call that gives a module a namespace as well. -/
def legacyNamespaceCall (root : Text) : Pattern :=
  Qualified.spaced root ++ Qualified.dot ++ literal "module" ++ Qualified.dot ++
    literal "declareLegacyNamespace" ++ blanks ++ one (· == '(') ++ blanks ++ one (· == ')') ++
    blanks ++ optional (one (· == ';')) ++ spacesOrTabs ++ optional (one (· == '\n'))

/-- An assignment to the member `name` of `exports`; group 1 is the indentation. -/
def memberAssignment (name : Text) : Pattern :=
  lineStart ++ group 1 spacesOrTabs ++ literal "exports." ++ literal name ++ blanks ++
    Declaration.equalsSign

/-- An exported constant that is assigned itself. -/
def selfAssignment (name : Text) : Pattern :=
  literal "export const " ++ literal name ++ literal " = " ++ literal name ++ blanks ++
    one (· == ';')

/-- A reference to a member of `exports`; group 1 is the member. -/
def exportsReference : Pattern :=
  notAfter (fun c => isIdent c || c == '.') ++ literal "exports." ++ group 1 identifier

/-- Export a member where it is assigned. -/
def exportMember (t name : Text) : Text :=
  let t := (memberAssignment name).replace
    (fun m => m.groupText 1 ++ "export const " ++ name ++ " =") t
  (selfAssignment name).replace (fun _ => "export \x7b" ++ name ++ "\x7d;") t

/-- The text of a module with its header removed and its members exported where they stand. -/
def exportMembers (root t : Text) (p : Provide) : Text :=
  let t := match p.matched with
    | some (a :: header) => removeFirst t (a :: header)
    | _ => t
  let t := (legacyNamespaceCall root).erase t
  let names := dedup ((p.exports.filter (·.isInline)).map (·.entry.internal))
  exportsReference.replace (·.groupText 1) (names.foldl exportMember t)

/-- Convert a file that is a module. -/
def convertModule (root t : Text) (p : Provide) : Converted :=
  let c := bindDefines root (exportMembers root t p)
  let entries := p.exports.map (·.entry)
  match p.exports.filter (! ·.isInline) with
  | [] => ⟨c.text, entries⟩
  | first :: rest =>
    let listed := (first :: rest).map (·.entry)
    let defined := c.entries.filter (· ∉ listed)
    ⟨appendExports (removeStatement c.text first.matched) (listed ++ dedup defined), entries⟩

end Modulize.Recast
