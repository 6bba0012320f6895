import Modulize.Recast.Imports

/-!
# Recasting a file

`convertFile` applies all the recasting steps to the text of one file: its own declarations
first, then its requires, and at last what is left of the root namespace: references below it are
shortened to the last segment (`stripRoot`). Members of the root on the allowlist, what lies below
them, and prototype chains keep their full names.
-/

namespace Modulize.Recast

open Pattern

/-! ## References to the root -/

/-- A dotted name below the root. -/
def rootPath (root : Text) : Pattern :=
  notAfter (fun c => Qualified.guards c || c == '.') ++ literal root ++
    one (· == '.') ++ identifier ++ many (one (· == '.') ++ identifier) none true

/-- A dotted name that keeps its full form. -/
def isProtected (root : Text) (allowlist : List Text) (name : Text) : Bool :=
  (Qualified.segments name).contains "prototype" ||
    allowlist.any fun entry =>
      let allowed := root ++ '.' :: entry
      name == allowed || Text.startsWith (allowed ++ ['.']) name

/-- The dotted names below the root that are to be shortened, each once. -/
def strippedNames (root : Text) (allowlist : List Text) (t : Text) : List Text :=
  dedup ((((rootPath root).allMatches t).map Match.text).filter (! isProtected root allowlist ·))

/-- Shorten the references below the root that are not protected, the longest first. -/
def stripRoot (root : Text) (allowlist : List Text) (t : Text) : Text :=
  (sortBy (fun a b => b.length ≤ a.length) (strippedNames root allowlist t)).foldl
    (fun t name => Qualified.replaceReferences t name (Qualified.lastSegment name)) t

/-! ## Files -/

/-- The tag that suppresses a warning about requires. -/
def suppressTag : Pattern :=
  literal "@suppress" ++ blanks ++ literal "\x7bextraRequire\x7d"

/-- The flag that tells a compiled program, which is always set. -/
def compiledFlag : Pattern :=
  notAfter (fun c => isIdent c || c == '.') ++ literal "COMPILED" ++ notBefore isIdent

/-- Convert the declarations of a file, according to its style. A module whose header is not
known has been converted before. -/
def convertDeclarations (ctx : FileContext) (t : Text) : Except Failure (Option Converted) :=
  let provides := ctx.graph.providesOf ctx.path
  match provides.find? (·.isModule) with
  | some p =>
    match p.matched with
    | none => .ok none
    | some _ => .ok (some (convertModule ctx.settings.root t p))
  | none =>
    (convertProvided ctx.settings.root ctx.settings.reservedNames t provides).map some

/-- Replace the requires of a converted file and shorten what is left of the root. -/
def finishFile (ctx : FileContext) (c : Converted) : Except Failure Text := do
  let requires := ctx.withSiblings c.text
  let t ← replaceRequires ctx c.text requires (c.entries.map ExportEntry.internal)
  let t := stripRoot ctx.settings.root ctx.settings.rootAllowlist (suppressTag.erase t)
  pure (compiledFlag.replace (fun _ => "true") t)

/-- The converted text of a file, or nothing when it has been converted before. -/
def convertFile (ctx : FileContext) (t : Text) : Except Failure (Option Text) := do
  match ← convertDeclarations ctx t with
  | none => pure none
  | some c => (finishFile ctx c).map some

end Modulize.Recast
