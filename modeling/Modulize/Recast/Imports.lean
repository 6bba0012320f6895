import Modulize.Alias
import Modulize.Graph.Basic
import Modulize.Recast.Exported
import Modulize.Settings.Basic

/-!
# Imports

Every dependency of a file becomes an import of the file that provides it (`replaceRequires`),
longer namespaces first. The import binds the name or the members that the require binds, or a
new alias; references to the namespace are recast to that alias. Namespaces that a required
file provides along with a required one, below it, are imported as well when the text mentions
them (`withSiblings`).
-/

namespace Modulize.Recast

/-- The specifier by which the file `source` imports the file `target`: the way to it from the
folder of `source`, which begins with a dot. -/
def importSpecifier (source target : Path) : Text :=
  let way := (Path.relativeFrom source.parent target).toText
  if way.head? = some '.' then way else "./" ++ way

/-- The file that is recast and what is known about all files. -/
structure FileContext where
  graph : DependencyGraph
  settings : RecastSettings
  path : Path

namespace FileContext

/-- The namespaces below `name` that its provider provides too and that the text mentions, unless
they are required already. -/
def siblings (ctx : FileContext) (t : Text) (required : List Text) (name : Text) : List Text :=
  match ctx.graph.providerOf? name with
  | none => []
  | some provider =>
    if provider = ctx.path then []
    else ((ctx.graph.providesOf provider).map Provide.name).filter fun candidate =>
      candidate ∉ required ∧ Text.startsWith (name ++ ['.']) candidate ∧ Text.contains candidate t

/-- Go through required namespaces and note their siblings. -/
def gatherSiblings (ctx : FileContext) (t : Text) : List Text → List Text → List Text
  | _, [] => []
  | required, name :: rest =>
    let new := dedup (ctx.siblings t required name)
    new ++ gatherSiblings ctx t (required ++ new) rest

/-- The dependencies of the file, followed by those on siblings. -/
def withSiblings (ctx : FileContext) (t : Text) : List Require :=
  let requires := ctx.graph.requiresOf ctx.path
  let required := dedup (requires.map Require.name)
  requires ++ (ctx.gatherSiblings t required (sortTexts required)).map Require.implied

/-- The name that a namespace is exported under, when it is not imported as a whole. -/
def importedName? (ctx : FileContext) (name : Text) : Option Text :=
  let last := Qualified.lastSegment name
  match ctx.graph.provide? name with
  | none => if Qualified.isClassName last then some last else none
  | some p =>
    if p.isModule then
      match p.defaultExport with
      | some exported => some (if exported.isEmpty then last else exported)
      | none => none
    else if p.shape = some .value then some last
    else none

/-- The statement that imports a namespace under an alias. -/
def importStatement (ctx : FileContext) (name localName specifier : Text) : Text :=
  let source := " from '" ++ specifier ++ "';"
  match ctx.importedName? name with
  | none => "import * as " ++ localName ++ source
  | some exported =>
    if exported = localName then "import \x7b" ++ localName ++ "\x7d" ++ source
    else "import \x7b" ++ exported ++ " as " ++ localName ++ "\x7d" ++ source

end FileContext

/-- The statement that imports members. -/
def importMembers (entries : List ExportEntry) (specifier : Text) : Text :=
  "import \x7b" ++ Text.joinWith ", " (entries.map ExportEntry.importClause) ++ "\x7d from '" ++
    specifier ++ "';"

/-- Put an import statement where the require stands, and remove its repetitions; without a
require in the text, put the import at the beginning. An implied import is not repeated. -/
def placeImport (t : Text) (matched : Option Text) (statement : Text) : Text :=
  match matched with
  | none => if Text.contains statement t then t else statement ++ '\n' :: t
  | some header =>
    match Text.cut? header t with
    | none => statement ++ '\n' :: t
    | some (a, b) => a ++ statement ++ removeStatement b header

/-- The state of the replacement of requires: the text, the names in use, and the namespaces
imported so far. -/
structure Importing where
  text : Text
  used : List Text
  imported : List Text
  deriving DecidableEq, Repr

/-- A require that takes part in the file without an import of its own: it asks for nothing but
what is there already. -/
def isRedundant (ctx : FileContext) (s : Importing) (r : Require) (target : Path) : Bool :=
  target = ctx.path || (r.binding = .plain && s.imported.contains r.name)

/-- The alias of a require that binds no members. -/
def aliasFor (ctx : FileContext) (s : Importing) (r : Require) : Except Failure Text :=
  match r.binding with
  | .alias name => .ok name
  | _ =>
    Alias.allocate r.name ⟨s.used ++ ctx.settings.reservedNames, s.text⟩
      ctx.settings.maxAliasAttempts

/-- Import the namespace of a require from the file `target`. -/
def addImport (ctx : FileContext) (s : Importing) (r : Require) (target : Path) :
    Except Failure Importing :=
  let specifier := importSpecifier ctx.path target
  match r.binding with
  | .members entries =>
    .ok ⟨placeImport s.text r.matched (importMembers entries specifier),
      s.used ++ entries.map ExportEntry.internal, r.name :: s.imported⟩
  | _ => do
    let localName ← aliasFor ctx s r
    let t := Qualified.replaceReferences s.text r.name localName
    pure ⟨placeImport t r.matched (ctx.importStatement r.name localName specifier),
      s.used ++ [localName], r.name :: s.imported⟩

/-- Replace one require by an import. An advisory one without a provider is passed over. -/
def replaceRequire (ctx : FileContext) (s : Importing) (r : Require) : Except Failure Importing :=
  match ctx.graph.providerOf? r.name with
  | none => if r.isAdvisory then .ok s else .error (.ofUnresolved [r.name])
  | some target =>
    if isRedundant ctx s r target then
      match r.matched with
      | some (a :: header) => .ok { s with text := removeStatement s.text (a :: header) }
      | _ => .ok s
    else addImport ctx s r target

/-- Replace the requires of a file by imports; `bound` are the names it binds itself. -/
def replaceRequires (ctx : FileContext) (t : Text) (requires : List Require) (bound : List Text) :
    Except Failure Text :=
  ((longestFirst Require.name requires).foldlM (replaceRequire ctx) ⟨t, bound, []⟩).map
    Importing.text

end Modulize.Recast
