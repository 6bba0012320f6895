import Modulize.Declaration.Basic

/-!
# The dependency graph

Which file owns a namespace, and what every file provides and requires. `DependencyGraph.addFile`
registers a file: namespaces are taken over one by one, and the first one that has an owner
already stops it, with the namespaces before it taken and the declarations left as they were.
`unresolved` lists the required namespaces without an owner; advisory requires do not count.
-/

namespace Modulize

/-- Owners of namespaces, and the declarations of files, both in the order of registration. -/
structure DependencyGraph where
  owners : List (Text × Path)
  provided : List (Path × List Provide)
  required : List (Path × List Require)
  deriving DecidableEq, Repr

namespace DependencyGraph

/-- The graph without files. -/
def empty : DependencyGraph := ⟨[], [], []⟩

/-- The file that owns a namespace. -/
def providerOf? (g : DependencyGraph) (name : Text) : Option Path := lookup? name g.owners

/-- The namespaces that a file provides. -/
def providesOf (g : DependencyGraph) (p : Path) : List Provide := (lookup? p g.provided).getD []

/-- The dependencies of a file. -/
def requiresOf (g : DependencyGraph) (p : Path) : List Require := (lookup? p g.required).getD []

/-- The declaration of a namespace in the file that owns it. -/
def provide? (g : DependencyGraph) (name : Text) : Option Provide :=
  (g.providerOf? name).bind fun p => (g.providesOf p).find? (·.name = name)

/-- The files, in the order of registration. -/
def files (g : DependencyGraph) : List Path := g.provided.map Prod.fst

/-- Make `p` the owner of namespaces, up to the first that has an owner. -/
def enroll (p : Path) : List Provide → List (Text × Path) → List (Text × Path) × Option Failure
  | [], owners => (owners, none)
  | d :: ds, owners =>
    match lookup? d.name owners with
    | some owner => (owners, some (.duplicateProvide d.name owner p))
    | none => enroll p ds (owners ++ [(d.name, p)])

/-- Add members to the list stored under a key. -/
def extend {α : Type} (p : Path) (new : List α) (table : List (Path × List α)) :
    List (Path × List α) :=
  assign p ((lookup? p table).getD [] ++ new) table

/-- Register a file with its declarations. The graph that results is given also on failure. -/
def addFile (g : DependencyGraph) (p : Path) (provides : List Provide) (requires : List Require) :
    DependencyGraph × Option Failure :=
  match enroll p provides g.owners with
  | (owners, some f) => ({ g with owners }, some f)
  | (owners, none) => (⟨owners, extend p provides g.provided, extend p requires g.required⟩, none)

/-- The required namespaces without an owner, advisory requires aside, each once and in order. -/
def unresolved (g : DependencyGraph) : List Text :=
  let needed := (g.required.flatMap Prod.snd).filter (! ·.isAdvisory)
  sortTexts (dedup ((needed.map Require.name).filter fun n => (g.providerOf? n).isNone))

/-- Every dependency that is not advisory has an owner. -/
def validate (g : DependencyGraph) : Except Failure Unit :=
  match g.unresolved with
  | [] => .ok ()
  | names => .error (.ofUnresolved names)

end DependencyGraph

end Modulize
