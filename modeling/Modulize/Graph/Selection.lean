import Modulize.Graph.Basic

/-!
# Selecting files

`DependencyGraph.select` collects the files that some root namespaces need: the owner of every
root, and, for each collected file, the owners of what it requires. Advisory requires are not
followed. With `includeTests`, the namespace with the test suffix added is collected along with a
namespace when some file provides it.
-/

namespace Modulize.DependencyGraph

/-- How a selection treats test files. -/
structure SelectionRule where
  includeTests : Bool
  testSuffix : Text
  deriving DecidableEq, Repr

/-- The state of a selection: the files collected, the namespaces seen, and those of them that
are still to be looked at, the next one first. -/
structure Selecting where
  selected : List Path
  seen : List Text
  pending : List Text
  deriving DecidableEq, Repr

namespace Selecting

/-- Note a namespace to be looked at, unless it has been seen. -/
def enqueue (s : Selecting) (name : Text) : Selecting :=
  if name ∈ s.seen then s
  else { s with seen := name :: s.seen, pending := s.pending ++ [name] }

/-- Collect a file and note what it requires. -/
def expand (g : DependencyGraph) (s : Selecting) (p : Path) : Selecting :=
  let s' := if p ∈ s.selected then s else { s with selected := p :: s.selected }
  (((g.requiresOf p).filter (! ·.isAdvisory)).map Require.name).foldl enqueue s'

/-- Collect the file of the test companion of a namespace, unless it has been collected. -/
def expandCompanion (g : DependencyGraph) (rule : SelectionRule) (s : Selecting) (name : Text) :
    Selecting :=
  if rule.includeTests then
    match g.providerOf? (name ++ rule.testSuffix) with
    | some companion => if companion ∈ s.selected then s else s.expand g companion
    | none => s
  else s

/-- Look at the pending namespaces one after another, at most `fuel` of them. -/
def runFor (g : DependencyGraph) (rule : SelectionRule) :
    Nat → Selecting → Except Failure Selecting
  | 0, s => .ok s
  | fuel + 1, s =>
    match s.pending with
    | [] => .ok s
    | name :: rest =>
      match g.providerOf? name with
      | none => .error (.ofUnresolved [name])
      | some p =>
        let s' : Selecting := { s with pending := rest }
        runFor g rule fuel ((s'.expand g p).expandCompanion g rule name)

end Selecting

/-- The number of namespaces that a selection may have to look at: the roots and all that is
required somewhere. -/
def lookBound (g : DependencyGraph) (roots : List Text) : Nat :=
  roots.length + (g.required.flatMap Prod.snd).length + 1

/-- The selection that the roots lead to, with nothing left to look at. -/
def closure (g : DependencyGraph) (roots : List Text) (rule : SelectionRule) :
    Except Failure Selecting :=
  Selecting.runFor g rule (g.lookBound roots) (roots.foldl Selecting.enqueue ⟨[], [], []⟩)

/-- The files that the roots need, in the order of paths. -/
def select (g : DependencyGraph) (roots : List Text) (rule : SelectionRule) :
    Except Failure (List Path) :=
  (g.closure roots rule).map fun s => Path.sort s.selected

end Modulize.DependencyGraph
