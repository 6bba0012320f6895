import Modulize.Graph.Selection
import Modulize.Session
import Modulize.Text.CharClass

/-!
# Selecting for required namespaces

The namespaces that are needed from outside are listed in a file, one to a line (`listedNames`);
`select` finds the files that they need.
-/

namespace Modulize

/-- The namespaces listed in a text, without empty lines and lines that begin with a hash sign. -/
def listedNames (t : Text) : List Text :=
  ((Text.splitLines t).map Text.trim).filter fun l => l ≠ [] ∧ l.head? ≠ some '#'

namespace Session

/-- The namespaces listed in a file. -/
def namesListedIn (p : Path) : Session (List Text) := do
  pure (listedNames (← read (·.textAt p)))

/-- The report that files have been selected. -/
def selectedEvent (s : DependencyGraph.Selecting) (rule : DependencyGraph.SelectionRule) :
    Log.Event :=
  Log.Stage.selection.event .info "selection-complete"
    [("namespaces", .number s.seen.length), ("files", .number s.selected.length),
     ("include_tests", .flag rule.includeTests)]

/-- The files that some namespaces need, in the order of paths. -/
def select (g : DependencyGraph) (names : List Text) (rule : DependencyGraph.SelectionRule) :
    Session (List Path) := do
  let s ← ofResult (g.closure names rule)
  emit (selectedEvent s rule)
  pure (Path.sort s.selected)

end Session

end Modulize
