import Modulize.Declaration.Reading
import Modulize.Files.Traversal
import Modulize.Graph.Basic
import Modulize.Session

/-!
# Indexing a tree

The source files of a tree are read one after another and registered in a dependency graph
(`indexFiles`, `indexTree`). The graph keeps what has been registered before a failure.
-/

namespace Modulize

namespace ReadRule

/-- The files that count as sources. -/
def walkRule (rule : ReadRule) : WalkRule where
  extensions := rule.settings.extensions
  excludePatterns :=
    rule.settings.excludePatterns ++ if rule.includeTests then [] else rule.settings.testPatterns
  respectsIgnoreFiles := rule.settings.respectsIgnoreFiles
  followsLinks := false

end ReadRule

namespace Session

/-- The report that a file has been registered. -/
def indexedEvent (p : Path) (d : FileDeclarations) : Log.Event :=
  Log.Stage.reader.event .debug "reader-file-indexed"
    [("path", .text p.toText), ("provides", .texts (d.provides.map Provide.name)),
     ("requires", .number d.requires.length)]

/-- The report that a tree has been indexed. -/
def indexCompleteEvent (root : Path) (g : DependencyGraph) : Log.Event :=
  Log.Stage.reader.event .info "reader-complete"
    [("root", .text root.toText), ("files", .number g.files.length),
     ("namespaces", .number g.owners.length)]

/-- The source files below a folder. -/
def sources (rule : ReadRule) (root : Path) : Session (List Path) := do
  let (paths, failure) ← look (·.sources rule.walkRule root)
  match failure with
  | some f => throw f
  | none => pure paths

/-- The declarations of a file, from its text. -/
def readDeclarations (rule : ReadRule) (p : Path) : Session (Option FileDeclarations) := do
  let t ← read (·.sourceAt p)
  let (events, declarations) := rule.read p t
  emitAll events
  ofResult declarations

/-- Register a file. The graph that results is given also on failure. -/
def indexFile (rule : ReadRule) (g : DependencyGraph) (p : Path) :
    Session (DependencyGraph × Option Failure) := do
  match ← attempt (readDeclarations rule p) with
  | .error f => pure (g, some f)
  | .ok none => pure (g, none)
  | .ok (some d) =>
    let (g, failure) := g.addFile p d.provides d.requires
    if failure.isNone then emit (indexedEvent p d)
    pure (g, failure)

/-- Register files one after another, up to the first failure. -/
def indexFiles (rule : ReadRule) : DependencyGraph → List Path →
    Session (DependencyGraph × Option Failure)
  | g, [] => pure (g, none)
  | g, p :: ps => do
    match ← indexFile rule g p with
    | (g, some f) => pure (g, some f)
    | (g, none) => indexFiles rule g ps

/-- Register the source files below a folder. The graph that results is given also on failure. -/
def indexTree (rule : ReadRule) (g : DependencyGraph) (root : Path) :
    Session (DependencyGraph × Option Failure) := do
  let (paths, ending) ← look (·.sources rule.walkRule root)
  let (g, failure) ← indexFiles rule g paths
  match failure.or ending with
  | some f => pure (g, some f)
  | none => do
    emit (indexCompleteEvent root g)
    pure (g, none)

/-- The graph of the source files below a folder. -/
def readTree (rule : ReadRule) (root : Path) : Session DependencyGraph := do
  match ← indexTree rule .empty root with
  | (_, some f) => throw f
  | (g, none) => pure g

end Session

end Modulize
