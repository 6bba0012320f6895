import Modulize.Project.Checking
import Modulize.Project.Classes
import Modulize.Project.Copying
import Modulize.Project.Index
import Modulize.Project.Merging
import Modulize.Project.Patching
import Modulize.Project.Recasting
import Modulize.Project.Selection

/-!
# The whole conversion

`Conversion.run` converts an input tree into an output tree, stage by stage: select the files that
are needed, clear the output folder and copy them there, patch them, merge the groups of files that
need each other, convert classes, index the result, recast its files, and check it. The input and
the output folder must not lie within each other; the paths of the groups of files are taken as they
are configured.
-/

namespace Modulize.Conversion

open Session

/-- What a conversion has done. -/
structure Report where
  output : Path
  selected : Option (List Path)
  merged : List MergedGroup
  classes : List Path
  outcomes : List RecastOutcome
  check : Option CheckResult
  deriving DecidableEq, Repr

namespace Report

/-- The files that have been recast. -/
def recast (r : Report) : List Path := (r.outcomes.filter (·.isConverted)).map (·.path)

/-- The files that have been left as they were, with the reasons. -/
def skipped (r : Report) : List (Path × Text) :=
  r.outcomes.filterMap fun o =>
    match o.status with
    | .converted => none
    | .skipped reason => some (o.path, reason)

end Report

/-- An event that the conversion as a whole reports. -/
def event (name : Text) (fields : List (Text × Log.FieldValue)) : Log.Event :=
  ⟨.info, name, ("component", .text "conversion-service") :: fields⟩

/-- The report that the conversion begins. -/
def startEvent (input output : Path) : Log.Event :=
  event "conversion-start" [("input", .text input.toText), ("output", .text output.toText)]

/-- The report that the conversion is complete. -/
def completeEvent (r : Report) : Log.Event :=
  event "conversion-complete"
    [("output", .text r.output.toText), ("merged", .number r.merged.length),
     ("classes", .number r.classes.length), ("rewritten", .number r.recast.length),
     ("skipped", .number r.skipped.length)]

/-- How the files of the settings are read. -/
def readRule (s : Settings) : ReadRule := ⟨s.reader, s.recast.root, s.selection.includeTests⟩

/-- The input folder, from the root of all files. -/
def inputFolder (s : Settings) : Session Path := do
  match s.inputDir with
  | none => throw (.notConfigured "input_dir")
  | some p =>
    let source ← read (·.resolve p)
    if ← look (·.isFolder source) then pure source else throw (.inputMissing source)

/-- The output folder as it is configured. -/
def outputFolder (s : Settings) : Session Path :=
  match s.outputDir with
  | none => throw (.notConfigured "output_dir")
  | some p => pure p

/-- The input and the output folder, neither of which lies within the other. -/
def folders (s : Settings) : Session (Path × Path) := do
  let source ← inputFolder s
  let configured ← outputFolder s
  let output ← read (·.resolve configured)
  if output.isWithin source then throw (.outputInsideInput output source)
  else if source.isWithin output then throw (.inputInsideOutput source output)
  else pure (source, output)

/-- The graph of the input folder. -/
def readInput (s : Settings) : Session DependencyGraph := do
  readTree (readRule s) (← inputFolder s)

/-- The files that the configured namespaces need, in a graph that `graph` reads; nothing without a
list of namespaces. -/
def selectIn (s : Settings) (graph : Session DependencyGraph) : Session (Option (List Path)) := do
  match s.selection.namespacesFile with
  | none => pure none
  | some file =>
    if ← look (·.isFile file) then
      let names ← namesListedIn file
      let g ← graph
      some <$> Session.select g names ⟨s.selection.includeTests, s.selection.testSuffix⟩
    else throw (.namespacesFileMissing file)

/-- The files of the input folder that the configured namespaces need. -/
def select (s : Settings) : Session (Option (List Path)) := selectIn s (readInput s)

/-- The files that are converted, when not all of them are. The graph is read before the list of
namespaces is looked for. -/
def selectFrom (s : Settings) (source : Path) : Session (Option (List Path)) :=
  match s.selection.namespacesFile with
  | none => pure none
  | some _ => do
    let g ← readTree (readRule s) source
    selectIn s (pure g)

/-- Clear the output folder, and copy the selected files there, or all files. -/
def copyInput (source output : Path) (selected : Option (List Path)) : Session Unit := do
  clear output
  match selected with
  | none => discard (copyTree source output)
  | some files => discard (copyFiles source output files)

/-- The ending of the names of source files that patches are meant for. -/
def sourceExtension : Text := ".js"

/-- The ending of the names of declaration files. -/
def declarationExtension : Text := ".d.ts"

/-- Recast the files of the output folder by the graph of all of them. -/
def recastTree (s : Settings) (output : Path) : Session (List RecastOutcome) := do
  let g ← readTree (readRule s) output
  ofResult g.validate
  recastFiles g s.recast g.files

/-- Check the output folder, when a check is configured and asked for. -/
def checkTree (s : Settings) (isChecked : Bool) (output : Path) :
    Session (Option CheckResult) := do
  if isChecked && !s.verifyCommand.isEmpty then some <$> check s.verifyCommand output
  else pure none

/-- Convert the input tree into the output tree. -/
def run (s : Settings) (isChecked : Bool) : Session Report := do
  let (source, output) ← folders s
  emit (startEvent source output)
  let selected ← selectFrom s source
  copyInput source output selected
  discard (patchTree sourceExtension s.patches.source output)
  let merged ← mergeGroups s.recast.root output s.cycleGroups
  let paths ← sources (readRule s) output
  let classes ← convertClasses s.recast.root paths
  let outcomes ← recastTree s output
  let checked ← checkTree s isChecked output
  let report : Report := ⟨output, selected, merged, classes, outcomes, checked⟩
  emit (completeEvent report)
  pure report

/-- Patch the declaration files of a folder, by default the output folder; the result lists those
that have changed. -/
def patchDeclarations (s : Settings) (folder : Option Path) : Session (List Path) := do
  let root ← match folder with
    | some p => pure p
    | none => outputFolder s
  if ← look (·.isFolder root) then
    patchTree declarationExtension s.patches.declaration root
  else throw (.declarationsMissing root)

end Modulize.Conversion
