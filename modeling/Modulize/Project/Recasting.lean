import Modulize.Recast.File
import Modulize.Session

/-!
# Recasting the files of a tree

Every file is read, recast by what the graph knows about all files, and written again. A file
with unclear exports is reported and stays as it is, and so does one that has been converted
before; any other failure ends the run.
-/

namespace Modulize

/-- What has become of a file. -/
inductive RecastStatus
  | converted
  | skipped (reason : Text)
  deriving DecidableEq, Repr

/-- A file and what has become of it. -/
structure RecastOutcome where
  path : Path
  status : RecastStatus
  deriving DecidableEq, Repr

/-- The file has been recast. -/
def RecastOutcome.isConverted (o : RecastOutcome) : Bool := o.status = .converted

namespace Session

/-- The report that the exports of a file are unclear. -/
def exportUnclearEvent (p : Path) (f : Failure) : Log.Event :=
  Log.Stage.recaster.event .warning "rewrite-export-ambiguous"
    [("path", .text p.toText), ("error", .text f.message)]

/-- The report that a file has been converted before. -/
def headerlessEvent (p : Path) : Log.Event :=
  Log.Stage.recaster.event .debug "rewrite-file-skipped"
    [("path", .text p.toText), ("reason", .text "no-header")]

/-- The report that a file has been recast. -/
def recastEvent (p : Path) : Log.Event :=
  Log.Stage.recaster.event .debug "rewrite-file-converted" [("path", .text p.toText)]

/-- The report that all files are done. -/
def recastCompleteEvent (outcomes : List RecastOutcome) : Log.Event :=
  let converted := (outcomes.filter (·.isConverted)).length
  Log.Stage.recaster.event .info "rewrite-complete"
    [("converted", .number converted), ("skipped", .number (outcomes.length - converted))]

/-- The reason for which a converted file is left as it is. -/
def convertedBefore : Text := "already in module syntax"

/-- Recast a file. -/
def recastFile (g : DependencyGraph) (settings : RecastSettings) (p : Path) :
    Session RecastOutcome := do
  let t ← read (·.sourceAt p)
  match Recast.convertFile ⟨g, settings, p⟩ t with
  | .error f =>
    if f.isAmbiguousExport then
      emit (exportUnclearEvent p f)
      pure ⟨p, .skipped f.message⟩
    else throw f
  | .ok none =>
    emit (headerlessEvent p)
    pure ⟨p, .skipped convertedBefore⟩
  | .ok (some t') =>
    change (·.write p (.text t'))
    emit (recastEvent p)
    pure ⟨p, .converted⟩

/-- Recast files one after another. -/
def recastFiles (g : DependencyGraph) (settings : RecastSettings) (files : List Path) :
    Session (List RecastOutcome) := do
  let outcomes ← files.mapM (recastFile g settings)
  emit (recastCompleteEvent outcomes)
  pure outcomes

end Session

end Modulize
