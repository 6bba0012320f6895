import Modulize.Declaration.Merge
import Modulize.Session

/-!
# Merging groups of files

The files of a group, which need each other, are merged into one target file and removed
(`mergeGroup`). Members that are not there are reported; a group without members that are there is
passed over. Reading and merging come before the first change to the tree.
-/

namespace Modulize

/-- What has become of a group. -/
structure MergedGroup where
  target : Path
  merged : List Path
  missing : List Path
  deriving DecidableEq, Repr

namespace Session

/-- The report that a member of a group is not there. -/
def memberMissingEvent (group : Text) (p : Path) : Log.Event :=
  Log.Stage.cycles.event .warning "cycle-group-file-missing"
    [("group", .text group), ("path", .text p.toText)]

/-- The report that a group is passed over. -/
def groupSkippedEvent (group : Text) : Log.Event :=
  Log.Stage.cycles.event .warning "cycle-group-skipped" [("group", .text group)]

/-- The report that a group has been merged. -/
def groupMergedEvent (group : Text) (files : List Path) : Log.Event :=
  Log.Stage.cycles.event .info "cycle-group-merged"
    [("group", .text group), ("files", .texts (files.map Path.toText))]

/-- The merged text of files. -/
def mergedText (root : Text) (files : List Path) (fs : FileStore) : Except Failure Text := do
  Declaration.mergeTexts root (← files.mapM fs.sourceAt)

/-- Put a merged text into its target, in place of the files that it comes from. -/
def replaceFiles (files : List Path) (target : Path) (t : Text) : Session Unit := do
  files.forM fun p => change (·.unlink p)
  change (·.makeFolders target.parent)
  change (·.write target (.text t))

/-- Merge the members of a group into its target; both are given below the folder `output`. -/
def mergeGroup (root : Text) (output : Path) (group : Text) (members : List Text) :
    Session (Option MergedGroup) := do
  let files := members.map fun m => output.join (Path.parse m)
  let there ← look fun fs => files.filter fs.isFile
  let missing ← look fun fs => files.filter (! fs.isFile ·)
  emitAll (missing.map (memberMissingEvent group))
  if there.isEmpty then
    emit (groupSkippedEvent group)
    pure none
  else
    let t ← read (mergedText root there)
    let target := output.join (Path.parse group)
    replaceFiles there target t
    emit (groupMergedEvent group there)
    pure (some ⟨target, there, missing⟩)

/-- Merge groups one after another; the result lists those that were not passed over. -/
def mergeGroups (root : Text) (output : Path) :
    List (Text × List Text) → Session (List MergedGroup)
  | [] => pure []
  | (group, members) :: rest => do
    let merged ← mergeGroup root output group members
    let others ← mergeGroups root output rest
    pure (merged.toList ++ others)

end Session

end Modulize
