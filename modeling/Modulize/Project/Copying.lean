import Modulize.Session

/-!
# Copying sources

Files below one folder are copied to the same places below another.
-/

namespace Modulize.Session

/-- The report that files have been copied. -/
def copiedEvent (count : Nat) (output : Path) : Log.Event :=
  Log.Stage.files.event .info "files-copied"
    [("count", .number count), ("output", .text output.toText)]

/-- Copy a file below `source` to the same place below `output`. -/
def copyFile (source output p : Path) : Session Path := do
  match p.relativeTo? source with
  | none => throw (.notBelow p source)
  | some relative =>
    let destination := output.join relative
    change (·.makeFolders destination.parent)
    change (·.copy p destination)
    pure destination

/-- Copy files below `source` to the same places below `output`, in the order of paths. -/
def copyFiles (source output : Path) (files : List Path) : Session (List Path) := do
  let copied ← (Path.sort files).mapM (copyFile source output)
  emit (copiedEvent copied.length output)
  pure copied

/-- Copy all files below `source` to the same places below `output`. -/
def copyTree (source output : Path) : Session (List Path) := do
  let files ← look fun fs => (fs.below source).filter fs.isFile
  copyFiles source output files

/-- Make a folder unless it is there, and remove all that is in it. -/
def clear (folder : Path) : Session Unit := change (·.clear folder)

end Modulize.Session
