import Modulize.Class.Convert
import Modulize.Session

/-!
# Converting the classes of files

Every file is read, its constructor functions are turned into classes, and it is written again if
that has changed it.
-/

namespace Modulize.Session

/-- The report that a file has been converted. -/
def classesConvertedEvent (p : Path) : Log.Event :=
  Log.Stage.classes.event .debug "class-file-converted" [("path", .text p.toText)]

/-- The report that all files are done. -/
def classesCompleteEvent (count : Nat) : Log.Event :=
  Log.Stage.classes.event .info "classes-converted" [("files", .number count)]

/-- Convert the classes of a file; the result tells whether its text has changed. -/
def convertClassesIn (root : Text) (p : Path) : Session Bool := do
  let t ← read (·.sourceAt p)
  let t' ← ofResult (Class.convert root t)
  if t' = t then pure false
  else do
    change (·.write p (.text t'))
    emit (classesConvertedEvent p)
    pure true

/-- Convert files one after another; the result lists those that have changed. -/
def convertEachClass (root : Text) : List Path → Session (List Path)
  | [] => pure []
  | p :: ps => do
    let isChanged ← convertClassesIn root p
    let changed ← convertEachClass root ps
    pure (if isChanged then p :: changed else changed)

/-- Convert the classes of files; the result lists those that have changed. -/
def convertClasses (root : Text) (files : List Path) : Session (List Path) := do
  let changed ← convertEachClass root files
  emit (classesCompleteEvent changed.length)
  pure changed

end Modulize.Session
