import Modulize.Files.Store
import Modulize.Log.Event

/-!
# Sessions

A session is a computation on the tree of files that reports events and may fail: what it has
changed and reported up to a failure stays. `World` is what it works on. Events are collected in
order, and written to a log file as well when there is one: those that are important enough, one
line each (`World.note`).
-/

namespace Modulize

/-- A log file: where it is, which events are written to it, and whether it has been begun. -/
structure LogFile where
  path : Path
  level : Log.Level
  hasBegun : Bool
  deriving DecidableEq, Repr

/-- What a session works on: the tree of files, the events so far, and the log file. -/
structure World where
  files : FileStore
  events : List Log.Event
  logFile : Option LogFile
  deriving DecidableEq, Repr

namespace World

/-- A tree of files, and nothing reported yet. -/
def start (files : FileStore) : World := ⟨files, [], none⟩

/-- Another tree of files. A log file that has been begun and is no longer there gets no more
lines, even if a file comes in its place. -/
def withFiles (w : World) (files : FileStore) : World :=
  { w with files, logFile := w.logFile.filter fun log => !log.hasBegun || files.isFile log.path }

/-- Write a line to the log file. -/
def writeLine (w : World) (log : LogFile) (line : Text) : World :=
  match w.files.append log.path (.text line) with
  | .ok files => { w with files, logFile := some { log with hasBegun := true } }
  | .error _ => w

/-- Report an event. -/
def note (w : World) (e : Log.Event) : World :=
  let w' := { w with events := w.events ++ [e] }
  match w.logFile with
  | none => w'
  | some log => if log.level.number ≤ e.level.number then w'.writeLine log e.line else w'

end World

/-- A computation on the tree of files that reports events and may fail. -/
abbrev Session := ExceptT Failure (StateM World)

namespace Session

/-- Run a session. The world that results is given also on failure. -/
def runOn {α : Type} (s : Session α) (w : World) : Except Failure α × World :=
  StateT.run (ExceptT.run s) w

/-- Look at the tree of files. -/
def look {α : Type} (f : FileStore → α) : Session α := do pure (f (← get).files)

/-- Read from the tree of files. -/
def read {α : Type} (f : FileStore → Except Failure α) : Session α := do
  ExceptT.mk (pure (f (← get).files))

/-- Change the tree of files. A change that fails leaves the tree as it is. -/
def change (f : FileStore → Except Failure FileStore) : Session Unit := do
  let files ← read f
  modify (·.withFiles files)

/-- Report an event. -/
def emit (e : Log.Event) : Session Unit := modify (·.note e)

/-- Report events. -/
def emitAll (es : List Log.Event) : Session Unit := es.forM emit

/-- Run a session, and go on with its result or its failure. -/
def attempt {α : Type} (s : Session α) : Session (Except Failure α) :=
  ExceptT.mk (Except.ok <$> ExceptT.run s)

/-- Go on with a result, or fail. -/
def ofResult {α : Type} (x : Except Failure α) : Session α := ExceptT.mk (pure x)

end Session

end Modulize
