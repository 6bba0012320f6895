import Modulize.Check.Command
import Modulize.Check.Shell
import Modulize.Session

/-!
# Checking a tree

A configured command is run in the output folder, and has to succeed (`Session.check`). Otherwise
the failure carries what it has written.
-/

namespace Modulize

/-- What a successful check command has written. -/
structure CheckResult where
  command : List Text
  code : Nat
  output : Text
  deriving DecidableEq, Repr

namespace Check

/-- Run a command in a folder, or tell why it cannot be run. -/
def runCommand (fs : FileStore) (cwd : Path) (name : Text) (args : List Text) :
    Except FileProblem (Reply × FileStore) :=
  match Utility.target fs cwd name with
  | .shell => .ok (Shell.run fs cwd args)
  | .utility u => .ok (u fs cwd args, fs)
  | .problem p => .error p

/-- The text of what a program has written. -/
def textOf : Content → Except Failure Text
  | .text t => .ok (FileStore.plainLineBreaks t)
  | .binary _ => .error .undecodable

/-- The text of what a program has written, its output first. -/
def Reply.written (r : Reply) : Except Failure Text := do
  pure ((← textOf r.out) ++ (← textOf r.err))

end Check

namespace Session

open Check

/-- The report that a check begins. -/
def checkStartEvent (command : List Text) : Log.Event :=
  Log.Stage.verify.event .info "verify-start" [("command", .texts command)]

/-- The report that a check has failed. -/
def checkFailedEvent (code : Nat) : Log.Event :=
  Log.Stage.verify.event .error "verify-failed" [("returncode", .number code)]

/-- The report that a check has been passed. -/
def checkPassedEvent : Log.Event := Log.Stage.verify.event .info "verify-passed" []

/-- Run the words of a command in a folder. The result is the exit code and what has been
written. -/
def runIn (folder : Path) (words : List Text) : Session (Nat × Text) := do
  let fs ← look id
  match words with
  | [] => throw .noCommand
  | name :: args =>
    if !fs.isThere folder then throw (.checkFolderMissing folder)
    else if !fs.isFolder folder then throw (.refused .notDirectory folder)
    else
      match runCommand fs folder name args with
      | .error .missing => throw (.commandMissing name)
      | .error problem => throw (.refused problem (Path.parse name))
      | .ok (reply, files) =>
        modify (·.withFiles files)
        pure (reply.code, ← ofResult reply.written)

/-- Run the check command on the output folder; its success is required. -/
def check (command : List Text) (output : Path) : Session CheckResult := do
  let words := fillCommand command output
  emit (checkStartEvent words)
  let (code, written) ← runIn output words
  if code = 0 then
    emit checkPassedEvent
    pure ⟨words, code, written⟩
  else
    emit (checkFailedEvent code)
    throw (.commandFailed code written)

end Session

end Modulize
