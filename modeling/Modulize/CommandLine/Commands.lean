import Modulize.CommandLine.Arguments
import Modulize.Project.Conversion
import Modulize.Settings.Document
import Modulize.Settings.File

/-!
# Commands

Each command loads the settings in their layers, opens the log, and runs a part of the conversion
(`Command.run`); `execute` does so for the arguments of a command line. What it prints and the code
with which it ends make an `Outcome`: failures that the command expects are put into words, any
other failure is handed on as it is.
-/

namespace Modulize.CommandLine

open Session

/-! ## Outcomes -/

/-- How a command has ended. -/
structure Outcome where
  output : Text
  exitCode : Nat
  /-- A failure that the command has not put into words. -/
  failure : Option Failure
  deriving DecidableEq, Repr

namespace Outcome

/-- A text as a line. -/
def line (t : Text) : Text := t ++ ['\n']

/-- Success, with the lines printed. -/
def success (lines : List Text) : Outcome := ⟨lines.flatMap line, 0, none⟩

/-- An end with a line that tells why. -/
def complaint (t : Text) : Outcome := ⟨line t, 1, none⟩

/-- An end by a failure, put into words behind what has failed. -/
def failed (what : Text) (f : Failure) : Outcome := complaint (what ++ ": " ++ f.message)

/-- An end by a failure that has not been expected. -/
def stopped (f : Failure) : Outcome := ⟨[], 1, some f⟩

/-- The arguments have not been understood. -/
def misused : Outcome := ⟨[], 2, none⟩

end Outcome

/-! ## Settings -/

/-- An entry for a value that is given. -/
def textEntry (key : Text) (t : Option Text) : Table := t.toList.map fun t => (key, .text t)

/-- An entry for a path that is given. -/
def pathEntry (key : Text) (p : Option Path) : Table := textEntry key (p.map Path.toText)

/-- The layer of settings that the command line gives. An empty log level says nothing. -/
def Overrides.table (o : Overrides) : Table :=
  pathEntry "input_dir" o.inputDir ++ pathEntry "output_dir" o.outputDir ++
    textEntry "log_level" (o.logLevel.filter (· ≠ [])) ++
    (pathEntry SettingsFile.namespacesKey o.namespacesFile).map fun e =>
      (SettingsFile.selectionKey, .table [e])

/-- The layer of settings in the file that is named, or else in the one in the current folder when
there is one. -/
def fileTable (named : Option Path) : Session Table := do
  match named with
  | some p =>
    if ← look (·.isFile p) then read (SettingsFile.read p) else throw (.settingsFileMissing p)
  | none =>
    let p := (← look fun fs => (⟨.root, fs.here⟩ : Path)).child SettingsFile.fileName
    if ← look (·.isFile p) then read (SettingsFile.read p) else pure []

/-- The settings of a command. -/
def loadSettings (o : Overrides) : Session Settings := do
  let file ← fileTable o.settingsFile
  ofResult (Settings.load Settings.defaults file o.table)

/-- The name of the log file. -/
def logName : Text := "es6port.log"

/-- Write a log file in a folder from now on, or none. -/
def openLog (folder : Option Path) (level : Log.Level) : Session Unit := do
  match folder with
  | none => modify fun w => { w with logFile := none }
  | some p =>
    let place ← read (·.resolve p)
    change (·.makeFolders place)
    modify fun w => { w with logFile := some ⟨place.child logName, level, false⟩ }

/-- The report that a command begins. -/
def startEvent (command : Text) (s : Settings) : Log.Event :=
  let input : Text := match s.inputDir with
    | some p => p.toText
    | none => "None"
  ⟨.debug, "command-start", [("command", .text command), ("input", .text input)]⟩

/-- Load the settings, open the log, and go on. -/
def withSettings (command : Text) (o : Overrides) (go : Settings → Session Outcome) :
    Session Outcome := do
  match ← attempt (loadSettings o) with
  | .error f => if f.isWrongKind then throw f else pure (.failed "Failed to load configuration" f)
  | .ok s =>
    match Log.Level.read s.logLevel with
    | .error f => pure (.failed "Invalid logging configuration" f)
    | .ok level =>
      openLog s.logDir level
      emit (startEvent command s)
      go s

/-- Go on with the result of a session. Failures of the conversion are put into words. -/
def reporting {α : Type} (what : Text) (s : Session α) (go : α → Session Outcome) :
    Session Outcome := do
  match ← attempt s with
  | .error f => if f.isConversion then pure (.failed what f) else throw f
  | .ok a => go a

/-! ## The commands -/

/-- A path below a folder by its names there, and any other path as it is. -/
def shown (folder p : Path) : Text := ((p.relativeTo? folder).getD p).toText

/-- What a new settings file has been written as. -/
structure NewSettings where
  settings : Settings
  file : Path
  defaultsFile : Path
  isWritten : Bool
  deriving DecidableEq, Repr

/-- Write a settings file and the default settings into a folder. Files that are there stay,
unless they are to be replaced. -/
def writeSettings (folder : Path) (o : Overrides) (isForced : Bool) : Session NewSettings := do
  change (·.makeFolders folder)
  let s ← ofResult (Settings.load Settings.defaults [] o.table)
  let file := folder.child SettingsFile.fileName
  let defaultsFile := folder.child SettingsFile.defaultsName
  let isWritten := isForced || !(← look (·.isThere file))
  if isWritten then change (·.write file (.text (s.write true)))
  if isForced || !(← look (·.isThere defaultsFile)) then
    change (·.write defaultsFile (.text Settings.defaultText))
  pure ⟨s, file, defaultsFile, isWritten⟩

/-- The report that a settings file is ready. -/
def readyEvent (n : NewSettings) : Log.Event :=
  ⟨.info, "init-complete",
    [("command", .text "init"), ("config", .text n.file.toText), ("written", .flag n.isWritten)]⟩

/-- What is printed about a new settings file. -/
def readyLines (n : NewSettings) : List Text :=
  let note : List Text :=
    if n.isWritten then [] else ["  note: existing config left untouched (use --force)"]
  let places : List Text :=
    ["Configuration ready", "  config: " ++ n.file.toText,
     "  defaults: " ++ n.defaultsFile.toText,
     "  packaged resource: " ++ SettingsFile.defaultsName]
  places ++ note

/-- Write a settings file to begin with. -/
def runInit (folder : Path) (o : Overrides) (isForced : Bool) : Session Outcome := do
  let written : Session (NewSettings × Log.Level) := do
    let n ← writeSettings folder o isForced
    pure (n, ← ofResult (Log.Level.read n.settings.logLevel))
  match ← attempt written with
  | .error f => pure (.failed "Failed to write configuration" f)
  | .ok (n, level) =>
    openLog none level
    emit (readyEvent n)
    pure (.success (readyLines n))

/-- What is printed when no list of required namespaces is configured. -/
def noNamespacesText : Text :=
  "No required namespaces file configured; pass --namespaces or set " ++
    "selection.required_namespaces_file."

/-- List the files that the required namespaces need. -/
def runSelect (s : Settings) : Session Outcome :=
  reporting "Selection failed" (Conversion.select s) fun selected => do
    match selected with
    | none => pure (.complaint noNamespacesText)
    | some files =>
      let folder ← look fun fs => s.inputDir.map fs.realPath
      pure (.success (files.map fun p =>
        match folder with
        | some d => shown d p
        | none => p.toText))

/-- What is printed about a conversion. -/
def reportLines (r : Conversion.Report) : List Text :=
  let selected : List Text := match r.selected with
    | some files => ["  selected files: " ++ Text.ofNat files.length]
    | none => []
  let skipped : List Text := match r.skipped with
    | [] => []
    | files => ("  files skipped: " ++ Text.ofNat files.length) ::
      files.map fun (p, reason) => "    - " ++ shown r.output p ++ ": " ++ reason
  let checked : List Text := if r.check.isSome then ["  verification: passed"] else []
  let head : List Text := ["Conversion complete", "  output: " ++ r.output.toText]
  let counts : List Text :=
    ["  merged cycle groups: " ++ Text.ofNat r.merged.length,
     "  files with converted classes: " ++ Text.ofNat r.classes.length,
     "  files rewritten: " ++ Text.ofNat r.recast.length]
  head ++ selected ++ counts ++ skipped ++ checked

/-- What a failed check command has written, as printed in front of the failure. -/
def checkOutput : Failure → Text
  | .commandFailed _ output => if output.isEmpty then [] else Outcome.line output
  | _ => []

/-- Convert the input folder into the output folder. -/
def runConvert (s : Settings) (isChecked : Bool) : Session Outcome := do
  match ← attempt (Conversion.run s isChecked) with
  | .error f =>
    if f.isConversion then
      let o := Outcome.failed "Conversion failed" f
      pure { o with output := checkOutput f ++ o.output }
    else throw f
  | .ok report => pure (.success (reportLines report))

/-- Patch the declaration files of a folder. -/
def runPatch (folder : Option Path) (s : Settings) : Session Outcome :=
  reporting "Patching declarations failed" (Conversion.patchDeclarations s folder) fun changed =>
    pure (.success ["Patched " ++ Text.ofNat changed.length ++ " declaration file(s)"])

/-- Run a command. -/
def Command.run (c : Command) : Session Outcome :=
  match c with
  | .init folder o isForced => runInit folder o isForced
  | .select o => withSettings c.name o runSelect
  | .convert o isChecked => withSettings c.name o fun s => runConvert s isChecked
  | .patchDeclarations folder o => withSettings c.name o (runPatch folder)

/-- Run the command of a command line. -/
def execute (args : List Text) (w : World) : Outcome × World :=
  match Command.read? args with
  | none => (.misused, w)
  | some c =>
    match c.run.runOn w with
    | (.ok o, w) => (o, w)
    | (.error f, w) => (.stopped f, w)

end Modulize.CommandLine

/-! ## Places

Everything outside the places of a command plays no part in its run, so the tree of files need not
be known there. -/

namespace Modulize.CommandLine.Command

/-- What overrides the settings file. -/
def overrides : Command → Overrides
  | init _ o _ | select o | convert o _ | patchDeclarations _ o => o

/-- The settings file, from the folder where the program stands. -/
def settingsFile (c : Command) : Path :=
  c.overrides.settingsFile.getD ⟨.here, [SettingsFile.fileName]⟩

/-- The folder that the command line names for a command to work in. -/
def folder? : Command → Option Path
  | init folder .. => some folder
  | patchDeclarations folder _ => folder
  | select _ | convert .. => none

/-- The places of a command besides the settings file, under given settings. -/
def places (c : Command) (s : Settings) : List Path :=
  [c.folder?, s.inputDir, s.outputDir, s.logDir, s.selection.namespacesFile].filterMap id

end Modulize.CommandLine.Command
