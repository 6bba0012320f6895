import Modulize.CommandLine.Commands

/-!
# The program

Reads the places of a command into a tree of files, runs the command on it, and writes back what
has changed.
-/

namespace Modulize

/-- The system's name for a place. -/
def placeName (names : List Text) : String :=
  Text.toString (Path.toText ⟨.root, names⟩)

/-- The contents of a file. -/
def readContent (names : List Text) : IO Content := do
  return .ofBytes (← IO.FS.readBinFile (placeName names)).toList

/-- The names of a system path. -/
def namesOf (name : String) : List Text := (Path.parse name.toList).names

/-- The entry at a place, if there is one. -/
def readEntry (names : List Text) : IO (Option Entry) := do
  try
    let folder ← IO.FS.realPath (placeName names.dropLast)
    let place := folder / Text.toString (names.getLast?.getD [])
    match (← place.symlinkMetadata).type with
    | .dir => return some .folder
    | .file => return some (.file (← readContent names))
    | .symlink => return some (.link ⟨.root, namesOf (← IO.FS.realPath place).toString⟩)
    | .other => return none
  catch _ => return none

/-- Enter the folders that lead to a place. -/
def readWayTo (fs : FileStore) (names : List Text) : IO FileStore := do
  let mut tree := fs
  for n in List.range names.length do
    if let some e ← readEntry (names.take n) then
      tree := tree.put (names.take n) e
  return tree

/-- Enter what is at a place, without what is below it. -/
def readHere (fs : FileStore) (names : List Text) : IO FileStore := do
  match ← readEntry names with
  | none => return fs
  | some e => return fs.put names e

/-- Enter a place and all that is below it. Links are entered with what they lead to. -/
partial def readBelow (fs : FileStore) (names : List Text) : IO FileStore := do
  let mut tree ← readHere fs names
  match tree.entry? names with
  | some .folder =>
    let folder ← IO.FS.realPath (placeName names)
    for entry in ← folder.readDir do
      tree ← readBelow tree (names ++ [entry.fileName.toList])
    return tree
  | some (.link target) => readHere (← readWayTo tree target.names) target.names
  | _ => return tree

/-- Enter a place with all that is below it and the folders that lead there. -/
def readPlace (fs : FileStore) (p : Path) : IO FileStore := do
  let names := (Path.normalize ⟨.root, fs.fullNames p⟩).names
  let tree ← readBelow (← readWayTo fs names) names
  try
    let target := namesOf (← IO.FS.realPath (placeName names)).toString
    if target = names then return tree
    else readBelow (← readWayTo tree target) target
  catch _ => return tree

/-- Write the differences between two trees. -/
def writeBack (old new : FileStore) : IO Unit := do
  for (names, e) in old.entries.reverse do
    if (new.entry? names).isNone then
      match e with
      | .folder => IO.FS.removeDirAll (placeName names)
      | _ => if (← readEntry names).isSome then IO.FS.removeFile (placeName names)
  for (names, e) in new.entries do
    if old.entry? names ≠ some e then
      match e with
      | .folder => IO.FS.createDirAll (placeName names)
      | .file c => IO.FS.writeBinFile (placeName names) ⟨c.bytes.toArray⟩
      | .link _ => pure ()

/-- The tree that a command works on. -/
def readTreeFor (c : CommandLine.Command) : IO FileStore := do
  let here := namesOf (← IO.currentDir).toString
  let fs ← readPlace ⟨[], here⟩ c.settingsFile
  let settings := (CommandLine.loadSettings c.overrides).runOn (World.start fs)
  let places := match settings.1 with
    | .ok s => c.places s
    | .error _ => c.folder?.toList
  places.foldlM readPlace fs

/-- Print what a command has left to say, and the warnings on the way. -/
def printOutcome (o : CommandLine.Outcome) (events : List Log.Event) : IO Unit := do
  for e in events do
    if Log.Level.warning.number ≤ e.level.number then IO.eprint (Text.toString e.line)
  IO.print (Text.toString o.output)
  if let some f := o.failure then IO.eprintln (Text.toString f.message)

/-- Run the command that the arguments name. -/
def runProgram (args : List String) : IO UInt32 := do
  let words := args.map String.toList
  match CommandLine.Command.read? words with
  | none => return 2
  | some c =>
    let fs ← readTreeFor c
    let (outcome, w) := CommandLine.execute words (World.start fs)
    writeBack fs w.files
    printOutcome outcome w.events
    return outcome.exitCode.toUInt32

end Modulize

/-- The program. -/
def main (args : List String) : IO UInt32 := Modulize.runProgram args
