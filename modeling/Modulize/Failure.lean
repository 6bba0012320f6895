import Modulize.Text.Quoted
import Modulize.Files.Path

/-!
# What can go wrong

`Failure` lists the causes for which a conversion, a file operation or the reading of settings
stops, and `Failure.message` words them. Failures of the conversion proper (`isConversion`) are
reported by the commands; a `settings` failure carries one `Issue` for each field that is wrong.
-/

namespace Modulize

/-- What the scanner was looking for the end of. -/
inductive Extent
  | statement
  | bracketGroup
  deriving DecidableEq, Repr

/-- Why the tree of files refuses an operation. -/
inductive FileProblem
  | missing
  | exists
  | isDirectory
  | notDirectory
  | linkLoop
  | notPermitted
  | denied
  deriving DecidableEq, Repr

/-- A step on the way to a setting: the name of a field, or the number of a list member or of an
entry under a number. -/
inductive LocStep
  | field (name : Text)
  | index (n : Int)
  deriving DecidableEq, Repr

/-- What is wrong with a setting. -/
inductive IssueKind
  | missing
  | notText
  | notPath
  | notFlag
  | unreadableFlag
  | notNumber
  | unreadableNumber
  | fractionalNumber
  | infiniteNumber
  | hugeNumber
  | tooSmall
  | tooShort
  | notList
  | notTable
  | notSection
  | rejected (reason : Text)
  deriving DecidableEq, Repr

/-- A wrong setting and where it stands. -/
structure Issue where
  loc : List LocStep
  kind : IssueKind
  deriving DecidableEq, Repr

/-- Why something is no list of pairs from which a table could be made. Kinds of values are given by
their words. -/
inductive PairsProblem
  /-- It has no members. -/
  | noMembers (kind : Text)
  /-- A member has no parts. -/
  | notPair (index : Nat)
  /-- A member has another number of parts than two. -/
  | notTwo (index length : Nat)
  /-- The first part of a member cannot be a key. -/
  | notKey (kind : Text)
  deriving DecidableEq, Repr

/-- The causes for which an operation stops. -/
inductive Failure
  /-- Two files provide one namespace. -/
  | duplicateProvide (name : Text) (first second : Path)
  /-- Required namespaces without a provider. -/
  | unresolved (names : List Text)
  /-- An entry of an export list that is neither a name nor a pair of names. -/
  | exportEntry (entry : Text)
  /-- A file whose namespaces have nothing to export. -/
  | noExports (names : List Text)
  /-- A require that takes several members apart. -/
  | severalMembers (statement : Text)
  /-- The text ends before the statement or group that begins at `start` does. -/
  | overrun (extent : Extent) (start : Nat) (excerpt : Text)
  /-- A module that exports nothing. -/
  | missingExports (name : Text)
  /-- No alias within the allowed number of attempts. -/
  | noAlias (name : Text) (attempts : Nat)
  /-- A strict patch whose text is not in a file it is meant for. -/
  | patchTextMissing (search path : Text)
  /-- A strict patch that is meant for no file of the tree. -/
  | patchFileMissing (file : Text)
  /-- A function definition without parameters or body. -/
  | malformedFunction (name : Text)
  /-- A folder that the settings do not name. -/
  | notConfigured (setting : Text)
  /-- The input folder is not there. -/
  | inputMissing (source : Path)
  /-- The output folder is the input folder or lies below it. -/
  | outputInsideInput (output source : Path)
  /-- The input folder lies below the output folder. -/
  | inputInsideOutput (source output : Path)
  /-- The list of required namespaces is not there. -/
  | namespacesFileMissing (file : Path)
  /-- The folder of declaration files is not there. -/
  | declarationsMissing (folder : Path)
  /-- The check command cannot be found. -/
  | commandMissing (command : Text)
  /-- The folder in which the check command is to run is not there. -/
  | checkFolderMissing (folder : Path)
  /-- The check command ended with another code than zero. -/
  | commandFailed (code : Nat) (output : Text)
  /-- An export name without visible characters. -/
  | blankExportName
  /-- A file that does not lie below the folder it is to be copied from. -/
  | notBelow (file root : Path)
  /-- A log level that is not known. -/
  | unknownLevel (level : Text)
  /-- The folder to be walked is not there. -/
  | walkRootMissing (root : Path)
  /-- The place to be walked is not a folder. -/
  | walkRootNotDirectory (root : Path)
  /-- The settings file named on the command line is not there. -/
  | settingsFileMissing (file : Path)
  /-- A file that is to be copied onto itself. A destination that was found by going into a folder
  is given as a text. -/
  | sameFile (source destination : Path) (isText : Bool)
  /-- Links that lead to each other in a circle. -/
  | linkCircle (path : Path)
  /-- A check command without any words. -/
  | noCommand
  /-- An ending of file names that cannot be looked for. -/
  | badEnding
  /-- Groups of files that are neither a table nor a list of pairs. -/
  | badGroups (problem : PairsProblem)
  /-- A replacement that names a group which the pattern does not have. -/
  | unknownGroup (name : Text)
  /-- A line of an ignore file that names nothing, or ends within an escape. -/
  | badIgnoreLine (line : Text)
  /-- The tree of files refuses an operation. -/
  | refused (problem : FileProblem) (path : Path)
  /-- A file that is not text. -/
  | undecodable
  /-- A settings file that is not well-formed. -/
  | malformedSettings
  /-- Settings with wrong values. -/
  | settings (issues : List Issue)
  /-- A pattern or a replacement that is not well-formed. -/
  | badPattern
  deriving DecidableEq, Repr

namespace Failure

/-- Required namespaces without a provider, each once and in order. -/
def ofUnresolved (names : List Text) : Failure := unresolved (sortTexts (dedup names))

/-- Failures of the conversion proper, which the commands report. -/
def isConversion : Failure → Bool
  | blankExportName | notBelow .. | unknownLevel _ | walkRootMissing _ | walkRootNotDirectory _
  | settingsFileMissing _ | sameFile .. | linkCircle _ | noCommand | badEnding | badGroups _
  | unknownGroup _ | badIgnoreLine _ | refused .. | undecodable | malformedSettings | settings _
  | badPattern => false
  | _ => true

/-- Failures of loading settings that the commands do not report: groups of files that are of the
wrong kind. -/
def isWrongKind : Failure → Bool
  | badGroups (.notTwo ..) => false
  | badGroups _ => true
  | _ => false

/-- Failures that leave a file of unclear exports as it is. -/
def isAmbiguousExport : Failure → Bool
  | exportEntry _ | noExports _ => true
  | _ => false

/-- The words for an extent. -/
def extentText : Extent → Text
  | .statement => "statement"
  | .bracketGroup => "bracket group"

/-- The number and the words for what the tree of files refuses. -/
def problemText : FileProblem → Text
  | .missing => "[Errno 2] No such file or directory"
  | .exists => "[Errno 17] File exists"
  | .isDirectory => "[Errno 21] Is a directory"
  | .notDirectory => "[Errno 20] Not a directory"
  | .linkLoop => "[Errno 40] Too many levels of symbolic links"
  | .notPermitted => "[Errno 1] Operation not permitted"
  | .denied => "[Errno 13] Permission denied"

/-- The words for what is wrong with a list of pairs. -/
def pairsText : PairsProblem → Text
  | .noMembers kind => kind.quoted ++ " object is not iterable"
  | .notPair i =>
    "cannot convert dictionary update sequence element #" ++ Text.ofNat i ++ " to a sequence"
  | .notTwo i n =>
    "dictionary update sequence element #" ++ Text.ofNat i ++ " has length " ++ Text.ofNat n ++
      "; 2 is required"
  | .notKey kind => "unhashable type: " ++ kind.quoted

/-- A path as one word of a message. -/
def pathWord (p : Path) : Text := "PosixPath(" ++ p.toText.quoted ++ ")"

/-- The message for a failure. -/
def message : Failure → Text
  | duplicateProvide name first second =>
    "Namespace " ++ name.quoted ++ " is provided by more than one file: " ++ first.toText ++
      ", " ++ second.toText
  | unresolved names =>
    "Required namespaces could not be found: " ++ Text.joinWith ", " names
  | exportEntry entry => "Unsupported entry in module export list: " ++ entry.quoted
  | noExports names => "Could not infer exports for " ++ Text.joinWith ", " names
  | severalMembers statement =>
    "Found multiple member imports in " ++ statement.quoted ++ ", which is unsupported."
  | overrun extent start excerpt =>
    "Did not find the end of the " ++ extentText extent ++ " starting at " ++ Text.ofNat start ++
      ": " ++ excerpt.quoted
  | missingExports name =>
    "Namespace " ++ name.quoted ++ " is declared as a module but no exports were found"
  | noAlias name attempts =>
    "No alias found for " ++ name.quoted ++ " after " ++ Text.ofNat attempts ++ " attempts"
  | patchTextMissing search path => search.quoted ++ " not contained in " ++ path
  | patchFileMissing file => "No file matches " ++ file.quoted
  | malformedFunction name => "Malformed function definition for " ++ name.quoted
  | notConfigured setting =>
    setting ++ " is not configured; set it in the config file or pass it on the command line"
  | inputMissing source => "Input directory " ++ source.toText ++ " does not exist"
  | outputInsideInput output source =>
    "Output directory " ++ output.toText ++ " must not be inside the input directory " ++
      source.toText
  | inputInsideOutput source output =>
    "Input directory " ++ source.toText ++ " must not be inside the output directory " ++
      output.toText
  | namespacesFileMissing file =>
    "Required namespaces file " ++ file.toText ++ " does not exist"
  | declarationsMissing folder =>
    "Declaration directory " ++ folder.toText ++ " does not exist"
  | commandMissing command =>
    "Verification command could not run: " ++ problemText .missing ++ ": " ++ command.quoted
  | checkFolderMissing folder =>
    "Verification command could not run: " ++ problemText .missing ++ ": " ++ pathWord folder
  | commandFailed code _ => "Verification failed with exit code " ++ Text.ofNat code
  | blankExportName => "Export names must be non-empty."
  | notBelow file root =>
    file.toText.quoted ++ " is not in the subpath of " ++ root.toText.quoted ++
      " OR one path is relative and the other is absolute."
  | unknownLevel level => "Unsupported log level: " ++ level.quoted
  | walkRootMissing root => "Traversal root not found: " ++ root.toText
  | walkRootNotDirectory root => "Traversal root must be a directory: " ++ root.toText
  | settingsFileMissing file => "Config file not found: " ++ file.toText
  | sameFile source destination isText =>
    pathWord source ++ " and " ++
      (if isText then destination.toText.quoted else pathWord destination) ++ " are the same file"
  | linkCircle path => "Symlink loop from " ++ path.toText.quoted
  | noCommand => "list index out of range"
  | badEnding => "Invalid pattern: '**' can only be an entire path component"
  | badGroups problem => pairsText problem
  | unknownGroup name => "unknown group name " ++ name.quoted
  | badIgnoreLine line => "Invalid git pattern: " ++ line.quoted
  | refused problem path => problemText problem ++ ": " ++ path.toText.quoted
  | undecodable => "the file is not valid text"
  | malformedSettings => "the settings file is not well-formed"
  | settings issues => Text.ofNat issues.length ++ " invalid setting(s)"
  | badPattern => "the pattern is not well-formed"

end Failure

end Modulize
