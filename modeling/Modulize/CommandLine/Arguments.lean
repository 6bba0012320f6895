import Modulize.Files.Path

/-!
# Arguments

A command line names a command and gives options: long ones behind two dashes, with the value
behind an equals sign or as the next argument, and short ones of one letter behind one dash, with
the value directly behind or as the next argument. `Command.read?` turns arguments into a command,
or into nothing when they are not understood. Of an option that is given twice the later one
counts.
-/

namespace Modulize.CommandLine

/-- The options of a command: those with a value and those without, by name. Short names stand
for the same options as the long ones behind them. -/
structure Options where
  valued : List (Text × Text)
  flags : List (Text × Text)

/-- A given option: its main name, and its value if it has one. -/
abbrev Given := List (Text × Option Text)

/-- The name and the value of a long option with an equals sign. -/
def splitLong (arg : Text) : Text × Option Text :=
  match Text.cut? ['='] arg with
  | some (name, value) => (name, some value)
  | none => (arg, none)

/-- Read the letters of a short option. A letter with a value takes the rest of the argument as its
value; nothing as the value asks for the next argument. -/
def readLetters? (o : Options) : Text → Option (Given × Option Text)
  | [] => some ([], none)
  | c :: r =>
    match lookup? ['-', c] o.valued with
    | some name => if r.isEmpty then some ([], some name) else some ([(name, some r)], none)
    | none => do
      let name ← lookup? ['-', c] o.flags
      let (given, wanting) ← readLetters? o r
      pure ((name, none) :: given, wanting)

/-- Read arguments; `wanting` is an option that still wants its value. Arguments that are no
options are not understood. -/
def readGiven? (o : Options) : Option Text → List Text → Option Given
  | none, [] => some []
  | some _, [] => none
  | some name, value :: rest => do pure ((name, some value) :: (← readGiven? o none rest))
  | none, arg :: rest =>
    if arg = "--" then if rest.isEmpty then some [] else none
    else
      let (long, value) := splitLong arg
      match Text.startsWith "--" arg, lookup? long o.valued, lookup? long o.flags, value with
      | true, some name, _, some v => do pure ((name, some v) :: (← readGiven? o none rest))
      | true, some name, _, none => readGiven? o (some name) rest
      | true, none, some name, none => do pure ((name, none) :: (← readGiven? o none rest))
      | true, none, _, _ => none
      | false, _, _, _ =>
        match arg with
        | '-' :: c :: letters => do
          let (given, wanting) ← readLetters? o (c :: letters)
          pure (given ++ (← readGiven? o wanting rest))
        | _ => none

/-- The value of an option, if it is given. -/
def Given.value? (g : Given) (name : Text) : Option Text :=
  (lookup? name g.reverse).bind id

/-- The path that is the value of an option, if it is given. -/
def Given.path? (g : Given) (name : Text) : Option Path := (g.value? name).map Path.parse

/-- The later of two flags is given. -/
def Given.isLast (g : Given) (name other : Text) : Option Bool :=
  (g.reverse.find? fun x => x.1 = name ∨ x.1 = other).map fun x => x.1 = name

/-- What all commands that read settings take: the settings file and what overrides it. -/
structure Overrides where
  settingsFile : Option Path := none
  inputDir : Option Path := none
  outputDir : Option Path := none
  namespacesFile : Option Path := none
  logLevel : Option Text := none
  deriving DecidableEq, Repr

/-- A command with its options. -/
inductive Command
  /-- Write a settings file to begin with. -/
  | init (folder : Path) (overrides : Overrides) (isForced : Bool)
  /-- List the files that the required namespaces need. -/
  | select (overrides : Overrides)
  /-- Convert the input folder into the output folder. -/
  | convert (overrides : Overrides) (isChecked : Bool)
  /-- Patch the declaration files of a folder. -/
  | patchDeclarations (folder : Option Path) (overrides : Overrides)
  deriving DecidableEq, Repr

namespace Command

/-- The options of paths and levels, each with its short name. -/
def commonOptions : List (Text × Text) :=
  [("--config", "--config"), ("-c", "--config"), ("--input", "--input"), ("-i", "--input"),
   ("--output", "--output"), ("-o", "--output"), ("--namespaces", "--namespaces"),
   ("-n", "--namespaces"), ("--dir", "--dir"), ("-d", "--dir"), ("--log-level", "--log-level"),
   ("-l", "--log-level")]

/-- The options with a value among some names. -/
def valuedOptions (names : List Text) : List (Text × Text) :=
  commonOptions.filter fun x => x.2 ∈ names

/-- A flag under its own name. -/
def flag (name : Text) : Text × Text := (name, name)

/-- The overrides among given options. -/
def overridesOf (g : Given) : Overrides where
  settingsFile := g.path? "--config"
  inputDir := g.path? "--input"
  outputDir := g.path? "--output"
  namespacesFile := g.path? "--namespaces"
  logLevel := g.value? "--log-level"

/-- Read the options of the first command. -/
def readInit? (args : List Text) : Option Command := do
  let valued := valuedOptions ["--dir", "--input", "--output", "--log-level"]
  let g ← readGiven? ⟨valued, [flag "--force"]⟩ none args
  let folder := (g.path? "--dir").getD (Path.parse ['.'])
  pure (.init folder (overridesOf g) ((lookup? "--force".toList g).isSome))

/-- Read the options of the command that lists files. -/
def readSelect? (args : List Text) : Option Command := do
  let valued := valuedOptions ["--config", "--input", "--namespaces", "--log-level"]
  pure (.select (overridesOf (← readGiven? ⟨valued, []⟩ none args)))

/-- Read the options of the command that converts. -/
def readConvert? (args : List Text) : Option Command := do
  let valued :=
    valuedOptions ["--config", "--input", "--output", "--namespaces", "--log-level"]
  let g ← readGiven? ⟨valued, [flag "--verify", flag "--no-verify"]⟩ none args
  pure (.convert (overridesOf g) ((g.isLast "--verify" "--no-verify").getD true))

/-- Read the options of the command that patches declaration files. -/
def readPatch? (args : List Text) : Option Command := do
  let valued := valuedOptions ["--dir", "--config", "--log-level"]
  let g ← readGiven? ⟨valued, []⟩ none args
  pure (.patchDeclarations (g.path? "--dir") (overridesOf g))

/-- Read a command from its name on. -/
def readNamed? : List Text → Option Command
  | [] => none
  | name :: args =>
    if name = "init" then readInit? args
    else if name = "select" then readSelect? args
    else if name = "convert" then readConvert? args
    else if name = "patch-declarations" then readPatch? args
    else none

/-- Read a command; two dashes may stand in front of its name. -/
def read? (args : List Text) : Option Command :=
  match args with
  | ['-', '-'] :: args => readNamed? args
  | args => readNamed? args

/-- The name of a command. -/
def name : Command → Text
  | init .. => "init"
  | select _ => "select"
  | convert .. => "convert"
  | patchDeclarations .. => "patch-declarations"

end Command

end Modulize.CommandLine
