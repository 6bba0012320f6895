import Modulize.Check.Word
import Modulize.Files.Store

/-!
# Utilities

The small programs that a check command can be made of: each answers its arguments with an exit
code and with what it writes to its two outputs, and looks at the tree of files only
(`Utility.find?`).
-/

namespace Modulize.Check

/-- What a program answers: its exit code, and what it has written to its output and to its error
output. -/
structure Reply where
  code : Nat
  out : Content
  err : Content
  deriving DecidableEq, Repr

namespace Reply

/-- Success with an output. -/
def success (out : Text) : Reply := ⟨0, .text out, .empty⟩

/-- A code without any output. -/
def quiet (code : Nat) : Reply := ⟨code, .empty, .empty⟩

/-- A code with a complaint on the error output. -/
def complaint (code : Nat) (t : Text) : Reply := ⟨code, .empty, .text t⟩

/-- Both outputs one after another; the later code counts, unless it is zero. -/
def append (a b : Reply) : Reply := ⟨max a.code b.code, a.out ++ b.out, a.err ++ b.err⟩

/-- The replies to several arguments together. -/
def concat (rs : List Reply) : Reply := rs.foldl append (quiet 0)

end Reply

/-- A program: from the tree of files, the folder where it runs, and its arguments. -/
abbrev Utility := FileStore → Path → List Text → Reply

namespace Utility

/-- Split arguments into options and operands. -/
def operands (args : List Text) : List Text :=
  args.filter fun a => !(Text.startsWith ['-'] a && a ≠ ['-'])

/-- An option of one letter is given. -/
def hasOption (letter : Char) (args : List Text) : Bool :=
  args.any fun a => Text.startsWith ['-'] a && !Text.startsWith "--" a && letter ∈ a

/-- The words for what the tree of files refuses, without its number. -/
def problemWords (p : FileProblem) : Text :=
  ((Failure.problemText p).dropWhile (· ≠ ']')).drop 2

/-- What a word of a command leads to. The empty word leads nowhere, and a word that ends with a
slash leads to folders only. -/
def entryAt (fs : FileStore) (cwd : Path) (word : Text) : Except FileProblem Entry := do
  if word.isEmpty then throw .missing
  match fs.entry? (← fs.locate (cwd.join (Path.parse word))) with
  | none => throw .missing
  | some (.file c) =>
    if (Text.splitOn '/' word).getLast?.any fun last => last = [] ∨ last = ['.'] then
      throw .notDirectory
    else pure (.file c)
  | some e => pure e

/-- Write a file. -/
def catFile (fs : FileStore) (cwd : Path) (word : Text) : Reply :=
  let refusal (p : FileProblem) : Reply :=
    .complaint 1 ("cat: " ++ Word.shown word ++ ": " ++ problemWords p ++ "\n")
  match entryAt fs cwd word with
  | .ok (.file c) => ⟨0, c, .empty⟩
  | .ok .folder => refusal .isDirectory
  | .ok (.link _) => refusal .missing
  | .error p => refusal p

/-- Write files one after another. -/
def cat : Utility := fun fs cwd args => Reply.concat ((operands args).map (catFile fs cwd))

/-- The names of a folder, one to a line, without those that begin with a dot. -/
def listing (fs : FileStore) (isAll : Bool) (p : Path) : Text :=
  let names := fs.list p
  let shown := if isAll then ['.'] :: ['.', '.'] :: names else names.filter (·.head? ≠ some '.')
  shown.flatMap (· ++ ['\n'])

/-- An operand of a listing is a link that leads nowhere, which is listed by its name. -/
def isLooseLink (fs : FileStore) (cwd : Path) (word : Text) : Bool :=
  !word.isEmpty && fs.isLink (cwd.join (Path.parse word))

/-- The complaint that an operand cannot be listed. -/
def unlisted (p : FileProblem) (word : Text) : Text :=
  "ls: cannot access " ++ Word.quoted word ++ ": " ++ problemWords p ++ "\n"

/-- List folders. Files come first, by their names; several folders are listed under theirs. -/
def ls : Utility := fun fs cwd args =>
  let words := sortTexts (operands args)
  let isAll := hasOption 'a' args
  let shown (word : Text) : Text := listing fs isAll (cwd.join (Path.parse word))
  let complaints := words.filterMap fun word =>
    match entryAt fs cwd word with
    | .error p => if isLooseLink fs cwd word then none else some (unlisted p word)
    | .ok _ => none
  let folders := words.filter fun word => (entryAt fs cwd word).toOption = some .folder
  let files := words.filter fun word =>
    match entryAt fs cwd word with
    | .ok .folder => false
    | .ok _ => true
    | .error _ => isLooseLink fs cwd word
  let blocks : List Text :=
    (if files.isEmpty then [] else [files.flatMap (· ++ ['\n'])]) ++
    folders.map fun word => if words.length = 1 then shown word else word ++ ":\n" ++ shown word
  if words.isEmpty then .success (listing fs isAll cwd)
  else ⟨if complaints.isEmpty then 0 else 2, .text (Text.joinWith ['\n'] blocks),
    .text complaints.flatten⟩

/-- Write the arguments. -/
def echo : Utility := fun _ _ args =>
  match args with
  | ['-', 'n'] :: rest => .success (Text.joinWith [' '] rest)
  | _ => .success (Text.joinWith [' '] args ++ ['\n'])

/-- Whether a condition on files or texts holds. -/
def holds (fs : FileStore) (cwd : Path) : List Text → Bool
  | [['!'], a, b] => !holds fs cwd [a, b]
  | [['-', 'f'], a] => fs.isFile (cwd.join (Path.parse a))
  | [['-', 'd'], a] => fs.isFolder (cwd.join (Path.parse a))
  | [['-', 'e'], a] => fs.isThere (cwd.join (Path.parse a))
  | [['-', 'n'], a] => !a.isEmpty
  | [['-', 'z'], a] => a.isEmpty
  | [a, ['='], b] => a = b
  | [a, ['!', '='], b] => a ≠ b
  | [a] => !a.isEmpty
  | _ => false

/-- Test a condition. -/
def test : Utility := fun fs cwd args => .quiet (if holds fs cwd args then 0 else 1)

/-- Test a condition that is written in brackets. -/
def bracket : Utility := fun fs cwd args => test fs cwd args.dropLast

/-- Write the folder where the program runs. -/
def pwd : Utility := fun fs cwd _ => .success ((fs.realPath cwd).toText ++ ['\n'])

/-- The programs by their names. -/
def table : List (Text × Utility) :=
  [("true", fun _ _ _ => .quiet 0), ("false", fun _ _ _ => .quiet 1), ("cat", cat), ("ls", ls),
   ("echo", echo), ("test", test), ("[", bracket), ("pwd", pwd)]

/-- The folders that hold the programs. -/
def folders : List Text := ["/bin/", "/usr/bin/"]

/-- The name of a program without the folder that holds it. -/
def bareName (name : Text) : Text :=
  match folders.find? fun f => Text.startsWith f name with
  | some f => name.drop f.length
  | none => name

/-- What a command leads to: a program, or the reason why nothing can be run. -/
inductive Target
  | shell
  | utility (run : Utility)
  | problem (p : FileProblem)

/-- The name of the program that runs command lines. -/
def shellName : Text := "sh"

/-- What the first word of a command leads to. A word with a slash is a path; what is there cannot
be run, apart from the programs in their folders. Any other word is looked for among the programs;
one that says nothing, or a folder itself, leads to a folder that holds programs. -/
def target (fs : FileStore) (cwd : Path) (name : Text) : Target :=
  let bare := bareName name
  if [[], ['.'], ['.', '.']].contains bare || folders.contains (name ++ ['/']) then
    .problem .denied
  else if bare = shellName then .shell
  else
    match lookup? bare table with
    | some u => .utility u
    | none =>
      if '/' ∈ name then
        match entryAt fs cwd name with
        | .ok _ => .problem .denied
        | .error p => .problem p
      else .problem .missing

end Utility

end Modulize.Check
