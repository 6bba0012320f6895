import Modulize.Failure

/-!
# A tree of files

`FileStore` holds the files, folders and symbolic links of a tree by their full names. A path is
followed through links to the place that it leads to (`locate`); what is there is looked at with
`isFile` and `isFolder`, read with `contentAt`, and changed with `write`, `makeFolders`, `unlink`,
`clear` and `copy`. The contents of a file are kept as a text where they are one.
-/

namespace Modulize

/-- What a file holds: a text, or bytes that are no text. -/
inductive Content
  | text (t : Text)
  | binary (bytes : List UInt8)
  deriving DecidableEq, Repr

namespace Content

/-- The bytes that contents are written as. -/
def bytes : Content → List UInt8
  | text t => (Text.toString t).toUTF8.toList
  | binary bytes => bytes

/-- The contents that bytes write. -/
def ofBytes (bytes : List UInt8) : Content :=
  match String.fromUTF8? ⟨bytes.toArray⟩ with
  | some s => text s.toList
  | none => binary bytes

/-- Nothing. -/
def empty : Content := text []

/-- Contents one after another. -/
def append : Content → Content → Content
  | text a, text b => text (a ++ b)
  | a, b => ofBytes (a.bytes ++ b.bytes)

instance : Append Content := ⟨append⟩

end Content

/-- What a name in a folder stands for. -/
inductive Entry
  | file (c : Content)
  | folder
  | link (target : Path)
  deriving DecidableEq, Repr

/-- The entries of a tree by the names that lead to them from the root, and the folder where the
program stands. -/
structure FileStore where
  entries : List (List Text × Entry)
  here : List Text
  deriving DecidableEq, Repr

namespace FileStore

/-- The entry with a full name; the root is a folder. -/
def entry? (fs : FileStore) (names : List Text) : Option Entry :=
  if names = [] then some .folder else lookup? names fs.entries

/-- Put an entry under a full name. -/
def put (fs : FileStore) (names : List Text) (e : Entry) : FileStore :=
  { fs with entries := assign names e fs.entries }

/-- Remove the entry with a full name. -/
def remove (fs : FileStore) (names : List Text) : FileStore :=
  { fs with entries := fs.entries.filter (·.1 ≠ names) }

/-- The names from the root to a path. -/
def fullNames (fs : FileStore) (p : Path) : List Text :=
  if p.isAbsolute then p.names else fs.here ++ p.names

/-! ## Following paths -/

/-- How far the names of a path lead without going through a link. -/
inductive Walk
  | arrived (names : List Text)
  | blocked (problem : FileProblem)
  | jump (done rest : List Text)

/-- The name of the folder above. -/
def parentName : Text := ['.', '.']

/-- Follow names from the folder `done` up to the first link. A link that is the last name counts
as arrived unless `throughLast` is set. -/
def advance (fs : FileStore) (throughLast : Bool) : List Text → List Text → Walk
  | done, [] => .arrived done
  | done, n :: rest =>
    if n = parentName then advance fs throughLast done.dropLast rest
    else
      match fs.entry? (done ++ [n]) with
      | none => if rest = [] then .arrived (done ++ [n]) else .blocked .missing
      | some .folder => advance fs throughLast (done ++ [n]) rest
      | some (.file _) => if rest = [] then .arrived (done ++ [n]) else .blocked .notDirectory
      | some (.link target) =>
        if rest = [] ∧ !throughLast then .arrived (done ++ [n])
        else .jump (if target.isAbsolute then [] else done) (target.names ++ rest)

/-- The number of links that a path may go through. -/
def linkLimit : Nat := 40

/-- Follow names through at most `links` links. -/
def locateFrom (fs : FileStore) (throughLast : Bool) :
    Nat → List Text → List Text → Except FileProblem (List Text)
  | links, done, rest =>
    match fs.advance throughLast done rest with
    | .arrived names => .ok names
    | .blocked problem => .error problem
    | .jump done rest =>
      match links with
      | 0 => .error .linkLoop
      | links + 1 => locateFrom fs throughLast links done rest

/-- The full name of the place that a path leads to; nothing need be there. -/
def locate (fs : FileStore) (p : Path) : Except FileProblem (List Text) :=
  fs.locateFrom true linkLimit [] (fs.fullNames p)

/-- The same, where a link at the end of the path is the place itself. -/
def locateLink (fs : FileStore) (p : Path) : Except FileProblem (List Text) :=
  fs.locateFrom false linkLimit [] (fs.fullNames p)

/-- What a path leads to. -/
def find? (fs : FileStore) (p : Path) : Option Entry :=
  match fs.locate p with
  | .ok names => fs.entry? names
  | .error _ => none

/-- The path leads to something. -/
def isThere (fs : FileStore) (p : Path) : Bool := (fs.find? p).isSome

/-- The path leads to a file. -/
def isFile (fs : FileStore) (p : Path) : Bool :=
  match fs.find? p with
  | some (.file _) => true
  | _ => false

/-- The path leads to a folder. -/
def isFolder (fs : FileStore) (p : Path) : Bool :=
  match fs.find? p with
  | some .folder => true
  | _ => false

/-- The path is a link itself. -/
def isLink (fs : FileStore) (p : Path) : Bool :=
  match fs.locateLink p with
  | .ok names =>
    match fs.entry? names with
    | some (.link _) => true
    | _ => false
  | .error _ => false

/-- What is left to do while the links of a path are replaced: to go to a name, or to note where a
link has led. -/
inductive Errand
  | enter (name : Text)
  | note (link : Path)

/-- The names to which errands lead. -/
def Errand.names (errands : List Errand) : List Text :=
  errands.filterMap fun
    | enter n => some n
    | note _ => none

/-- The entry at a path without links on its way. -/
def entryAt? (fs : FileStore) (p : Path) : Option Entry :=
  fs.entry? (Path.normalize ⟨.root, fs.fullNames p⟩).names

/-- The folder above a path without links. From where the program stands, double dots lead up. -/
def above (p : Path) : Path :=
  if p.isAbsolute ∨ (p.names ≠ [] ∧ p.name ≠ parentName) then p.parent else p.child parentName

/-- Replace the links on the way from the folder `done`, and go on where nothing is. Where the links
that have been met lead to is kept in `seen`, with nothing for those that are still being followed;
when such a link is met again, it and all that comes behind it stay as they are. -/
def replaceLinks (fs : FileStore) : Nat → List (Path × Option Path) → Path → List Errand → Path
  | 0, _, done, errands => ⟨done.anchor, done.names ++ Errand.names errands⟩
  | _, _, done, [] => done
  | fuel + 1, seen, done, .note link :: rest =>
    replaceLinks fs fuel (assign link (some done) seen) done rest
  | fuel + 1, seen, done, .enter n :: rest =>
    if n = parentName then replaceLinks fs fuel seen (above done) rest
    else
      let place := done.child n
      match fs.entryAt? place, lookup? place seen with
      | some (.link _), some (some target) => replaceLinks fs fuel seen target rest
      | some (.link _), some none => ⟨place.anchor, place.names ++ Errand.names rest⟩
      | some (.link target), none =>
        replaceLinks fs fuel (assign place none seen)
          (if target.isAbsolute then Path.top else done)
          (target.names.map .enter ++ .note place :: rest)
      | _, _ => replaceLinks fs fuel seen place rest

/-- The number of errands that all links together give: each link is met in at most two ways, from
the root and from where the program stands. -/
def linkErrands (fs : FileStore) : Nat :=
  (fs.entries.map fun
    | (_, .link target) => 2 * (target.names.length + 2)
    | _ => 0).foldr (· + ·) 0

/-- The path from the root, without double dots, and without links unless they lead to each other
in a circle. -/
def realPath (fs : FileStore) (p : Path) : Path :=
  let start : Path := if p.isAbsolute then Path.top else ⟨.here, []⟩
  let fuel := p.names.length + fs.linkErrands + 1
  let found := fs.replaceLinks fuel [] start (p.names.map .enter)
  Path.normalize ⟨.root, fs.fullNames found⟩

/-- The path from the root, without links and double dots. Links may not lead to each other in a
circle. -/
def resolve (fs : FileStore) (p : Path) : Except Failure Path :=
  let found := fs.realPath p
  match fs.locate found with
  | .error .linkLoop => .error (.linkCircle found)
  | _ => .ok found

/-! ## Reading -/

/-- The contents of the file that a path leads to. -/
def contentAt (fs : FileStore) (p : Path) : Except Failure Content :=
  match fs.locate p with
  | .error problem => .error (.refused problem p)
  | .ok names =>
    match fs.entry? names with
    | some (.file c) => .ok c
    | some .folder => .error (.refused .isDirectory p)
    | _ => .error (.refused .missing p)

/-- The text of the file that a path leads to, with its line breaks as they are. -/
def rawTextAt (fs : FileStore) (p : Path) : Except Failure Text := do
  match ← fs.contentAt p with
  | .text t => pure t
  | .binary _ => .error .undecodable

/-- Write every line break as a single character. -/
def plainLineBreaks : Text → Text
  | [] => []
  | '\r' :: '\n' :: r => '\n' :: plainLineBreaks r
  | '\r' :: r => '\n' :: plainLineBreaks r
  | c :: r => c :: plainLineBreaks r

/-- The text of the file that a path leads to. -/
def textAt (fs : FileStore) (p : Path) : Except Failure Text :=
  (fs.rawTextAt p).map plainLineBreaks

/-- The mark that may stand at the beginning of a text to tell the order of its bytes. -/
def byteOrderMark : Char := Char.ofNat 0xfeff

/-- The text of a source file, without byte order marks. -/
def sourceAt (fs : FileStore) (p : Path) : Except Failure Text :=
  (fs.textAt p).map fun t => t.filter (· ≠ byteOrderMark)

/-- The names in the folder with a full name, in order. -/
def namesIn (fs : FileStore) (folder : List Text) : List Text :=
  sortTexts (fs.entries.filterMap fun (names, _) =>
    if names ≠ [] ∧ names.dropLast = folder then names.getLast? else none)

/-- The names in the folder that a path leads to, in order. -/
def list (fs : FileStore) (p : Path) : List Text :=
  match fs.locate p with
  | .ok names => fs.namesIn names
  | .error _ => []

/-- The paths of everything below the folder that a path leads to, in order. Links are not
followed. -/
def below (fs : FileStore) (p : Path) : List Path :=
  if fs.isFolder p then
    match fs.locate p with
    | .ok names =>
      Path.sort (fs.entries.filterMap fun (full, _) =>
        if names.isPrefixOf full ∧ full ≠ names then
          some ⟨p.anchor, p.names ++ full.drop names.length⟩
        else none)
    | .error _ => []
  else []

/-! ## Changing -/

/-- Write a text to the file that a path leads to; its folder has to be there. -/
def write (fs : FileStore) (p : Path) (c : Content) : Except Failure FileStore :=
  match fs.locate p with
  | .error problem => .error (.refused problem p)
  | .ok names =>
    match fs.entry? names with
    | some .folder => .error (.refused .isDirectory p)
    | _ => .ok (fs.put names (.file c))

/-- Write contents behind what the file that a path leads to holds; without a file they begin
one. -/
def append (fs : FileStore) (p : Path) (c : Content) : Except Failure FileStore :=
  match fs.contentAt p with
  | .ok old => fs.write p (old ++ c)
  | .error _ => fs.write p c

/-- Remove a file or a link. -/
def unlink (fs : FileStore) (p : Path) : Except Failure FileStore :=
  match fs.locateLink p with
  | .error problem => .error (.refused problem p)
  | .ok names =>
    match fs.entry? names with
    | none => .error (.refused .missing p)
    | some .folder => .error (.refused .isDirectory p)
    | some _ => .ok (fs.remove names)

/-- Make a folder in a folder that is there. A folder that is there already stays. -/
def makeFolder (fs : FileStore) (p : Path) : Except Failure FileStore :=
  match fs.locateLink p with
  | .error .missing => .error (.refused .missing p)
  | .error problem => if fs.isFolder p then .ok fs else .error (.refused problem p)
  | .ok names =>
    match fs.entry? names with
    | some _ => if fs.isFolder p then .ok fs else .error (.refused .exists p)
    | none => .ok (fs.put names .folder)

/-- Make the folder with an anchor and names, given from the innermost outwards, and the folders
above it where they are missing. -/
def makeFoldersTo (fs : FileStore) (anchor : Anchor) : List Text → Except Failure FileStore
  | [] => fs.makeFolder ⟨anchor, []⟩
  | name :: above =>
    let p : Path := ⟨anchor, (name :: above).reverse⟩
    match fs.makeFolder p with
    | .error (.refused .missing _) => do (← fs.makeFoldersTo anchor above).makeFolder p
    | made => made

/-- Make a folder and the folders above it, unless they are there. -/
def makeFolders (fs : FileStore) (p : Path) : Except Failure FileStore :=
  fs.makeFoldersTo p.anchor p.names.reverse

/-- Make a folder unless it is there, and remove all that is in it. -/
def clear (fs : FileStore) (p : Path) : Except Failure FileStore := do
  let fs ← fs.makeFolders p
  match fs.locate p with
  | .error problem => .error (.refused problem p)
  | .ok names =>
    pure { fs with
      entries := fs.entries.filter fun (full, _) => !(names.isPrefixOf full && full ≠ names) }

/-- Copy a file. A folder as the destination stands for a file of the same name in it. -/
def copy (fs : FileStore) (source destination : Path) : Except Failure FileStore := do
  let intoFolder := fs.isFolder destination
  let destination := if intoFolder then destination.child source.name else destination
  let same : Bool := match fs.locate source, fs.locate destination with
    | .ok a, .ok b => a == b && (fs.entry? a).isSome
    | _, _ => false
  if same then .error (.sameFile source destination intoFolder)
  else
    let c ← fs.contentAt source
    fs.write destination c

end FileStore

end Modulize
