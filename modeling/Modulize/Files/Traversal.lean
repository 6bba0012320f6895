import Modulize.Files.Ignore
import Modulize.Files.Store

/-!
# Walking a tree

A walk finds the source files below a folder, depth first and in the order of names. What it looks
at is a `FolderTree`, a view of the part of the store below the folder (`FileStore.view`); the walk
itself is a recursion on that tree (`FolderTree.walk`). It passes over links unless it follows
them, over what the exclude rules name, and, where ignore files count, over what the ignore file of
the folder or of one above it names. All rules speak of the path from the root of the walk.
-/

namespace Modulize

/-- What there is to see at a place in a tree of files. -/
inductive FolderTree
  /-- Neither a file nor a folder. -/
  | nothing
  /-- A regular file. -/
  | file
  /-- A link and what it leads to. -/
  | link (target : FolderTree)
  /-- A folder: the text of its ignore file, when it has one that is to be read, and its entries
  in the order of their names. -/
  | folder (ignoreText : Except Failure (Option Text)) (entries : List (Text × FolderTree))

/-- What a walk looks for and what it leaves out. -/
structure WalkRule where
  /-- Endings of the names of source files, in any case. -/
  extensions : List Text
  /-- Ignore patterns that exclude paths. -/
  excludePatterns : List Text
  respectsIgnoreFiles : Bool
  followsLinks : Bool
  deriving DecidableEq, Repr

namespace WalkRule

/-- The name ends as the name of a source file does. -/
def isSource (rule : WalkRule) (name : Text) : Bool :=
  rule.extensions.any fun e => Text.endsWith e.toSmall name.toSmall

end WalkRule

/-- What a walk has found: paths from its root, in order, and the failure that ended it early. -/
structure Found where
  paths : List (List Text)
  failure : Option Failure
  deriving DecidableEq, Repr

namespace Found

/-- Nothing, and no failure. -/
def none : Found := ⟨[], Option.none⟩

/-- What is found first, and then, without a failure, what is found next. -/
def followedBy (first next : Found) : Found :=
  match first.failure with
  | some _ => first
  | Option.none => ⟨first.paths ++ next.paths, next.failure⟩

end Found

namespace FolderTree

/-- The entry is excluded: some list of rules ignores its path. -/
def isLeftOut (lists : List (List IgnoreRule)) (path : List Text) (isFolder : Bool) : Bool :=
  let written := Text.joinWith ['/'] path ++ if isFolder then ['/'] else []
  lists.any (isIgnored · written)

/-- The lists of rules that count in a folder: those above it, and its own ignore file where such
files count. -/
def listsWithin (rule : WalkRule) (lists : List (List IgnoreRule))
    (ignoreText : Except Failure (Option Text)) : Except Failure (List (List IgnoreRule)) :=
  if rule.respectsIgnoreFiles then do
    match ← ignoreText with
    | none => pure lists
    | some t => pure (lists ++ [← ignoreRules (Text.splitLines t)])
  else .ok lists

mutual

/-- Walk below the entry at `path`. The lists of rules are those of the exclude patterns and of
the ignore files of the folders above. -/
def walk (rule : WalkRule) (lists : List (List IgnoreRule)) (path : List Text) :
    FolderTree → Found
  | nothing => .none
  | file =>
    if isLeftOut lists path false || !rule.isSource (path.getLast?.getD []) then .none
    else ⟨[path], none⟩
  | link target => if rule.followsLinks then walk rule lists path target else .none
  | folder ignoreText entries =>
    if isLeftOut lists path true then .none
    else
      match listsWithin rule lists ignoreText with
      | .error f => ⟨[], some f⟩
      | .ok lists => walkEntries rule lists path entries

/-- Walk through entries one after another. -/
def walkEntries (rule : WalkRule) (lists : List (List IgnoreRule)) (path : List Text) :
    List (Text × FolderTree) → Found
  | [] => .none
  | (name, t) :: rest =>
    (walk rule lists (path ++ [name]) t).followedBy (walkEntries rule lists path rest)

end

end FolderTree

namespace FileStore

/-- The name of an ignore file. -/
def ignoreFileName : Text := ".gitignore"

/-- The ignore file of a folder. -/
def ignoreTextAt (fs : FileStore) (folder : Path) : Except Failure (Option Text) :=
  let p := folder.child ignoreFileName
  if fs.isFile p then (fs.textAt p).map some else .ok none

/-- What there is to see at a path, to a given depth. What a link leads to is seen only when
links are followed. -/
def viewTo (fs : FileStore) (followsLinks : Bool) : Nat → Path → FolderTree
  | depth, p =>
    if fs.isLink p && !followsLinks then .link .nothing
    else
      let seen : FolderTree :=
        if fs.isFolder p then
          match depth with
          | 0 => .nothing
          | depth + 1 =>
            .folder (fs.ignoreTextAt p)
              ((fs.list p).map fun n => (n, viewTo fs followsLinks depth (p.child n)))
        else if fs.isFile p then .file
        else .nothing
      if fs.isLink p then .link seen else seen

/-- A depth that no path through the store exceeds: between two links a path has at most as many
names as there are entries. -/
def depthBound (fs : FileStore) : Nat := (linkLimit + 1) * (fs.entries.length + 1)

/-- What there is to see at a path. -/
def view (fs : FileStore) (followsLinks : Bool) (p : Path) : FolderTree :=
  fs.viewTo followsLinks fs.depthBound p

/-- Walk below a folder. The root of the walk is entered whatever the rules say. -/
def walk (fs : FileStore) (rule : WalkRule) (root : Path) : Found :=
  match fs.view rule.followsLinks root with
  | .folder ignoreText entries =>
    let lists := do
      FolderTree.listsWithin rule [← ignoreRules rule.excludePatterns] ignoreText
    match lists with
    | .error f => ⟨[], some f⟩
    | .ok lists => FolderTree.walkEntries rule lists [] entries
  | _ => .none

/-- The source files below a folder, as full paths, and the failure that ended the walk early. -/
def sources (fs : FileStore) (rule : WalkRule) (root : Path) : List Path × Option Failure :=
  if !fs.isThere root then ([], some (.walkRootMissing root))
  else if !fs.isFolder root then ([], some (.walkRootNotDirectory root))
  else
    let top := fs.realPath root
    let found := fs.walk rule top
    (found.paths.map fun names => ⟨top.anchor, top.names ++ names⟩, found.failure)

end FileStore

end Modulize
