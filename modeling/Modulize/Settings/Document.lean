import Modulize.Settings.Basic
import Modulize.Toml.Writer

/-!
# The written form of settings

`Settings.document` lists the lines of a settings file for given settings, with comments for a
reader who wants to change them if these are asked for; `Settings.write` is its text.
-/

namespace Modulize.Settings

open Toml (Line Item)

/-- An entry for a path, when there is one. -/
def pathEntry (key : Text) (p : Option Path) : List Line :=
  p.toList.map fun p => .entry key (.text p.toText)

/-- The comments at the beginning. -/
def openingComments : List Line :=
  [.comment "Generated by es6port init",
   .comment "Precedence: CLI flags > es6port.toml > defaults",
   .comment "Relative paths resolve against this file.",
   .blank]

/-- The lines of the settings that stand in no section. -/
def topLines (s : Settings) : List Line :=
  pathEntry "input_dir" s.inputDir ++ pathEntry "output_dir" s.outputDir ++
    [.entry "log_level" (.text s.logLevel)] ++ pathEntry "log_dir" s.logDir

/-- The lines of the section about reading. -/
def readerLines (r : ReaderSettings) : List Line :=
  [.header ["reader"],
   .entry "extensions" (.texts r.extensions),
   .entry "exclude_patterns" (.texts r.excludePatterns),
   .entry "test_patterns" (.texts r.testPatterns),
   .entry "test_only_marker" (.text r.testOnlyMarker),
   .entry "implicit_root_require" (.flag r.impliesRoot),
   .entry "root_files" (.texts r.rootFiles),
   .entry "respect_gitignore" (.flag r.respectsIgnoreFiles)]

/-- The lines of the section about selecting. -/
def selectionLines (commentary : Bool) (s : SelectionSettings) : List Line :=
  [.header ["selection"]] ++
    (if commentary then
      [.comment "required_namespaces_file = \"namespaces.txt\" enables subsetting"] else []) ++
    pathEntry "required_namespaces_file" s.namespacesFile ++
    [.entry "include_tests" (.flag s.includeTests), .entry "test_suffix" (.text s.testSuffix)]

/-- The lines of the section about recasting. -/
def recastLines (r : RecastSettings) : List Line :=
  [.header ["rewrite"],
   .entry "root_namespace" (.text r.root),
   .entry "max_alias_attempts" (.number r.maxAliasAttempts),
   .entry "reserved_names" (.texts r.reservedNames),
   .entry "root_allowlist" (.texts r.rootAllowlist)]

/-- The lines of the section about merging. -/
def groupLines (groups : List (Text × List Text)) : List Line :=
  .header ["cycle_groups"] :: groups.map fun (target, members) => .entry target (.texts members)

/-- The lines of a patch. -/
def patchLines (list : Text) (r : PatchRule) : List Line :=
  [.arrayHeader ["patches", list],
   .entry "file" (.text r.file),
   .entry "search" (.text r.search),
   .entry "replace" (.text r.replace),
   .entry "regex" (.flag r.isRegex),
   .entry "strict" (.flag r.isStrict)]

/-- The sections about patches: one for each rule, or an empty one. -/
def patchSections (commentary : Bool) (p : PatchSettings) : List (List Line) :=
  match p.source.map (patchLines "source") ++ p.declaration.map (patchLines "declaration") with
  | [] =>
    [.header ["patches"] :: if commentary then
      [.comment "[[patches.source]] file = \"a/b.js\" search = \"x\" replace = \"y\""] else []]
  | sections => sections

/-- The lines of the section about the check of the result. -/
def verifyLines (command : List Text) : List Line :=
  [.header ["verify"], .entry "command" (.texts command)]

/-- The lines of the settings file. -/
def document (commentary : Bool) (s : Settings) : List Line :=
  let sections := [readerLines s.reader, selectionLines commentary s.selection,
    recastLines s.recast, groupLines s.cycleGroups] ++ patchSections commentary s.patches ++
    [verifyLines s.verifyCommand]
  (if commentary then openingComments else []) ++ s.topLines ++
    sections.flatMap fun ls => .blank :: ls

/-- The text of the settings file. -/
def write (commentary : Bool) (s : Settings) : Text := Toml.write (s.document commentary)

end Modulize.Settings
