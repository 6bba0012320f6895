import Modulize.Settings.Basic
import Modulize.Settings.Checked
import Modulize.Text.Quoted

/-!
# Reading settings

Each section is read field by field, and lists are tidied up on the way: blanks around their
members go, and so do empty members and repetitions. Fields that are not known are passed over.
`Settings.read` reads all sections and lists every issue in the order of the fields.
-/

namespace Modulize

open Checked

/-- The members that are not empty, each once. -/
def tidied (ts : List Text) : List Text := dedup ((ts.map Text.trim).filter (· ≠ []))

/-- A list of texts, tidied up. -/
def Checked.tidyList (v : Value) : Checked (List Text) := (list trimmedText v).map tidied

/-- The ending of file names in small letters and with its dot. -/
def normalExtension (t : Text) : Text :=
  match t.trim.toSmall with
  | '.' :: r => '.' :: r
  | r => '.' :: r

/-- A list of endings of file names; it may not be empty. -/
def Checked.extensions (v : Value) : Checked (List Text) :=
  refine (list trimmedText v) fun ts =>
    match dedup ((ts.filter fun t => t.trim ≠ []).map normalExtension) with
    | [] => .error "At least one source extension is required."
    | found => .ok found

namespace ReaderSettings

/-- Read the section. -/
def read (t : Table) : Checked ReaderSettings :=
  let d : ReaderSettings := {}
  (done ReaderSettings.mk)
    |>.ap (field t "extensions" d.extensions Checked.extensions)
    |>.ap (field t "exclude_patterns" d.excludePatterns tidyList)
    |>.ap (field t "test_patterns" d.testPatterns tidyList)
    |>.ap (field t "test_only_marker" d.testOnlyMarker trimmedText)
    |>.ap (field t "implicit_root_require" d.impliesRoot flag)
    |>.ap (field t "root_files" d.rootFiles tidyList)
    |>.ap (field t "respect_gitignore" d.respectsIgnoreFiles flag)

end ReaderSettings

namespace SelectionSettings

/-- Read the section. -/
def read (t : Table) : Checked SelectionSettings :=
  let d : SelectionSettings := {}
  (done SelectionSettings.mk)
    |>.ap (field t "required_namespaces_file" d.namespacesFile path)
    |>.ap (field t "include_tests" d.includeTests flag)
    |>.ap (field t "test_suffix" d.testSuffix visibleText)

end SelectionSettings

namespace RecastSettings

/-- Read the section. -/
def read (t : Table) : Checked RecastSettings :=
  let d : RecastSettings := {}
  (done RecastSettings.mk)
    |>.ap (field t "root_namespace" d.root visibleText)
    |>.ap (field t "root_allowlist" d.rootAllowlist tidyList)
    |>.ap (field t "reserved_names" d.reservedNames tidyList)
    |>.ap (field t "max_alias_attempts" d.maxAliasAttempts positive)

end RecastSettings

namespace PatchRule

/-- The path ending that a rule names, with slashes between the names and none in front. -/
def normalFile (t : Text) : Text :=
  (t.trim.map fun c => if c = '\\' then '/' else c).dropWhile (· == '/')

/-- The file of a rule. -/
def readFile (v : Value) : Checked Text :=
  refine (text v) fun t =>
    match normalFile t with
    | [] => .error "Patch rules require a non-empty file suffix."
    | file => .ok file

/-- Read a rule. -/
def read (t : Table) : Checked PatchRule :=
  (done PatchRule.mk)
    |>.ap (requiredField t "file" readFile)
    |>.ap (requiredField t "search" text)
    |>.ap (field t "replace" [] text)
    |>.ap (field t "regex" false flag)
    |>.ap (field t "strict" false flag)

end PatchRule

namespace PatchSettings

/-- Read the section. -/
def read (t : Table) : Checked PatchSettings :=
  (done PatchSettings.mk)
    |>.ap (field t "source" [] (list (section? PatchRule.read)))
    |>.ap (field t "declaration" [] (list (section? PatchRule.read)))

end PatchSettings

/-- Tidy up the groups of files: targets without the blanks around them, and members as in any
list. A target that occurs again keeps its place and takes the new members. -/
def tidyGroups : List (Text × List Text) → List (Text × List Text) →
    Except Text (List (Text × List Text))
  | done, [] => .ok done
  | done, (target, members) :: rest =>
    let key := target.trim
    if key = [] then .error "Cycle group targets cannot be blank."
    else
      match tidied members with
      | [] => .error ("Cycle group " ++ key.quoted ++ " lists no files.")
      | files => tidyGroups (assign key files done) rest

/-- The groups of files that are merged. -/
def Checked.cycleGroups (v : Value) : Checked (List (Text × List Text)) :=
  refine (table (list trimmedText) v) (tidyGroups [])

/-- The command that checks the result. -/
def Checked.verifySection (t : Table) : Checked (List Text) := field t "command" [] (list text)

namespace Settings

/-- Read all settings. -/
def read (t : Table) : Checked Settings :=
  let d : Settings := {}
  (done Settings.mk)
    |>.ap (field t "input_dir" none path)
    |>.ap (field t "output_dir" none path)
    |>.ap (field t "log_level" d.logLevel fun v => (trimmedText v).map Text.toCapitals)
    |>.ap (field t "log_dir" none path)
    |>.ap (field t "reader" {} (section? ReaderSettings.read))
    |>.ap (field t "selection" {} (section? SelectionSettings.read))
    |>.ap (field t "rewrite" {} (section? RecastSettings.read))
    |>.ap (field t "cycle_groups" [] Checked.cycleGroups)
    |>.ap (field t "patches" {} (section? PatchSettings.read))
    |>.ap (field t "verify" [] (section? verifySection))

end Settings

end Modulize
