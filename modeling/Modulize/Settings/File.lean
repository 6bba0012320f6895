import Modulize.Files.Store
import Modulize.Settings.Defaults

/-!
# The settings file

A settings file is read as a table in which relative paths have been put below the folder of the
file (`SettingsFile.read`).
-/

namespace Modulize.SettingsFile

/-- The name of the settings file. -/
def fileName : Text := "es6port.toml"

/-- The name under which the default settings are kept. -/
def defaultsName : Text := "es6port.defaults.toml"

/-- Put a path that is written under a key below a folder. -/
def placePath (base : Path) (key : Text) (t : Table) : Table :=
  match lookup? key t with
  | some (.text p) => assign key (.text (base.join (Path.parse p)).toText) t
  | _ => t

/-- The keys for folders. -/
def folderKeys : List Text := ["input_dir", "output_dir", "log_dir"]

/-- The key of the section about selecting. -/
def selectionKey : Text := "selection"

/-- The key for the list of required namespaces. -/
def namespacesKey : Text := "required_namespaces_file"

/-- Put all paths of a table below a folder. -/
def placePaths (base : Path) (t : Table) : Table :=
  let t := folderKeys.foldl (fun t k => placePath base k t) t
  match lookup? selectionKey t with
  | some (.table inner) => assign selectionKey (.table (placePath base namespacesKey inner)) t
  | _ => t

/-- Read a settings file. -/
def read (p : Path) (fs : FileStore) : Except Failure Table := do
  let t ← fs.rawTextAt p
  (Toml.read t).map (placePaths p.parent)

end Modulize.SettingsFile
