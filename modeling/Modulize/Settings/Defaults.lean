import Modulize.Settings.Pairs
import Modulize.Settings.Read
import Modulize.Toml.Reader

/-!
# Layers of settings

Settings come in layers: the defaults that the program carries with it, a settings file, and the
command line. A higher layer wins entry by entry; only the groups of files are taken from one
layer as a whole (`Settings.stack`).
-/

namespace Modulize.Settings

/-- The lines of the settings file that the program carries with it. -/
def defaultLines : List Text :=
  (["# Packaged defaults for es6port.",
     "# Override any value in es6port.toml or with CLI flags.",
     "",
     "log_level = \"INFO\"",
     "",
     "[reader]",
     "extensions = [\".js\"]",
     "test_only_marker = \"goog.setTestOnly(\"",
     "implicit_root_require = false",
     "root_files = [\"base.js\", \"goog.js\"]",
     "",
     "[selection]",
     "include_tests = false",
     "test_suffix = \"Test\"",
     "",
     "[rewrite]",
     "root_namespace = \"goog\"",
     "max_alias_attempts = 64",
     "",
     "# Groups of Closure Library files that require each other. Each group is",
     "# concatenated into its target (relative to the output root) before conversion.",
     "[cycle_groups]",
     "\"closure/goog/date/date.js\" = [",
     "    \"closure/goog/date/date.js\",",
     "    \"closure/goog/date/datelike.js\",",
     "]",
     "\"closure/goog/events/eventhandler.js\" = [",
     "    \"closure/goog/events/eventhandler.js\",",
     "    \"closure/goog/events/events.js\",",
     "    \"closure/goog/events/eventwrapper.js\",",
     "    \"closure/goog/events/listenable.js\",",
     "    \"closure/goog/events/eventtarget.js\",",
     "    \"closure/goog/events/listener.js\",",
     "    \"closure/goog/events/listenermap.js\",",
     "]",
     "\"closure/goog/promise/promise.js\" = [",
     "    \"closure/goog/promise/thenable.js\",",
     "    \"closure/goog/promise/promise.js\",",
     "    \"closure/goog/promise/resolver.js\",",
     "]",
     "\"closure/goog/ui/container.js\" = [",
     "    \"closure/goog/ui/container.js\",",
     "    \"closure/goog/ui/containerrenderer.js\",",
     "]",
     "\"closure/goog/ui/control.js\" = [",
     "    \"closure/goog/ui/controlrenderer.js\",",
     "    \"closure/goog/ui/registry.js\",",
     "    \"closure/goog/ui/control.js\",",
     "]",
     "\"closure/goog/ui/menu.js\" = [",
     "    \"closure/goog/ui/menurenderer.js\",",
     "    \"closure/goog/ui/menuitem.js\",",
     "    \"closure/goog/ui/menu.js\",",
     "]"] :
    List String).map String.toList

/-- The text of the settings file that the program carries with it. -/
def defaultText : Text := defaultLines.flatMap (· ++ ['\n'])

/-- The settings that the program carries with it. -/
def defaults : Table :=
  match Toml.read defaultText with
  | .ok t => t
  | .error _ => []

/-- The key of the groups of files. -/
def groupsKey : Text := "cycle_groups"

/-- Put a layer over those below it. Groups of files replace all groups below them; they may be
given as pairs. -/
def addLayer (below layer : Table) : Except Failure Table :=
  let merged := Value.overlayEntries below (layer.filter (·.1 ≠ groupsKey))
  match lookup? groupsKey layer with
  | none | some .null => .ok merged
  | some groups =>
    match groups.asTable with
    | .ok groups => .ok (assign groupsKey groups merged)
    | .error problem => .error (.badGroups problem)

/-- The defaults with the settings file and the command line over them. -/
def stack (defaults file commandLine : Table) : Except Failure Table := do
  addLayer (← addLayer defaults file) commandLine

/-- Read the settings of all layers together. -/
def load (defaults file commandLine : Table) : Except Failure Settings := do
  match read (← stack defaults file commandLine) with
  | .ok s => .ok s
  | .error issues => .error (.settings issues)

end Modulize.Settings
