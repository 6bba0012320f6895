import Modulize.Files.Path

/-!
# Settings

The settings of a conversion, section by section, and the values that they have when nothing is
said about them.
-/

namespace Modulize

/-- Which files are read, and how. -/
structure ReaderSettings where
  /-- Endings of the names of source files. -/
  extensions : List Text := [".js"]
  /-- Ignore patterns for files and folders that are never read. -/
  excludePatterns : List Text :=
    ["less/", "js-cache/", "testing/", "*_perf.js", "*tester.js", "alltests.js", "testhelpers.js",
     "testing.js", "relativecommontests.js", "mockiframeio.js"]
  /-- Ignore patterns for test files, which are read only when tests are selected. -/
  testPatterns : List Text := ["*_test.js"]
  /-- Text that marks a file as one for tests only. -/
  testOnlyMarker : Text := "goog.setTestOnly("
  /-- Every file depends on the root namespace, the root files aside. -/
  impliesRoot : Bool := false
  /-- Names of the files that define the root namespace. -/
  rootFiles : List Text := ["base.js", "goog.js"]
  /-- The ignore files in the tree count as well. -/
  respectsIgnoreFiles : Bool := false
  deriving DecidableEq, Repr

/-- Whether only a part of the tree is converted. -/
structure SelectionSettings where
  /-- A file that lists the namespaces needed from outside. -/
  namespacesFile : Option Path := none
  includeTests : Bool := false
  testSuffix : Text := "Test"
  deriving DecidableEq, Repr

/-- How namespaces are recast. -/
structure RecastSettings where
  root : Text := "goog"
  /-- Members of the root that keep their full names. -/
  rootAllowlist : List Text :=
    (["global", "require", "isString", "isBoolean", "isNumber", "define", "DEBUG", "LOCALE",
     "TRUSTED_SITE", "STRICT_MODE_COMPATIBLE", "DISALLOW_TEST_ONLY_CODE", "module.get",
     "setTestOnly", "forwardDeclare", "getObjectByName", "basePath", "addSingletonGetter",
     "typeOf", "isArray", "isArrayLike", "isDateLike", "isFunction", "isObject", "getUid",
     "hasUid", "removeUid", "mixin", "now", "globalEval", "getCssName", "setCssNameMapping",
     "getMsg", "getMsgWithFallback", "exportSymbol", "exportProperty", "isDef", "isNull",
     "isDefAndNotNull", "globalize", "nullFunction", "abstractMethod", "removeHashCode",
     "getHashCode", "cloneObject", "bind", "partial", "inherits", "base", "scope", "defineClass",
     "declareModuleId", "tagUnsealableClass"] : List String).map
      String.toList
  /-- Names that are never used for local bindings. -/
  reservedNames : List Text :=
    ["Array", "Date", "Error", "File", "LogRecord", "Logger", "Map", "Notification", "Object",
     "ServiceWorker", "Set", "array", "console", "document", "localStorage", "number", "parseInt",
     "string", "window"]
  maxAliasAttempts : Nat := 64
  deriving DecidableEq, Repr

/-- A substitution in the files whose paths end with `file`. -/
structure PatchRule where
  file : Text
  search : Text
  replace : Text := []
  isRegex : Bool := false
  isStrict : Bool := false
  deriving DecidableEq, Repr

/-- The patches of the source files and those of the declaration files. -/
structure PatchSettings where
  source : List PatchRule := []
  declaration : List PatchRule := []
  deriving DecidableEq, Repr

/-- All settings. -/
structure Settings where
  inputDir : Option Path := none
  outputDir : Option Path := none
  logLevel : Text := "INFO"
  logDir : Option Path := none
  reader : ReaderSettings := {}
  selection : SelectionSettings := {}
  recast : RecastSettings := {}
  /-- Files that are merged into one: the target and its members. -/
  cycleGroups : List (Text × List Text) := []
  patches : PatchSettings := {}
  /-- The command that checks the result; empty for none. -/
  verifyCommand : List Text := []
  deriving DecidableEq, Repr

end Modulize
