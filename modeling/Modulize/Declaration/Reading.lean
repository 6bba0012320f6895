import Modulize.Declaration.Header
import Modulize.Log.Event
import Modulize.Settings.Basic

/-!
# Reading the declarations of a file

`ReadRule.read` gathers what a file declares: what it provides, what its headers require, what its
code implies, and what its documentation mentions. Files for tests only and files that provide
nothing have no declarations. A file with unclear exports counts with its headers alone. What
happens on the way is reported as events.
-/

namespace Modulize

/-- Which files are read, and below which root namespace their headers are. -/
structure ReadRule where
  settings : ReaderSettings
  root : Text
  includeTests : Bool
  deriving DecidableEq, Repr

/-- What a file declares. -/
structure FileDeclarations where
  provides : List Provide
  requires : List Require
  deriving DecidableEq, Repr

namespace ReadRule

/-- The text marks its file as one for tests only, and tests are not read. -/
def isTestOnly (rule : ReadRule) (t : Text) : Bool :=
  !rule.settings.testOnlyMarker.isEmpty && Text.contains rule.settings.testOnlyMarker t &&
    !rule.includeTests

/-- The function of the root namespace that code calls without requiring it. -/
def disposeName (rule : ReadRule) : Text := rule.root ++ ".dispose"

/-- What the code of a file depends on without requiring it; `known` are the namespaces that it
provides or requires. -/
def impliedRequires (rule : ReadRule) (p : Path) (t : Text) (known : List Text) : List Require :=
  let dispose :=
    if Text.contains (rule.disposeName ++ ['(']) t && rule.disposeName ∉ known then
      [Require.implied rule.disposeName] else []
  let wholeRoot :=
    if rule.settings.impliesRoot && p.name ∉ rule.settings.rootFiles && rule.root ∉ known then
      [{ Require.implied rule.root with binding := .alias rule.root }] else []
  dispose ++ wholeRoot

/-- All dependencies of a file that provides some namespaces: the written ones, the implied ones,
and those that only its documentation mentions. -/
def requiresOf (rule : ReadRule) (p : Path) (t : Text) (provides : List Provide) :
    Except Failure (List Require) := do
  let written ← Declaration.requires rule.root t
  let provided := provides.map Provide.name
  let implied := rule.impliedRequires p t (provided ++ written.map Require.name)
  let known := provided ++ (written ++ implied).map Require.name
  pure (written ++ implied ++ Declaration.inferredRequires t known)

/-- The namespaces that a file provides. Unclear exports leave the headers alone, and are given
as well. -/
def providesOf (rule : ReadRule) (t : Text) : Except Failure (List Provide × Option Failure) :=
  match Declaration.provides rule.root t with
  | .ok provides => .ok (provides, none)
  | .error f =>
    if f.isAmbiguousExport then .ok (Declaration.bareProvides rule.root t, some f) else .error f

/-- The report that a file is passed over. -/
def skippedEvent (level : Log.Level) (p : Path) (reason : Text) : Log.Event :=
  Log.Stage.reader.event level "reader-file-skipped"
    [("path", .text p.toText), ("reason", .text reason)]

/-- The report that the exports of a file are unclear. -/
def unclearEvent (p : Path) (f : Failure) : Log.Event :=
  Log.Stage.reader.event .warning "reader-exports-ambiguous"
    [("path", .text p.toText), ("error", .text f.message)]

/-- The declarations of the file at a path, from its text; nothing when it is passed over. -/
def read (rule : ReadRule) (p : Path) (t : Text) :
    List Log.Event × Except Failure (Option FileDeclarations) :=
  if rule.isTestOnly t then ([skippedEvent .warning p "test-only"], .ok none)
  else
    match rule.providesOf t with
    | .error f => ([], .error f)
    | .ok (provides, unclear) =>
      let events := unclear.toList.map (unclearEvent p)
      if provides.isEmpty then (events ++ [skippedEvent .debug p "no-provides"], .ok none)
      else (events, (rule.requiresOf p t provides).map fun requires => some ⟨provides, requires⟩)

end ReadRule

end Modulize
