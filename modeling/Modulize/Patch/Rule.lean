import Modulize.Log.Event
import Modulize.Pattern.Template
import Modulize.Settings.Basic

/-!
# Patches

A patch rule is meant for the files whose paths end with its file name, with or without the
extension (`targets`). It replaces every occurrence of a text, or every match of a written pattern
(`apply`). `applyAll` applies the rules that are meant for a file one after another; a rule that
finds nothing to replace is reported, or, when it is strict, a failure.
-/

namespace Modulize.PatchRule

/-- The path is the ending itself, or ends with it behind a slash. -/
def isTail (ending path : Text) : Bool := path == ending || Text.endsWith ('/' :: ending) path

/-- The rule is meant for the file at a path below the root. -/
def targets (r : PatchRule) (path extension : Text) : Bool :=
  isTail r.file path || (!Text.endsWith extension r.file && isTail (r.file ++ extension) path)

/-- Apply a rule to a text; nothing results when the rule finds nothing to replace. -/
def apply (r : PatchRule) (t : Text) : Except Failure (Option Text) :=
  if r.isRegex then do
    let w ← Pattern.Notation.read r.search
    if w.pattern.occursIn t then
      let template ← Pattern.Template.read w r.replace
      pure (some (w.pattern.replace (Pattern.Template.fill template) t))
    else pure none
  else if Text.contains r.search t then .ok (some (Text.replaceAll r.search r.replace t))
  else .ok none

/-- The report that a rule found nothing to replace. -/
def missedEvent (r : PatchRule) (path : Text) : Log.Event :=
  Log.Stage.patches.event .warning "patch-search-missing"
    [("path", .text path), ("search", .text r.search)]

/-- Apply the rules that are meant for the file at a path, in order, and collect the reports. -/
def applyAll (extension path : Text) : List PatchRule → Text → List Log.Event × Except Failure Text
  | [], t => ([], .ok t)
  | r :: rs, t =>
    if r.targets path extension then
      match r.apply t with
      | .error f => ([], .error f)
      | .ok (some t') => applyAll extension path rs t'
      | .ok none =>
        if r.isStrict then ([], .error (.patchTextMissing r.search path))
        else
          let (events, result) := applyAll extension path rs t
          (r.missedEvent path :: events, result)
    else applyAll extension path rs t

end Modulize.PatchRule
