import Modulize.Files.Glob
import Modulize.Patch.Rule
import Modulize.Session

/-!
# Patching a tree

All files below a folder whose names end with an extension are patched by the rules that are meant
for them (`patchTree`). A rule that is meant for none of the files is reported, or, when it is
strict, a failure.
-/

namespace Modulize

namespace PatchRule

/-- The report that a rule is meant for no file. -/
def untargetedEvent (r : PatchRule) : Log.Event :=
  Log.Stage.patches.event .warning "patch-target-missing" [("file", .text r.file)]

/-- The rules that are meant for none of the paths. -/
def untargeted (extension : Text) (rules : List PatchRule) (paths : List Text) :
    List PatchRule :=
  let hit := rules.filter fun r => paths.any (r.targets · extension)
  rules.filter (· ∉ hit)

end PatchRule

namespace Session

/-- The report that files have been patched. -/
def patchedEvent (count : Nat) : Log.Event :=
  Log.Stage.patches.event .info "patches-applied" [("files", .number count)]

/-- The files that rules can be meant for, each with its path below the root: those whose names end
with the extension, in which wildcards may stand. -/
def patchCandidates (extension : Text) (root : Path) (fs : FileStore) :
    Except Failure (List (Path × Text)) := do
  let found ← fs.globBelow ('*' :: extension) root
  pure ((found.filter fs.isFile).filterMap fun p =>
    (p.relativeTo? root).map fun relative => (p, relative.toText))

/-- Patch a file; the result tells whether its text has changed. -/
def patchFile (extension : Text) (rules : List PatchRule) (p : Path) (relative : Text) :
    Session Bool := do
  if rules.any (·.targets relative extension) then
    let t ← read (·.sourceAt p)
    let (events, patched) := PatchRule.applyAll extension relative rules t
    emitAll events
    let t' ← ofResult patched
    if t' = t then pure false
    else do
      change (·.write p (.text t'))
      pure true
  else pure false

/-- Patch files one after another; the result lists those that have changed. -/
def patchFiles (extension : Text) (rules : List PatchRule) :
    List (Path × Text) → Session (List Path)
  | [] => pure []
  | (p, relative) :: rest => do
    let isChanged ← patchFile extension rules p relative
    let changed ← patchFiles extension rules rest
    pure (if isChanged then p :: changed else changed)

/-- Report the rules that are meant for no file, or fail when one of them is strict. -/
def reportUntargeted : List PatchRule → Session Unit
  | [] => pure ()
  | r :: rs =>
    if r.isStrict then throw (.patchFileMissing r.file)
    else do
      emit r.untargetedEvent
      reportUntargeted rs

/-- Patch all files below a folder whose names end with the extension; the result lists those that
have changed. Without rules nothing happens. -/
def patchTree (extension : Text) (rules : List PatchRule) (root : Path) :
    Session (List Path) := do
  if rules.isEmpty then pure []
  else
    let candidates ← read (patchCandidates extension root)
    let changed ← patchFiles extension rules candidates
    reportUntargeted (PatchRule.untargeted extension rules (candidates.map Prod.snd))
    emit (patchedEvent changed.length)
    pure changed

end Session

end Modulize
