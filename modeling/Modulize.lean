import Modulize.Main
import Modulize.Pattern.Reading
import Modulize.Proofs.Alias.Capture
import Modulize.Proofs.Alias.Identifier
import Modulize.Proofs.Class.Gaps
import Modulize.Proofs.Class.Literals
import Modulize.Proofs.Class.ParentFirst
import Modulize.Proofs.Class.Survivors
import Modulize.Proofs.Declaration.Exported
import Modulize.Proofs.Declaration.Parts
import Modulize.Proofs.Declaration.Printed
import Modulize.Proofs.Declaration.Regrouping
import Modulize.Proofs.Doc.NormalForm
import Modulize.Proofs.Files.Walked
import Modulize.Proofs.Graph.Permuted
import Modulize.Proofs.Project.MergedGroups
import Modulize.Proofs.Project.OutputOnly
import Modulize.Proofs.Project.Patched
import Modulize.Proofs.Project.Recasting
import Modulize.Proofs.Qualified.Substitution
import Modulize.Proofs.Recast.Defines
import Modulize.Proofs.Recast.Leftover
import Modulize.Proofs.Recast.Naming
import Modulize.Proofs.Recast.Siblings
import Modulize.Proofs.Recast.Spared
import Modulize.Proofs.Recast.Specifier
import Modulize.Proofs.Script.Braces
import Modulize.Proofs.Script.Comments
import Modulize.Proofs.Settings.Layers
import Modulize.Proofs.Settings.RoundTrip
