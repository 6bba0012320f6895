import Modulize.Pattern.Basic
import Modulize.Script.Extent

/-!
# Definitions

What follows a declared name: a semicolon alone, or an assignment up to the end of its statement.
-/

namespace Modulize.Script

/-- The text of a definition, given the capture of the semicolon or of the equals sign with its
blanks, and the offset behind the definition. -/
def definition (t : Text) (mark : Capture) : Except Failure (Text × Nat) :=
  if mark.text = ";" then .ok (";", mark.stop)
  else (statementEnd t mark.stop).map fun e => (t.slice mark.start e, e)

end Modulize.Script
