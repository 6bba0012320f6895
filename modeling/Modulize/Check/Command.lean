import Modulize.Files.Path

/-!
# The check command

The words of the command that checks a converted tree; the place of the tree is written as a
placeholder in them.
-/

namespace Modulize.Check

/-- The placeholder for the output folder. -/
def outputMark : Text := "\x7boutput\x7d"

/-- The words of a command with the output folder put in. -/
def fillCommand (command : List Text) (output : Path) : List Text :=
  command.map (Text.replaceAll outputMark output.toText)

end Modulize.Check
