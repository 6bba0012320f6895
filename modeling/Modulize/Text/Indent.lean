import Modulize.Text.CharClass

/-!
# Indentation

`Text.indent` puts a fixed text before every line that is not empty; `Text.dedent` takes away the
run of spaces and tabs that all lines with other characters have in common, and empties the lines
that hold nothing but spaces and tabs.
-/

namespace Modulize.Text

/-- Put `lead` before every line that is not empty; `fresh` says that a line begins here. -/
def indentFrom (lead : Text) : Bool → Text → Text
  | _, [] => []
  | fresh, a :: r =>
    if a = '\n' then a :: indentFrom lead true r
    else if fresh then lead ++ a :: indentFrom lead false r
    else a :: indentFrom lead false r

/-- Put `lead` before every line that is not empty. -/
def indent (t : Text) (lead : Text) : Text := indentFrom lead true t

/-- The longest common beginning of two texts. -/
def commonStart : Text → Text → Text
  | a :: r, b :: s => if a = b then a :: commonStart r s else []
  | _, _ => []

/-- The common beginning of all the members. -/
def commonStartAll : List Text → Text
  | [] => []
  | [t] => t
  | t :: ts => commonStart t (commonStartAll ts)

/-- The lines of a text without their line breaks. -/
def lines (t : Text) : List Text := splitOn '\n' t

/-- Remove the indentation that the lines of a text share. -/
def dedent (t : Text) : Text :=
  let ls := (lines t).map fun l => if l.all isSpaceOrTab then [] else l
  let margin := commonStartAll ((ls.filter (· ≠ [])).map (·.takeWhile isSpaceOrTab))
  joinWith ['\n'] (ls.map (·.drop margin.length))

end Modulize.Text
