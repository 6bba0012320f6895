import Modulize.Class.Collect
import Modulize.Class.Render

/-!
# Converting classes

`convert` replaces every constructor of a text by its class statement and removes the members and
the inheriting calls that the statement has taken up, each with the blank lines behind it.
-/

namespace Modulize.Class

open Pattern

/-- A piece of a text and what stands in its place. -/
structure Edit where
  start : Nat
  stop : Nat
  new : Text
  deriving DecidableEq, Repr

namespace Edit

/-- Edits are ordered by where they begin, then by where they end, then by their texts. -/
def precedes (a b : Edit) : Bool :=
  if a.start ≠ b.start then a.start < b.start
  else if a.stop ≠ b.stop then a.stop < b.stop
  else Text.precedes a.new b.new

/-- The edits that begin where the accepted ones before them have ended, or later. -/
def accepted : Nat → List Edit → List Edit
  | _, [] => []
  | free, e :: es => if e.start < free then accepted free es else e :: accepted e.stop es

/-- The rest of a line and the blank lines behind it. -/
def trailingBlankLines : Pattern :=
  spacesOrTabs ++
    many (one (· == '\n') ++ spacesOrTabs ++ place fun _ rest => rest.head? == some '\n')
      none true ++
    optional (one (· == '\n'))

/-- The text without the blank lines at its beginning. -/
def dropBlankLines (t : Text) : Text :=
  match trailingBlankLines.matchAt? (Cursor.start t) with
  | some m => m.stop.rest
  | none => t

/-- Apply edits that are in order and apart; `rest` is the text from offset `offset` on. -/
def applyFrom (offset : Nat) (rest : Text) : List Edit → Text
  | [] => rest
  | e :: es =>
    let after := applyFrom e.stop (rest.drop (e.stop - offset)) es
    rest.take (e.start - offset) ++
      if e.new.isEmpty then dropBlankLines after else e.new ++ after

end Edit

/-- The edits for one class. -/
def edits (root : Text) (d : Definition) : Except Failure (List Edit) := do
  let statement ← render root d
  pure (⟨d.constructor.span.1, d.constructor.span.2, statement⟩ ::
    (d.members.map fun m => ⟨m.span.1, m.span.2, []⟩) ++
    (d.inheritsSpan.toList.map fun s => ⟨s.1, s.2, []⟩))

/-- The text with every constructor function turned into a class. -/
def convert (root t : Text) : Except Failure Text := do
  let definitions ← collect root t
  let all ← definitions.mapM (edits root)
  pure (Edit.applyFrom 0 t (Edit.accepted 0 (sortBy Edit.precedes all.flatten)))

end Modulize.Class
