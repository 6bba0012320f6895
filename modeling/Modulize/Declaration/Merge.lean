import Modulize.Declaration.Header

/-!
# Merging files

`mergeTexts` puts the texts of several files one after another. Requires of what one of them
provides are dropped, and the names that they bound are written out as dotted names; of a require
that occurs several times in the same words, only the first stays.
-/

namespace Modulize.Declaration

open Pattern

/-- The number of spaces and tabs at the beginning of a text, and of the line break behind. -/
def lineEndLength (t : Text) : Nat :=
  let spaces := (t.takeWhile isSpaceOrTab).length
  if (t.drop spaces).head? = some '\n' then spaces + 1 else spaces

/-- Remove pieces from a text, each with the end of its line. The pieces are in order; `rest` is
the text from offset `offset` on. A piece that begins before `offset` is passed over. -/
def removeSpansFrom (offset : Nat) (rest : Text) : List (Nat × Nat) → Text
  | [] => rest
  | (start, stop) :: spans =>
    if start < offset then removeSpansFrom offset rest spans
    else
      let after := rest.drop (stop - offset)
      let n := lineEndLength after
      rest.take (start - offset) ++ removeSpansFrom (stop + n) (after.drop n) spans

/-- Remove pieces from a text, each with the end of its line. -/
def removeSpans (t : Text) (spans : List (Nat × Nat)) : Text := removeSpansFrom 0 t spans

/-- An occurrence of a local name that is not part of another name, a quoted text or a path. -/
def localName (name : Text) : Pattern :=
  notAfter (fun c => Qualified.guards c || c == '.') ++ literal name ++ notBefore Qualified.guards

/-- Write a dotted name for every occurrence of a local name. -/
def requalify (t : Text) (substitution : Text × Text) : Text :=
  (localName substitution.1).replace (fun _ => substitution.2) t

/-- The local names that a require binds, each with the dotted name that it stands for. -/
def boundNames (r : Require) : List (Text × Text) :=
  match r.binding with
  | .plain => []
  | .alias name => [(name, r.name)]
  | .members entries => entries.map fun e => (e.internal, r.name ++ '.' :: e.external)

/-- The pieces to drop among the requires: those of provided namespaces, and repetitions of a
statement already seen. -/
def droppedSpans (provided : List Text) : List Text → List (Match × Require) → List (Nat × Nat)
  | _, [] => []
  | seen, (m, r) :: rest =>
    if r.name ∈ provided then m.span :: droppedSpans provided seen rest
    else if m.text ∈ seen then m.span :: droppedSpans provided seen rest
    else droppedSpans provided (m.text :: seen) rest

/-- The texts of a group of files as one text. -/
def mergeTexts (root : Text) (texts : List Text) : Except Failure Text := do
  let t := Text.joinWith "\n\n" texts
  let provided := (bareProvides root t).map Provide.name
  let found := (requireHeader root).allMatches t
  let required ← found.mapM readRequire
  let within := required.filter (·.name ∈ provided)
  let kept := removeSpans t (droppedSpans provided [] (found.zip required))
  pure ((within.flatMap boundNames).foldl requalify kept)

end Modulize.Declaration
