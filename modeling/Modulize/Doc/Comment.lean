import Modulize.Pattern.Basic

/-!
# Documentation comments

A documentation comment is read into its content lines, without the stars in front of them, and
the lines are grouped into blocks: a block begins at every tag (`Comment.parse`). Blocks are
chosen by their tags (`only`, `without`), lines are changed (`mapLines`) or left out
(`dropLines`), and `render` writes the comment again.
-/

namespace Modulize.Doc

open Pattern

/-- A documentation comment: its blocks, each with its content lines. -/
structure Comment where
  blocks : List (List Text)
  deriving DecidableEq, Repr

namespace Comment

/-- The comment without content. -/
def empty : Comment := ⟨[]⟩

/-- The content of a line of a comment: without the blanks around it, the star in front and one
space behind that. -/
def undecorate (line : Text) : Text :=
  match line.trim with
  | '*' :: ' ' :: r => Text.trimEnd r
  | '*' :: r => Text.trimEnd r
  | r => r

/-- The tag that a line begins with. -/
def tagOf? (line : Text) : Option Text :=
  match line.dropWhile isBlank with
  | '@' :: r =>
    match r.takeWhile isWord with
    | [] => none
    | tag => some tag
  | _ => none

/-- Group lines into blocks; the lines before the first tag make one block too. -/
def groupLines : List Text → List (List Text)
  | [] => []
  | line :: rest =>
    match groupLines rest with
    | [] => [[line]]
    | block :: blocks =>
      match block.head?.bind tagOf? with
      | some _ => [line] :: block :: blocks
      | none => (line :: block) :: blocks

/-- The lines without the blank ones at both ends. -/
def trimLines (ls : List Text) : List Text :=
  ((ls.dropWhile Text.allBlank).reverse.dropWhile Text.allBlank).reverse

/-- The text between the marks that open and close a comment. -/
def inner (t : Text) : Text :=
  let t := t.trim
  let t := if Text.startsWith "/**" t then t.drop 3 else t
  if Text.endsWith "*/" t then t.take (t.length - 2) else t

/-- Read a comment. -/
def parse (t : Text) : Comment :=
  if t.isEmpty then empty
  else ⟨groupLines (trimLines ((Text.splitOn '\n' (inner t)).map undecorate))⟩

/-- The tag of a block. -/
def blockTag? (block : List Text) : Option Text := block.head?.bind tagOf?

/-- The tags of the comment, in order. -/
def tags (c : Comment) : List Text := c.blocks.filterMap blockTag?

/-- One of the tags occurs. -/
def hasTag (c : Comment) (names : List Text) : Bool := c.tags.any (· ∈ names)

/-- The block has one of the tags. -/
def isTagged (names : List Text) (block : List Text) : Bool :=
  match blockTag? block with
  | some tag => tag ∈ names
  | none => false

/-- The comment without the blocks that have one of the tags. -/
def without (c : Comment) (names : List Text) : Comment :=
  ⟨c.blocks.filter fun b => !isTagged names b⟩

/-- The blocks of the comment that have one of the tags. -/
def only (c : Comment) (names : List Text) : Comment := ⟨c.blocks.filter (isTagged names)⟩

/-- The comment with one more line at the end, in a block of its own. -/
def withTag (c : Comment) (line : Text) : Comment := ⟨c.blocks ++ [[line]]⟩

/-- Change every line; a line break in the result makes several lines of it. -/
def mapLines (c : Comment) (f : Text → Text) : Comment :=
  ⟨c.blocks.map fun b => b.flatMap fun line => Text.splitOn '\n' (f line)⟩

/-- Leave out the lines that pass a test, and the blocks that become empty. -/
def dropLines (c : Comment) (p : Text → Bool) : Comment :=
  ⟨(c.blocks.map fun b => b.filter (! p ·)).filter (· ≠ [])⟩

/-- A visibility tag with a type; group 1 is the indentation, group 2 the visibility. -/
def visibilityWithType : Pattern :=
  textStart ++ group 1 blanks ++ one (· == '@') ++
    group 2 (oneOf [literal "private", literal "protected", literal "public"]) ++ blanks ++
    one (· == '{')

/-- The tag of a primitive type; group 1 is what stands before the name of the type. -/
def primitiveType : Pattern :=
  textStart ++ group 1 (blanks ++ literal "@type" ++ blanks ++ one (· == '{')) ++
    group 2 (oneOf [literal "number", literal "boolean", literal "string"]) ++ one (· == '}')

/-- The tag of a function type. -/
def functionType : Pattern :=
  textStart ++ blanks ++ literal "@type" ++ blanks ++ literal "\x7bfunction("

/-- Give the type behind a visibility tag a tag of its own. -/
def splitVisibilityTypes (c : Comment) : Comment :=
  c.mapLines (visibilityWithType.replace fun m =>
    m.groupText 1 ++ '@' :: m.groupText 2 ++ '\n' :: m.groupText 1 ++ "@type \x7b")

/-- Let a primitive type be null as well. -/
def nullablePrimitiveType (c : Comment) : Comment :=
  c.mapLines (primitiveType.replace fun m => m.groupText 1 ++ m.groupText 2 ++ "|null\x7d")

/-- Leave out the tags of function types. -/
def dropFunctionType (c : Comment) : Comment :=
  c.dropLines fun line => functionType.fits (Cursor.start line)

/-- The content lines. -/
def lines (c : Comment) : List Text := c.blocks.flatten

/-- A fragment occurs in one of the lines. -/
def mentions (c : Comment) (fragment : Text) : Bool := c.lines.any (Text.contains fragment)

/-- There is nothing but blanks. -/
def isEmpty (c : Comment) : Bool := c.lines.all Text.allBlank

/-- Write the comment with a line break behind it; nothing for an empty one. -/
def render (c : Comment) : Text :=
  if c.isEmpty then []
  else "/**\n" ++ (c.lines.flatMap fun line => Text.trimEnd (" * " ++ line) ++ ['\n']) ++ " */\n"

end Comment

end Modulize.Doc
