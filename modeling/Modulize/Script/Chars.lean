import Modulize.Text.CharClass

/-!
# Code characters

A script is read from left to right by a machine that knows whether it stands in code, in a quoted
literal, in a comment or in a regular-expression literal (`Context`). `codeChars` lists the
characters that are code; literals and comments are left out together with the marks that open
them. A slash opens a regular expression only where an operand can begin (`opensRegex`).
-/

namespace Modulize.Script

/-- What the text at a place belongs to. -/
inductive Context
  | code
  | quoted (quote : Char)
  | lineComment
  | blockComment
  | regex
  | regexClass
  deriving DecidableEq, Repr

/-- A character of code: its offset, the character, and the text behind it. -/
structure CodeChar where
  offset : Nat
  char : Char
  rest : Text
  deriving DecidableEq, Repr

/-- The marks that open a quoted literal. -/
def isQuote (c : Char) : Bool := c == '\'' || c == '"' || c.toNat == 0x60

/-- Words after which an operand begins. -/
def operandWords : List Text :=
  ["case", "delete", "do", "else", "in", "instanceof", "new", "of", "return", "throw", "typeof",
   "void", "yield"]

/-- After a blank, an identifier begins, perhaps behind an opening parenthesis. -/
def looksLikeDivision (after : Text) : Bool :=
  match after with
  | [] => false
  | a :: r =>
    isBlank a &&
      match r.dropWhile isBlank with
      | [] => false
      | [b] => isIdent b
      | b :: d :: _ => isIdent b || (b == '(' && isIdent d)

/-- The text before a place, given in reverse, lets an operand begin there. -/
def operandMayFollow (before : Text) : Bool :=
  match before.dropWhile isBlank with
  | [] => true
  | a :: r =>
    if a == ')' || a == ']' then false
    else if isIdent a then operandWords.contains ((a :: r).takeWhile isIdent).reverse
    else true

/-- A slash between the two texts opens a regular expression; the text before is in reverse. -/
def opensRegex (before after : Text) : Bool :=
  after.head? != some '=' && !looksLikeDivision after && operandMayFollow before

/-- What the machine does with a character: the context it is in afterwards, whether the next
character belongs to this one, and whether the character is code. -/
structure Step where
  context : Context
  takesNext : Bool
  isCode : Bool
  deriving DecidableEq, Repr

/-- The step of the machine at character `c`, between `before` (in reverse) and `after`. -/
def Context.step (ctx : Context) (before : Text) (c : Char) (after : Text) : Step :=
  match ctx with
  | .lineComment => ⟨if c = '\n' then .code else .lineComment, false, false⟩
  | .blockComment =>
    if c = '*' ∧ after.head? = some '/' then ⟨.code, true, false⟩
    else ⟨.blockComment, false, false⟩
  | .quoted quote =>
    if c = '\\' then ⟨.quoted quote, true, false⟩
    else if c = quote then ⟨.code, false, false⟩
    else ⟨.quoted quote, false, false⟩
  | .regex =>
    if c = '\\' then ⟨.regex, true, false⟩
    else if c = '[' then ⟨.regexClass, false, false⟩
    else if c = '/' then ⟨.code, false, false⟩
    else ⟨.regex, false, false⟩
  | .regexClass =>
    if c = '\\' then ⟨.regexClass, true, false⟩
    else if c = ']' then ⟨.regex, false, false⟩
    else ⟨.regexClass, false, false⟩
  | .code =>
    if c = '/' then
      if after.head? = some '/' then ⟨.lineComment, false, false⟩
      else if after.head? = some '*' then ⟨.blockComment, true, false⟩
      else if opensRegex before after then ⟨.regex, false, false⟩
      else ⟨.code, false, true⟩
    else if isQuote c then ⟨.quoted c, false, false⟩
    else ⟨.code, false, true⟩

/-- The code characters of a text from a place on; `taken` says that the first character belongs
to the one before it. The text before the place is given in reverse. -/
def codeCharsFrom : Context → Bool → Text → Nat → Text → List CodeChar
  | _, _, _, _, [] => []
  | ctx, true, before, offset, c :: r => codeCharsFrom ctx false (c :: before) (offset + 1) r
  | ctx, false, before, offset, c :: r =>
    let s := ctx.step before c r
    let later := codeCharsFrom s.context s.takesNext (c :: before) (offset + 1) r
    if s.isCode then ⟨offset, c, r⟩ :: later else later

/-- The code characters of a text from offset `start` on. -/
def codeChars (t : Text) (start : Nat) : List CodeChar :=
  codeCharsFrom .code false (t.take start).reverse start (t.drop start)

end Modulize.Script
