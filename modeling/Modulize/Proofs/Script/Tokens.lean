import Modulize.Proofs.Script.Scan

/-!
# Token trees

Well-formed script text is a tree of tokens (`Tokens`): single characters, literals and comments
(`Literal`), semicolons, and groups in brackets. What may stand inside a literal is part of its
type. Blanks and the characters of identifiers are tokens by themselves (`isSingle_of_isBlank`,
`isSingle_of_isIdent`). Where a regular expression may stand depends on what comes before it
(`Neighbour`, `Tokens.Proper`); a place that admits one is a place where an operand may follow
(`operandMayFollow_of_admitsRegex`). A row of tokens can leave a statement unbroken
(`Tokens.Unbroken`).
-/

namespace Modulize.Script

/-! ## Tokens -/

/-- A piece of a literal: a backslash with the character behind it, or a character that is no
backslash and none of those that mean something there. -/
inductive Piece (special : List Char)
  | plain (c : Char) (unescaped : c ≠ '\\') (ordinary : c ∉ special)
  | escaped (c : Char)

/-- The text of a piece. -/
def Piece.text {special : List Char} : Piece special → Text
  | .plain c _ _ => [c]
  | .escaped c => ['\\', c]

/-- The text of pieces in a row. -/
def piecesText {special : List Char} (ps : List (Piece special)) : Text := ps.flatMap Piece.text

/-- A piece of a regular expression: a character, or a class in square brackets. -/
inductive RegexPiece
  | single (p : Piece ['/', '['])
  | charClass (ps : List (Piece [']']))

/-- The text of a piece of a regular expression. -/
def RegexPiece.text : RegexPiece → Text
  | .single p => p.text
  | .charClass ps => '[' :: piecesText ps ++ [']']

/-- The text between the slashes of a regular expression. -/
def regexText (ps : List RegexPiece) : Text := ps.flatMap RegexPiece.text

/-- A regular expression is not empty, and does not begin in a way that another reading of its slash
accounts for. -/
def BeginsRegex (body : Text) : Prop :=
  ∃ c r, body = c :: r ∧ c ≠ '=' ∧ c ≠ '*' ∧ isBlank c = false

/-- A literal or a comment. -/
inductive Literal
  | quoted (quote : Char) (mark : isQuote quote = true) (body : List (Piece [quote]))
  | lineComment (body : Text) (oneLine : '\n' ∉ body)
  | blockComment (body : Text) (unclosed : ¬ ['*', '/'] <:+: body)
  | regex (body : List RegexPiece) (begins : BeginsRegex (regexText body))

namespace Literal

/-- The text of a literal. -/
def text : Literal → Text
  | quoted quote _ body => quote :: piecesText body ++ [quote]
  | lineComment body _ => '/' :: '/' :: body ++ ['\n']
  | blockComment body _ => '/' :: '*' :: body ++ ['*', '/']
  | regex body _ => '/' :: regexText body ++ ['/']

/-- The literal is a regular expression. -/
def IsRegex : Literal → Prop
  | regex .. => True
  | _ => False

end Literal

/-- The kinds of brackets. -/
inductive Bracket
  | round
  | square
  | curly
  deriving DecidableEq, Repr

namespace Bracket

/-- The bracket that opens a group. -/
def opening : Bracket → Char
  | round => '('
  | square => '['
  | curly => '{'

/-- The bracket that closes a group. -/
def closing : Bracket → Char
  | round => ')'
  | square => ']'
  | curly => '}'

end Bracket

/-- Characters that are tokens by themselves: all but quotes, slashes, brackets and semicolons. -/
def isSingle (c : Char) : Bool :=
  !isQuote c && c != '/' && !isOpening c && !isClosing c && c != ';'

/-- The characters that are not tokens by themselves. -/
def marks : List Char := ['\'', '"', Char.ofNat 0x60, '/', '(', '[', '{', ')', ']', '}', ';']

/-- The characters of a class without marks are tokens by themselves. -/
theorem isSingle_of_unmarked {p : Char → Bool} (unmarked : (marks.all fun a => ! p a) = true)
    {c : Char} (h : p c = true) : isSingle c = true := by
  have others : ∀ a ∈ marks, c ≠ a := by
    intro a ha e
    have mark := List.all_eq_true.1 unmarked a ha
    rw [← e, h] at mark
    cases mark
  simp only [marks, List.forall_mem_cons] at others
  have template : c.toNat ≠ 0x60 := fun e => others.2.2.1 (by rw [← e, Char.ofNat_toNat])
  simp [isSingle, isQuote, isOpening, isClosing, others, template]

/-- A blank is a token by itself. -/
theorem isSingle_of_isBlank {c : Char} (h : isBlank c = true) : isSingle c = true :=
  isSingle_of_unmarked (by decide) h

theorem isSingle_of_isIdent {c : Char} (h : isIdent c = true) : isSingle c = true :=
  isSingle_of_unmarked (by decide) h

/-- Tokens in a row; the tokens of a group are a row of their own. -/
inductive Tokens
  | done
  | single (c : Char) (h : isSingle c = true) (next : Tokens)
  | semicolon (next : Tokens)
  | literal (l : Literal) (next : Tokens)
  | group (b : Bracket) (inner next : Tokens)

/-- What stands before a place, blanks aside: nothing at all, a character that is a token or a part
of one, or the end of a literal. -/
inductive Neighbour
  | nothing
  | code (c : Char)
  | literal

namespace Neighbour

/-- What stands before the place behind a single character. -/
def past (n : Neighbour) (c : Char) : Neighbour := if isBlank c then n else code c

/-- A regular expression may stand here. -/
def AdmitsRegex : Neighbour → Prop
  | nothing => True
  | code c => isIdent c = false ∧ c ≠ ')' ∧ c ≠ ']'
  | literal => False

/-- The neighbour is the one in a text, which is given in reverse. -/
def Fits (before : Text) : Neighbour → Prop
  | nothing => before.dropWhile isBlank = []
  | code c => (before.dropWhile isBlank).head? = some c
  | literal => True

end Neighbour

namespace Tokens

/-- The text of tokens in a row. -/
def text : Tokens → Text
  | done => []
  | single c _ next => c :: next.text
  | semicolon next => ';' :: next.text
  | literal l next => l.text ++ next.text
  | group b inner next => b.opening :: inner.text ++ b.closing :: next.text

/-- Regular expressions stand where they may. -/
def Proper : Neighbour → Tokens → Prop
  | _, done => True
  | n, single c _ next => next.Proper (n.past c)
  | _, semicolon next => next.Proper (.code ';')
  | n, literal l next => (l.IsRegex → n.AdmitsRegex) ∧ next.Proper .literal
  | _, group b inner next => inner.Proper (.code b.opening) ∧ next.Proper (.code b.closing)

/-- No semicolon stands outside the groups, and no brace that closes one of them is at the end of a
paragraph; behind the tokens comes `rest`. -/
def Unbroken (rest : Text) : Tokens → Prop
  | done => True
  | single _ _ next => next.Unbroken rest
  | semicolon _ => False
  | literal _ next => next.Unbroken rest
  | group b _ next =>
    (b = .curly → endsParagraph (next.text ++ rest) = false) ∧ next.Unbroken rest

end Tokens

/-! ## Neighbours -/

namespace Neighbour

variable {n : Neighbour} {before : Text} {c : Char}

theorem Fits.past (h : n.Fits before) (c : Char) : (n.past c).Fits (c :: before) := by
  unfold Neighbour.past
  split
  · rename_i blank
    have same : (c :: before).dropWhile isBlank = before.dropWhile isBlank :=
      List.dropWhile_cons_of_pos blank
    cases n with
    | nothing => exact same.trans h
    | code a =>
      rw [Fits, same]
      exact h
    | literal => trivial
  · rename_i other
    simp [Fits, other]

theorem fits_code (hc : isBlank c = false) (before : Text) : (code c).Fits (c :: before) := by
  simp [Fits, hc]

theorem operandMayFollow_of_admitsRegex (h : n.Fits before) (admits : n.AdmitsRegex) :
    operandMayFollow before = true := by
  unfold operandMayFollow
  cases n with
  | nothing =>
    have h : before.dropWhile isBlank = [] := h
    rw [h]
  | code c =>
    have h : (before.dropWhile isBlank).head? = some c := h
    obtain ⟨r, h⟩ := List.head?_eq_some_iff.1 h
    obtain ⟨ident, round, square⟩ := admits
    simp [h, ident, round, square]
  | literal => cases admits

end Neighbour

namespace Bracket

theorem step_opening (b : Bracket) (before after : Text) :
    Context.code.step before b.opening after = ⟨.code, false, true⟩ := by
  cases b <;> rfl

theorem step_closing (b : Bracket) (before after : Text) :
    Context.code.step before b.closing after = ⟨.code, false, true⟩ := by
  cases b <;> rfl

theorem depthAfter_opening (b : Bracket) (d : Int) : depthAfter d b.opening = d + 1 := by
  cases b <;> rfl

theorem depthAfter_closing (b : Bracket) (d : Int) : depthAfter (d + 1) b.closing = d := by
  have : d + 1 - 1 = d := by omega
  cases b <;> exact this

theorem isClosing_closing (b : Bracket) : isClosing b.closing = true := by cases b <;> rfl

theorem isClosing_opening (b : Bracket) : isClosing b.opening = false := by cases b <;> rfl

theorem opening_ne_semicolon (b : Bracket) : b.opening ≠ ';' := by cases b <;> decide

theorem closing_ne_semicolon (b : Bracket) : b.closing ≠ ';' := by cases b <;> decide

theorem isBlank_opening (b : Bracket) : isBlank b.opening = false := by cases b <;> rfl

theorem isBlank_closing (b : Bracket) : isBlank b.closing = false := by cases b <;> rfl

theorem closing_eq_brace_iff (b : Bracket) : b.closing = '}' ↔ b = .curly := by
  cases b <;> decide

end Bracket

end Modulize.Script
