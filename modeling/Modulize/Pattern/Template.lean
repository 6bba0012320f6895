import Modulize.Pattern.Notation
import Modulize.Text.Number

/-!
# Replacement templates

What a patch puts in place of a match is a text in which a backslash with a number, or with a name
or number in angle brackets, stands for the text of a group. `Template.read` checks that the
groups exist; `Template.fill` writes the text for a match, with nothing for a group that took no
part in it.
-/

namespace Modulize.Pattern.Template

open Notation

/-- A piece of a template. -/
inductive Piece
  | char (c : Char)
  | group (i : Nat)
  deriving DecidableEq, Repr

/-- The group that a text in angle brackets refers to, by its name or by its number. -/
def groupNumber (w : Written) (name : Text) : Except Failure Nat :=
  if isName name then
    match lookup? name w.names with
    | some i => .ok i
    | none => .error (.unknownGroup name)
  else
    match Text.wholeNumber? name with
    | some (.ofNat i) => if i ≤ w.groups then .ok i else .error .badPattern
    | _ => .error .badPattern

/-- Read a reference in angle brackets, behind the opening one: the group and the number of
characters taken. A backslash at the very end is noticed while the bracket is closed. -/
def named (w : Written) (t : Text) : Except Failure (Piece × Nat) :=
  let name := t.takeWhile (· != '>')
  if name.length = t.length || t.drop (name.length + 1) = ['\\'] then .error .badPattern
  else (groupNumber w name).map fun i => (.group i, name.length + 1)

/-- Read a reference by number, behind the backslash: three octal digits write a character, else
the first two digits are a group. -/
def numbered? (w : Written) (ds : Text) : Option (Piece × Nat) :=
  let three := (ds.take 3).takeWhile isOctal
  if three.length = 3 then
    if octal three ≤ 255 then some (.char (Char.ofNat (octal three)), 3) else none
  else
    let two := (ds.take 2).takeWhile Char.isDigit
    if decimal two ≤ w.groups then some (.group (decimal two), two.length) else none

/-- Read an escape that is no reference in angle brackets: the pieces it writes and the number of
characters taken. -/
def escape? (w : Written) (t : Text) : Option (List Piece × Nat) :=
  match t with
  | [] => none
  | '0' :: r =>
    let ds := (r.take 2).takeWhile isOctal
    some ([.char (Char.ofNat (octal ds % 256))], ds.length + 1)
  | c :: r =>
    if c.isDigit then (numbered? w (c :: r)).map fun (p, n) => ([p], n)
    else if c = '\\' then some ([.char '\\'], 1)
    else if c = 'b' then some ([.char (Char.ofNat 8)], 1)
    else
      match letterEscape? c with
      | some d => some ([.char d], 1)
      | none => if c.isAlpha then none else some ([.char '\\', .char c], 1)

/-- Read what follows a backslash: the pieces it writes and the number of characters taken. -/
def escape (w : Written) (t : Text) : Except Failure (List Piece × Nat) :=
  match t with
  | 'g' :: '<' :: r => (named w r).map fun (p, n) => ([p], n + 2)
  | t =>
    match escape? w t with
    | some found => .ok found
    | none => .error .badPattern

/-- Read a template; the first `skip` characters belong to an escape that has been read. -/
def pieces (w : Written) : Nat → Text → Except Failure (List Piece)
  | _, [] => .ok []
  | skip + 1, _ :: r => pieces w skip r
  | 0, '\\' :: r =>
    match escape w r with
    | .error f => .error f
    | .ok (ps, n) => (pieces w n r).map (ps ++ ·)
  | 0, c :: r => (pieces w 0 r).map (.char c :: ·)

/-- Read a template for a written pattern. -/
def read (w : Written) (t : Text) : Except Failure (List Piece) := pieces w 0 t

/-- The text of a template for a match. -/
def fill (ps : List Piece) (m : Match) : Text :=
  ps.flatMap fun
    | .char c => [c]
    | .group 0 => m.text
    | .group i => m.groupText i

/-- The text of a template that is filled where nothing has been matched and no groups are. -/
def constant (t : Text) : Except Failure Text :=
  (read ⟨nothing, 0, []⟩ t).map fun ps => fill ps ⟨Cursor.start [], Cursor.start []⟩

end Modulize.Pattern.Template
