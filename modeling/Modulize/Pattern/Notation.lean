import Modulize.Failure
import Modulize.Pattern.Basic

/-!
# Written patterns

Patches may search for a pattern that is written in the customary notation: characters stand for
themselves; `.` is any character but a line break; classes are written in square brackets or by
`\d`, `\w`, `\s` and their opposites; `^`, `$`, `\b`, `\B`, `\A` and `\Z` are places; parentheses
make groups, named groups, comments and looks ahead or behind; a backslash with a number is the
text of a group once more; `|` separates choices; and `*`, `+`, `?` and counts in braces repeat what
stands before them, lazily when a question mark follows and without second thoughts when a plus
does. A look behind has to be at a fixed number of characters (`widths`).
`Notation.read` turns such a text into a pattern. `^` and `$` are the beginning and the end of any
line.
-/

namespace Modulize.Pattern

/-- A pattern that was written, the number of its groups, and the numbers of the named ones. -/
structure Written where
  pattern : Pattern
  groups : Nat
  names : List (Text × Nat)

namespace Notation

/-- The groups that have been opened so far, and those that have been closed. -/
structure Groups where
  count : Nat
  names : List (Text × Nat)
  closed : List Nat

/-- The value of a hexadecimal digit. -/
def hexValue? (c : Char) : Option Nat :=
  if c.isDigit then some (c.toNat - 48)
  else if 'a' ≤ c ∧ c ≤ 'f' then some (c.toNat - 87)
  else if 'A' ≤ c ∧ c ≤ 'F' then some (c.toNat - 55)
  else none

/-- The number that hexadecimal digits write. -/
def hexNumber? (ds : Text) : Option Nat :=
  ds.foldl (fun n d => n.bind fun n => (hexValue? d).map (n * 16 + ·)) (some 0)

/-- The number that decimal digits write. -/
def decimal (ds : Text) : Nat := ds.foldl (fun n d => n * 10 + (d.toNat - 48)) 0

/-- Octal digits. -/
def isOctal (c : Char) : Bool := '0' ≤ c && c ≤ '7'

/-- The number that octal digits write. -/
def octal (ds : Text) : Nat := ds.foldl (fun n d => n * 8 + (d.toNat - 48)) 0

/-- The character that an escape with a letter writes, inside and outside of classes. -/
def letterEscape? (c : Char) : Option Char :=
  match c with
  | 'a' => some (Char.ofNat 7)
  | 'f' => some (Char.ofNat 12)
  | 'n' => some '\n'
  | 'r' => some '\r'
  | 't' => some '\t'
  | 'v' => some (Char.ofNat 11)
  | _ => none

/-- The class that an escape with a letter writes. -/
def classEscape? (c : Char) : Option (Char → Bool) :=
  match c with
  | 'd' => some isDecimal
  | 'D' => some (! isDecimal ·)
  | 's' => some isBlank
  | 'S' => some (! isBlank ·)
  | 'w' => some isWord
  | 'W' => some (! isWord ·)
  | _ => none

/-- The place that an escape with a letter writes. An empty text has no place inside or outside a
word. -/
def placeEscape? (c : Char) : Option Pattern :=
  match c with
  | 'A' => some textStart
  | 'Z' => some (place fun _ rest => rest.isEmpty)
  | 'b' => some wordEdge
  | 'B' => some (place (fun before rest => before.isSome || ! rest.isEmpty) ++
      ahead wordEdge false)
  | _ => none

/-- A character that an escape writes by its code, and what follows it. -/
def codeEscape? (c : Char) (r : Text) : Option (Char × Text) :=
  let coded (n : Nat) : Option (Char × Text) :=
    if r.length < n then none else (hexNumber? (r.take n)).map fun v => (Char.ofNat v, r.drop n)
  match c with
  | 'x' => coded 2
  | 'u' => coded 4
  | 'U' => coded 8
  | '0' =>
    let ds := (r.take 2).takeWhile isOctal
    some (Char.ofNat (octal ds), r.drop ds.length)
  | _ => none

/-- A character that an escape writes: by its code, by a letter, or as itself. Other letters and
digits are refused. -/
def charEscape? (c : Char) (r : Text) : Option (Char × Text) :=
  match codeEscape? c r with
  | some found => some found
  | none =>
    match letterEscape? c with
    | some d => some (d, r)
    | none => if c.isAlphanum then none else some (c, r)

/-- A member of a class in brackets: one character or a class of its own. -/
inductive ClassMember
  | char (c : Char)
  | set (p : Char → Bool)

/-- A character belongs to a member of a class. -/
def ClassMember.has : ClassMember → Char → Bool
  | .char d, c => c == d
  | .set p, c => p c

/-- Read a character that is written by up to three octal digits. -/
def octalEscape? (t : Text) : Option (Char × Text) :=
  let ds := (t.take 3).takeWhile isOctal
  if octal ds ≤ 255 then some (Char.ofNat (octal ds), t.drop ds.length) else none

/-- Read a member of a class in brackets. -/
def classMember? : Text → Option (ClassMember × Text)
  | [] => none
  | '\\' :: c :: r =>
    if c = 'b' then some (.char (Char.ofNat 8), r)
    else if isOctal c then (octalEscape? (c :: r)).map fun (d, r) => (.char d, r)
    else
      match classEscape? c with
      | some p => some (.set p, r)
      | none => (charEscape? c r).map fun (d, r) => (.char d, r)
  | ['\\'] => none
  | c :: r => some (.char c, r)

/-- Read the members of a class in brackets up to the closing one; a closing bracket at the
beginning is a member. -/
def classBody? : Nat → Bool → (Char → Bool) → Text → Option ((Char → Bool) × Text)
  | 0, _, _, _ => none
  | fuel + 1, first, p, t =>
    match t, first with
    | ']' :: r, false => some (p, r)
    | t, _ =>
      match classMember? t with
      | none => none
      | some (m, '-' :: ']' :: r) => some (fun c => p c || m.has c || c == '-', r)
      | some (m, '-' :: r) =>
        match m, classMember? r with
        | .char lo, some (.char hi, r) =>
          if hi < lo then none
          else classBody? fuel false (fun c => p c || (lo ≤ c && c ≤ hi)) r
        | _, _ => none
      | some (m, r) => classBody? fuel false (fun c => p c || m.has c) r

/-- Read a class in brackets, behind the opening one. -/
def bracketClass? (t : Text) : Option ((Char → Bool) × Text) :=
  match t with
  | '^' :: r =>
    (classBody? (r.length + 1) true (fun _ => false) r).map fun (p, r) => (fun c => !p c, r)
  | r => classBody? (r.length + 1) true (fun _ => false) r

/-- How often something is repeated: at least, and at most if there is a limit. -/
structure Count where
  least : Nat
  most : Option Nat

/-- Read a count in braces, behind the opening one; anything else is no count. -/
def bracedCount? (t : Text) : Option (Count × Text) :=
  let lo := t.takeWhile Char.isDigit
  match t.drop lo.length with
  | '}' :: r => if lo.isEmpty then none else some (⟨decimal lo, some (decimal lo)⟩, r)
  | ',' :: r =>
    let hi := r.takeWhile Char.isDigit
    match r.drop hi.length with
    | '}' :: r' => some (⟨decimal lo, if hi.isEmpty then none else some (decimal hi)⟩, r')
    | _ => none
  | _ => none

/-- Read a count. -/
def count? (t : Text) : Option (Count × Text) :=
  match t with
  | '*' :: r => some (⟨0, none⟩, r)
  | '+' :: r => some (⟨1, none⟩, r)
  | '?' :: r => some (⟨0, some 1⟩, r)
  | '{' :: r => bracedCount? r
  | _ => none

/-- How a repetition is read: as long as possible, as short as possible, or as long as possible
and in no other way. -/
inductive Manner
  | greedy
  | lazy
  | firm
  deriving DecidableEq

/-- A pattern any number of times or up to a limit. -/
def upTo (r : Pattern) (most : Option Nat) (greedy : Bool) : Pattern :=
  match r, most with
  | one p, none => span (fun c _ => p c) greedy
  | r, most => many r most greedy

/-- A pattern repeated as often as a count says. -/
def repeated (r : Pattern) (c : Count) (manner : Manner) : Pattern :=
  let tail := upTo r (c.most.map (· - c.least)) (manner ≠ .lazy)
  (List.replicate c.least r).foldr seq tail

/-- A pattern repeated as often as a count says, in a manner. -/
def repeatedIn (r : Pattern) (c : Count) (manner : Manner) : Pattern :=
  if manner = .firm then once (repeated (once r) c manner) else repeated r c manner

/-- The least and the greatest number of characters that a pattern reads, the latter unless there
is no limit to it. Nothing results for the text of a group once more. -/
def widths : Pattern → Option (Nat × Option Nat)
  | nothing | place _ | ahead .. | behind .. => some (0, some 0)
  | one _ => some (1, some 1)
  | span .. => some (0, none)
  | seq a b => do
    let (least, most) ← widths a
    let (least', most') ← widths b
    pure (least + least', most.bind fun m => most'.map (m + ·))
  | alt a b => do
    let (least, most) ← widths a
    let (least', most') ← widths b
    pure (min least least', most.bind fun m => most'.map (max m))
  | many body limit _ => do
    let (_, most) ← widths body
    pure (0, if most = some 0 then some 0 else most.bind fun m => limit.map (m * ·))
  | group _ body | once body => widths body
  | again _ => none

/-- Something that can be repeated, or a place, which cannot. -/
structure Piece where
  pattern : Pattern
  isPlace : Bool

/-- Read what may follow a backslash outside of brackets. -/
def escape? : Text → Option (Piece × Text)
  | [] => none
  | c :: r =>
    match placeEscape? c, classEscape? c with
    | some p, _ => some (⟨p, true⟩, r)
    | none, some p => some (⟨one p, false⟩, r)
    | none, none => (charEscape? c r).map fun (d, r) => (⟨one (· == d), false⟩, r)

/-- A text that can be the name of a group. -/
def isName : Text → Bool
  | [] => false
  | c :: r => isNameStart c && r.all isNamePart

/-- Read the name of a group up to the character that closes it. -/
def groupName? (closing : Char) (t : Text) : Option (Text × Text) :=
  let name := t.takeWhile (· != closing)
  if name.length < t.length ∧ isName name then some (name, t.drop (name.length + 1)) else none

/-- The text of a group that has been closed, once more. -/
def reference? (g : Groups) (i : Nat) : Option Piece :=
  if i ∈ g.closed then some ⟨again i, false⟩ else none

/-- Read a number behind a backslash: three octal digits write a character, else the first two
digits are a group. -/
def numberEscape? (g : Groups) (t : Text) : Option (Piece × Text) :=
  let three := (t.take 3).takeWhile isOctal
  if three.length = 3 then
    (octalEscape? t).map fun (d, r) => (⟨one (· == d), false⟩, r)
  else
    let two := (t.take 2).takeWhile Char.isDigit
    (reference? g (decimal two)).map fun p => (p, t.drop two.length)

/-- What an opening parenthesis begins: a group (with its number), a pattern that is only kept
together or is read in one way only, or a look at the text around. -/
inductive Opening
  | numbered (i : Nat)
  | plain
  | firm
  | lookAhead (wanted : Bool)
  | lookBehind (wanted : Bool)

/-- Read what follows an opening parenthesis. -/
def opening? (g : Groups) (t : Text) : Option (Opening × Groups × Text) :=
  match t with
  | '?' :: ':' :: r => some (.plain, g, r)
  | '?' :: '>' :: r => some (.firm, g, r)
  | '?' :: '=' :: r => some (.lookAhead true, g, r)
  | '?' :: '!' :: r => some (.lookAhead false, g, r)
  | '?' :: '<' :: '=' :: r => some (.lookBehind true, g, r)
  | '?' :: '<' :: '!' :: r => some (.lookBehind false, g, r)
  | '?' :: 'P' :: '<' :: r =>
    match groupName? '>' r with
    | none => none
    | some (name, r) =>
      if (lookup? name g.names).isSome then none
      else
        let i := g.count + 1
        some (.numbered i, { g with count := i, names := (name, i) :: g.names }, r)
  | '?' :: _ => none
  | r => some (.numbered (g.count + 1), { g with count := g.count + 1 }, r)

/-- Close a parenthesis around a pattern. -/
def close? (o : Opening) (r : Pattern) : Option Piece :=
  match o with
  | .numbered i => some ⟨group i r, false⟩
  | .plain => some ⟨r, false⟩
  | .firm => some ⟨once r, false⟩
  | .lookAhead wanted => some ⟨ahead r wanted, false⟩
  | .lookBehind wanted =>
    match widths r with
    | some (least, some most) =>
      if least = most then some ⟨behind least r wanted, false⟩ else none
    | _ => none

/-- The groups after a parenthesis has been closed. -/
def Groups.close (g : Groups) : Opening → Groups
  | .numbered i => { g with closed := i :: g.closed }
  | _ => g

/-- Without comments at the beginning, each in parentheses behind a question mark and a hash
sign. -/
def skipNotes? : Nat → Text → Option Text
  | fuel + 1, '(' :: '?' :: '#' :: r =>
    match r.dropWhile (· != ')') with
    | [] => none
    | _ :: r => skipNotes? fuel r
  | _, t => some t

/-- Read the counts behind a piece: at most one, with a question mark if it is lazy or a plus if
it is firm. -/
def counted? (p : Piece) (t : Text) : Option (Pattern × Text) := do
  let t ← skipNotes? t.length t
  match count? t with
  | none => pure (p.pattern, t)
  | some (c, r) =>
    if p.isPlace || c.most.any (· < c.least) then none
    else
      let (manner, r) : Manner × Text := match r with
        | '?' :: r => (.lazy, r)
        | '+' :: r => (.firm, r)
        | r => (.greedy, r)
      let r ← skipNotes? r.length r
      if (count? r).isSome then none else pure (repeatedIn p.pattern c manner, r)

/-- What follows ends a row of pieces. -/
def endsRow : Text → Bool
  | [] | '|' :: _ | ')' :: _ => true
  | _ => false

mutual

/-- Read choices up to a closing parenthesis or the end. -/
def choices? : Nat → Groups → Text → Option (Pattern × Groups × Text)
  | 0, _, _ => none
  | fuel + 1, g, t =>
    match row? fuel g t with
    | some (a, g, '|' :: r) =>
      (choices? fuel g r).map fun (b, g, r) => (alt a b, g, r)
    | other => other

/-- Read pieces one after another, up to a bar, a closing parenthesis or the end. -/
def row? : Nat → Groups → Text → Option (Pattern × Groups × Text)
  | 0, _, _ => none
  | fuel + 1, g, t =>
    match skipNotes? t.length t with
    | none => none
    | some t =>
      if endsRow t then some (nothing, g, t)
      else
        match piece? fuel g t with
        | none => none
        | some (p, g, r) =>
          match counted? p r with
          | none => none
          | some (a, r) =>
            (row? fuel g r).map fun (b, g, r) =>
              (match b with | nothing => a | b => seq a b, g, r)

/-- Read one piece. -/
def piece? : Nat → Groups → Text → Option (Piece × Groups × Text)
  | 0, _, _ => none
  | fuel + 1, g, t =>
    match t with
    | [] => none
    | '.' :: r => some (⟨one (· != '\n'), false⟩, g, r)
    | '^' :: r => some (⟨lineStart, true⟩, g, r)
    | '$' :: r => some (⟨lineEnd, true⟩, g, r)
    | '\\' :: c :: r =>
      let escaped := if c.isDigit ∧ c ≠ '0' then numberEscape? g (c :: r) else escape? (c :: r)
      escaped.map fun (p, r) => (p, g, r)
    | ['\\'] => none
    | '[' :: r => (bracketClass? r).map fun (p, r) => (⟨one p, false⟩, g, r)
    | '(' :: '?' :: 'P' :: '=' :: r => do
      let (name, r) ← groupName? ')' r
      let p ← reference? g (← lookup? name g.names)
      pure (p, g, r)
    | '(' :: r =>
      match opening? g r with
      | none => none
      | some (o, g, r) =>
        match choices? fuel g r with
        | some (a, g, ')' :: r) => (close? o a).map fun p => (p, g.close o, r)
        | _ => none
    | c :: r =>
      if (count? t).isSome then none else some (⟨one (· == c), false⟩, g, r)

end

/-- The pattern that a text writes. -/
def read (t : Text) : Except Failure Written :=
  match choices? (3 * t.length + 3) ⟨0, [], []⟩ t with
  | some (p, g, []) => .ok ⟨p, g.count, g.names⟩
  | _ => .error .badPattern

end Notation

end Modulize.Pattern
