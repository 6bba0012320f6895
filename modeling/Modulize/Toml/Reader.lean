import Modulize.Pattern.Notation
import Modulize.Toml.Statement

/-!
# Reading settings files

The text of a settings file is read statement by statement (`readStatements?`): headers in square
brackets, entries with bare, quoted and dotted keys, and values that are texts in several kinds of
quotes, numbers, points in time, flags, lists, or tables within braces. `read` gives the table
that the statements describe.
-/

namespace Modulize.Toml

open Pattern (one run run1 seq alt many optional literal oneOf nothing Match)

/-- Characters of a key without quotes. -/
def isBare (c : Char) : Bool := c.isAlphanum || c == '_' || c == '-'

/-- Control characters other than the tab, which may not stand in a text. -/
def isForbidden (c : Char) : Bool := (c.toNat < 0x20 && c ≠ '\t') || c.toNat = 0x7f

/-- Without the spaces and tabs at the beginning. -/
def skipSpaces (t : Text) : Text := t.dropWhile isSpaceOrTab

/-- Without a comment at the beginning; the line break stays. -/
def skipComment? (t : Text) : Option Text :=
  match t with
  | '#' :: r =>
    let comment := r.takeWhile (· != '\n')
    if comment.any isForbidden then none else some (r.drop comment.length)
  | r => some r

/-- Without spaces, tabs, line breaks and comments at the beginning. -/
def skipLines? : Nat → Text → Option Text
  | 0, t => some t
  | fuel + 1, t =>
    let t := t.dropWhile fun c => isSpaceOrTab c || c == '\n'
    match t with
    | '#' :: _ => (skipComment? t).bind (skipLines? fuel)
    | _ => some t

/-! ## Texts -/

/-- The character for an escape and what follows it. -/
def escape? (t : Text) : Option (Char × Text) :=
  let coded (n : Nat) (r : Text) : Option (Char × Text) :=
    if r.length < n then none
    else (Pattern.Notation.hexNumber? (r.take n)).bind fun v =>
      if v < 0xd800 ∨ (0xdfff < v ∧ v < 0x110000) then some (Char.ofNat v, r.drop n) else none
  match t with
  | 'b' :: r => some (Char.ofNat 8, r)
  | 't' :: r => some ('\t', r)
  | 'n' :: r => some ('\n', r)
  | 'f' :: r => some (Char.ofNat 12, r)
  | 'r' :: r => some ('\r', r)
  | '"' :: r => some ('"', r)
  | '\\' :: r => some ('\\', r)
  | 'u' :: r => coded 4 r
  | 'U' :: r => coded 8 r
  | _ => none

/-- Read a text on one line up to its double quote. -/
def basicText? : Nat → Text → Text → Option (Text × Text)
  | 0, _, _ => none
  | fuel + 1, acc, t =>
    match t with
    | [] => none
    | '"' :: r => some (acc.reverse, r)
    | '\\' :: r => (escape? r).bind fun (c, r) => basicText? fuel (c :: acc) r
    | c :: r => if isForbidden c then none else basicText? fuel (c :: acc) r

/-- The quotes at the end of a text on several lines: three close it, and up to two before these
belong to it. -/
def closingQuotes (quote : Char) (acc r : Text) : Text × Text :=
  match r with
  | a :: b :: r' =>
    if a = quote ∧ b = quote then ((quote :: quote :: acc).reverse, r')
    else if a = quote then ((quote :: acc).reverse, b :: r')
    else (acc.reverse, r)
  | [a] => if a = quote then ((quote :: acc).reverse, []) else (acc.reverse, r)
  | [] => (acc.reverse, [])

/-- A backslash at the end of a line joins it with the next one that is not blank. -/
def joinedLine? (t : Text) : Option Text :=
  match skipSpaces t with
  | '\n' :: r => some (r.dropWhile fun c => isSpaceOrTab c || c == '\n')
  | _ => none

/-- Read a text on several lines up to its three double quotes. -/
def basicLines? : Nat → Text → Text → Option (Text × Text)
  | 0, _, _ => none
  | fuel + 1, acc, t =>
    match t with
    | [] => none
    | '"' :: '"' :: '"' :: r => some (closingQuotes '"' acc r)
    | '\\' :: r =>
      match joinedLine? r with
      | some r => basicLines? fuel acc r
      | none => (escape? r).bind fun (c, r) => basicLines? fuel (c :: acc) r
    | c :: r => if isForbidden c ∧ c ≠ '\n' then none else basicLines? fuel (c :: acc) r

/-- Read a text without escapes on several lines up to its three single quotes. -/
def literalLines? : Text → Text → Option (Text × Text)
  | _, [] => none
  | acc, '\'' :: '\'' :: '\'' :: r => some (closingQuotes '\'' acc r)
  | acc, c :: r => if isForbidden c ∧ c ≠ '\n' then none else literalLines? (c :: acc) r

/-- Read a text without escapes up to its single quote. -/
def literalText? (t : Text) : Option (Text × Text) :=
  let content := t.takeWhile (· != '\'')
  if content.any isForbidden then none
  else match t.drop content.length with
    | [] => none
    | _ :: r => some (content, r)

/-- Without a line break at the very beginning. -/
def dropLineBreak (t : Text) : Text :=
  match t with
  | '\n' :: r => r
  | r => r

/-- Read a quoted text of any kind. -/
def quotedText? (t : Text) : Option (Text × Text) :=
  match t with
  | '"' :: '"' :: '"' :: r => basicLines? (r.length + 1) [] (dropLineBreak r)
  | '\'' :: '\'' :: '\'' :: r => literalLines? [] (dropLineBreak r)
  | '"' :: r => basicText? (r.length + 1) [] r
  | '\'' :: r => literalText? r
  | _ => none

/-! ## Keys -/

/-- Read one part of a key. -/
def keyPart? (t : Text) : Option (Text × Text) :=
  match t with
  | '"' :: r => basicText? (r.length + 1) [] r
  | '\'' :: r => literalText? r
  | _ =>
    match t.takeWhile isBare with
    | [] => none
    | part => some (part, t.drop part.length)

/-- Read a key with its dots. -/
def key? : Nat → Text → Option (List Text × Text)
  | 0, _ => none
  | fuel + 1, t =>
    (keyPart? t).bind fun (part, r) =>
      match skipSpaces r with
      | '.' :: r => (key? fuel (skipSpaces r)).map fun (parts, r) => (part :: parts, r)
      | r => some ([part], r)

/-! ## Numbers and points in time -/

/-- Digits of a class, which may be grouped by single underscores. -/
def groupedDigits (first rest : Char → Bool) : Pattern :=
  one first ++ many (optional (one (· == '_')) ++ one rest) none true

/-- A number in another base; group 1 is the mark of the base, group 2 the digits. -/
def basedNumber : Pattern :=
  let based (mark : Char) (p : Char → Bool) : Pattern :=
    Pattern.group 1 (one (· == mark)) ++ Pattern.group 2 (groupedDigits p p)
  one (· == '0') ++
    oneOf [based 'x' fun c => c.isDigit || ('a' ≤ c && c ≤ 'f') || ('A' ≤ c && c ≤ 'F'),
      based 'b' fun c => c == '0' || c == '1', based 'o' fun c => '0' ≤ c && c ≤ '7']

/-- A sign. -/
def sign : Pattern := one fun c => c == '+' || c == '-'

/-- A decimal number; group 1 is the whole part, group 2 the fraction and the exponent. -/
def decimalNumber : Pattern :=
  let digits := groupedDigits Char.isDigit Char.isDigit
  Pattern.group 1 (optional sign ++
    (one (· == '0') <|> groupedDigits (fun c => '1' ≤ c && c ≤ '9') Char.isDigit)) ++
    Pattern.group 2 (optional (one (· == '.') ++ digits) ++
      optional (one (fun c => c == 'e' || c == 'E') ++ optional sign ++ digits))

/-- Two digits, the first from `lo` to `hi` and the second any. -/
def twoDigits (lo hi : Char) : Pattern := one (fun c => lo ≤ c && c ≤ hi) ++ one Char.isDigit

/-- An hour. -/
def hour : Pattern := twoDigits '0' '1' <|> (one (· == '2') ++ one fun c => '0' ≤ c && c ≤ '3')

/-- A minute or a second. -/
def minute : Pattern := twoDigits '0' '5'

/-- A time of day. -/
def clockTime : Pattern :=
  hour ++ one (· == ':') ++ minute ++ one (· == ':') ++ minute ++
    optional (one (· == '.') ++ run1 Char.isDigit)

/-- A date; groups 1, 2 and 3 are the year, the month and the day. -/
def calendarDate : Pattern :=
  let nonzero : Pattern := one (· == '0') ++ one fun c => '1' ≤ c && c ≤ '9'
  Pattern.group 1 (twoDigits '0' '9' ++ twoDigits '0' '9') ++ one (· == '-') ++
    Pattern.group 2 (nonzero <|> (one (· == '1') ++ one fun c => '0' ≤ c && c ≤ '2')) ++
    one (· == '-') ++
    Pattern.group 3 (oneOf [nonzero, twoDigits '1' '2', one (· == '3') ++
      one fun c => c == '0' || c == '1'])

/-- A date, perhaps with a time of day and an offset; group 4 is what stands behind the date. -/
def calendarTime : Pattern :=
  let offset : Pattern := one (fun c => c == 'Z' || c == 'z') <|>
    (sign ++ hour ++ one (· == ':') ++ minute)
  calendarDate ++ optional (Pattern.group 4
    (one (fun c => c == 'T' || c == 't' || c == ' ') ++ clockTime ++ optional offset))

/-- The number of days of a month. -/
def daysIn (year month : Nat) : Nat :=
  if month = 2 then if year % 4 = 0 ∧ (year % 100 ≠ 0 ∨ year % 400 = 0) then 29 else 28
  else if month ∈ [4, 6, 9, 11] then 30
  else 31

/-- There is such a day in the calendar, which begins with the year one. -/
def isDay (year month day : Nat) : Bool := 1 ≤ year && day ≤ daysIn year month

/-- The value of digits in a base. -/
def ofDigits (base : Nat) (ds : Text) : Nat :=
  (ds.filter (· ≠ '_')).foldl (fun n d => n * base + ((Pattern.Notation.hexValue? d).getD 0)) 0

/-- The whole number that a text with a sign writes. -/
def signedNumber (t : Text) : Int :=
  match t with
  | '-' :: r => -(Int.ofNat (ofDigits 10 r))
  | '+' :: r => Int.ofNat (ofDigits 10 r)
  | r => Int.ofNat (ofDigits 10 r)

/-- Read a point in time that begins with a date. Nothing results for a day that there is not. -/
def moment? (m : Match) : Option (Value × Text) :=
  let kind : MomentKind := if (m.group? 4).isSome then .dateTime else .date
  if isDay (ofDigits 10 (m.groupText 1)) (ofDigits 10 (m.groupText 2))
      (ofDigits 10 (m.groupText 3)) then
    some (.moment kind m.text, m.stop.rest)
  else none

/-- Read a number. -/
def number? (t : Text) : Option (Value × Text) :=
  let c := Cursor.start t
  match basedNumber.matchAt? c with
  | some m =>
    let base := if m.groupText 1 = "x" then 16 else if m.groupText 1 = "b" then 2 else 8
    some (.number (ofDigits base (m.groupText 2)), m.stop.rest)
  | none =>
    match decimalNumber.matchAt? c with
    | some m =>
      if (m.groupText 2).isEmpty then some (.number (signedNumber (m.groupText 1)), m.stop.rest)
      else some (.real m.text, m.stop.rest)
    | none =>
      ((optional sign ++ oneOf [literal "inf", literal "nan"]).matchAt? c).map fun m =>
        (.real m.text, m.stop.rest)

/-- Read a number or a point in time. -/
def numberOrMoment? (t : Text) : Option (Value × Text) :=
  let c := Cursor.start t
  match calendarTime.matchAt? c, clockTime.matchAt? c with
  | some m, _ => moment? m
  | none, some m => some (.moment .time m.text, m.stop.rest)
  | none, none => number? t

/-! ## Values -/

mutual

/-- Read a value. -/
def value? : Nat → Text → Option (Value × Text)
  | 0, _ => none
  | fuel + 1, t =>
    match t with
    | '"' :: _ | '\'' :: _ => (quotedText? t).map fun (s, r) => (.text s, r)
    | 't' :: 'r' :: 'u' :: 'e' :: r => some (.flag true, r)
    | 'f' :: 'a' :: 'l' :: 's' :: 'e' :: r => some (.flag false, r)
    | '[' :: r => (members? fuel [] r).map fun (vs, r) => (.list vs, r)
    | '{' :: r =>
      match skipSpaces r with
      | '}' :: r => some (.table [], r)
      | r => (inline? fuel ([], []) r).map fun (t, r) => (.table t, r)
    | _ => numberOrMoment? t

/-- Read the members of a list up to its closing bracket. -/
def members? : Nat → List Value → Text → Option (List Value × Text)
  | 0, _, _ => none
  | fuel + 1, acc, t =>
    match skipLines? (t.length + 1) t with
    | none => none
    | some (']' :: r) => some (acc.reverse, r)
    | some t =>
      match value? fuel t with
      | none => none
      | some (v, r) =>
        match skipLines? (r.length + 1) r with
        | some (',' :: r) => members? fuel (v :: acc) r
        | some (']' :: r) => some ((v :: acc).reverse, r)
        | _ => none

/-- Read the entries of a table up to its closing brace. -/
def inline? : Nat → Table × List (List Text) → Text → Option (Table × Text)
  | 0, _, _ => none
  | fuel + 1, acc, t =>
    match key? (t.length + 1) (skipSpaces t) with
    | some (keys, '=' :: r) =>
      match value? fuel (skipSpaces r) with
      | none => none
      | some (v, r) =>
        match addInline acc keys v with
        | none => none
        | some acc =>
          match skipSpaces r with
          | '}' :: r => some (acc.1, r)
          | ',' :: r => inline? fuel acc r
          | _ => none
    | _ => none

end

/-! ## Statements -/

/-- Read a statement. -/
def statement? (t : Text) : Option (Statement × Text) :=
  match t with
  | '[' :: '[' :: r =>
    match key? (r.length + 1) (skipSpaces r) with
    | some (keys, ']' :: ']' :: r) => some (.arrayHeader keys, r)
    | _ => none
  | '[' :: r =>
    match key? (r.length + 1) (skipSpaces r) with
    | some (keys, ']' :: r) => some (.header keys, r)
    | _ => none
  | _ =>
    match key? (t.length + 1) t with
    | some (keys, '=' :: r) =>
      (value? (2 * r.length + 2) (skipSpaces r)).map fun (v, r) => (.entry keys v, r)
    | _ => none

/-- Read statements, each followed by the end of its line. -/
def statements? : Nat → Text → Option (List Statement)
  | 0, _ => none
  | fuel + 1, t =>
    match skipLines? (t.length + 1) t with
    | none => none
    | some [] => some []
    | some t =>
      match statement? t with
      | none => none
      | some (s, r) =>
        match skipComment? (skipSpaces r) with
        | some [] => some [s]
        | some ('\n' :: r) => (statements? fuel r).map (s :: ·)
        | _ => none

/-- Line breaks of two characters become line breaks of one. -/
def unifyLineBreaks : Text → Text
  | [] => []
  | '\r' :: '\n' :: r => '\n' :: unifyLineBreaks r
  | c :: r => c :: unifyLineBreaks r

/-- The table that a settings file describes. -/
def read (t : Text) : Except Failure Table :=
  let t := unifyLineBreaks t
  match (statements? (t.length + 1) t).bind meaning? with
  | some table => .ok table
  | none => .error .malformedSettings

end Modulize.Toml
