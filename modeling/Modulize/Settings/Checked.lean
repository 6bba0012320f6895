import Modulize.Failure
import Modulize.Settings.Real
import Modulize.Settings.Value

/-!
# Checking values

A check turns a value into something typed, or lists all that is wrong with it (`Checked`). Checks
of the fields of a section are put together with `Checked.ap`, which keeps the issues of both
sides in the order of the fields. Some values are read in more than one way: flags also from
words and from zero and one, numbers also from digits.
-/

namespace Modulize

/-- A checked value, or the issues in their order. -/
abbrev Checked (α : Type) := Except (List Issue) α

namespace Checked

/-- A check that finds nothing wrong. -/
def done {α : Type} (a : α) : Checked α := .ok a

/-- Put two checks together and keep the issues of both. -/
def ap {α β : Type} (f : Checked (α → β)) (x : Checked α) : Checked β :=
  match f, x with
  | .ok f, .ok a => .ok (f a)
  | .ok _, .error is => .error is
  | .error is, .ok _ => .error is
  | .error is, .error js => .error (is ++ js)

/-- A single issue at the place itself. -/
def issue {α : Type} (kind : IssueKind) : Checked α := .error [⟨[], kind⟩]

/-- The same check, one step further down. -/
def under {α : Type} (step : LocStep) (x : Checked α) : Checked α :=
  match x with
  | .ok a => .ok a
  | .error is => .error (is.map fun i => { i with loc := step :: i.loc })

/-- Check the members of a list, numbered from `n` on. -/
def each {α : Type} (check : Value → Checked α) : Nat → List Value → Checked (List α)
  | _, [] => .ok []
  | n, v :: vs =>
    ap ((under (.index n) (check v)).map fun a as => a :: as) (each check (n + 1) vs)

/-! ## Values of one kind -/

/-- The blanks that are taken away around a text that is read. -/
def isTrimmed (c : Char) : Bool := isBlank c && !(0x1c ≤ c.toNat && c.toNat ≤ 0x1f)

/-- The text without the blanks around it. -/
def trimmed (t : Text) : Text := Text.dropEndWhile isTrimmed (t.dropWhile isTrimmed)

/-- A text as it stands. -/
def text : Value → Checked Text
  | .text t => .ok t
  | _ => issue .notText

/-- A text without the blanks around it. -/
def trimmedText (v : Value) : Checked Text := (text v).map trimmed

/-- A text without the blanks around it, and not empty then. -/
def visibleText (v : Value) : Checked Text :=
  match trimmedText v with
  | .ok [] => issue .tooShort
  | checked => checked

/-- A path, or nothing. -/
def path : Value → Checked (Option Path)
  | .null => .ok none
  | .text t => .ok (some (Path.parse (trimmed t)))
  | _ => issue .notPath

/-- Words for a flag. -/
def flagWords : List (Text × Bool) :=
  [("0", false), ("off", false), ("f", false), ("false", false), ("n", false), ("no", false),
   ("1", true), ("on", true), ("t", true), ("true", true), ("y", true), ("yes", true)]

/-- A bound for the numbers that can be read as flags or from fractions. -/
def smallBound : Int := Int.pow 2 63

/-- A flag. -/
def flag : Value → Checked Bool
  | .flag b => .ok b
  | .number n => small (-smallBound ≤ n && n < smallBound) n
  | .text t =>
    match lookup? (t.map Char.toLower) flagWords with
    | some b => .ok b
    | none => issue .unreadableFlag
  | .real t =>
    match RealValue.read t with
    | .whole n => small (-smallBound < n && n < smallBound) n
    | _ => issue .notFlag
  | _ => issue .notFlag
where
  /-- The flag that a number stands for, if it is small enough for that. -/
  small (isSmall : Bool) (n : Int) : Checked Bool :=
    if n = 0 then .ok false
    else if n = 1 then .ok true
    else if isSmall then issue .unreadableFlag
    else issue .notFlag

/-- A written number without the zeros in front of it, as far as zeros and underscores may stand
there. -/
def dropLeadingZeros? (t : Text) : Option Text :=
  match t with
  | '0' :: _ =>
    let zeros := t.takeWhile fun c => c = '0' ∨ c = '_'
    match t.drop zeros.length with
    | [] => some (zeros.drop (zeros.length - 1))
    | '.' :: _ => some (t.drop (zeros.length - 1))
    | c :: _ => if c.isDigit then some (t.drop zeros.length) else none
  | '-' :: _ => some t
  | c :: _ => if c.isDigit then some t else none
  | [] => none

/-- A written number without a fraction of zeros only. -/
def dropZeroFraction (t : Text) : Text :=
  match Text.cut? ['.'] t with
  | some (whole, fraction) => if fraction ≠ [] ∧ fraction.all (· == '0') then whole else t
  | none => t

/-- The digits of a whole number: a single zero, or digits without a zero in front. -/
def isDigits (t : Text) : Bool :=
  t = ['0'] || (t.head?.any (· ≠ '0') && t.all Char.isDigit)

/-- The greatest number of digits that are read. -/
def digitLimit : Nat := 4300

/-- The number that a text writes: blanks around it, a plus sign and zeros in front of it, a
fraction of zeros, and single underscores within it do not count. -/
def numberOfText (t : Text) : Checked Int :=
  let unsigned : Option Text := match trimmed t with
    | '+' :: '-' :: _ => none
    | '+' :: r => some r
    | r => some r
  match (unsigned.bind dropLeadingZeros?).map dropZeroFraction with
  | none => issue .unreadableNumber
  | some t =>
    let (isNegative, digits) : Bool × Text := match t.filter (· ≠ '_') with
      | '-' :: r => (true, r)
      | r => (false, r)
    if (Text.splitOn '_' t).any List.isEmpty || !isDigits digits then issue .unreadableNumber
    else if digitLimit < digits.length then issue .hugeNumber
    else
      let n : Int := Text.ofDigits digits
      .ok (if isNegative then -n else n)

/-- A number. -/
def number : Value → Checked Int
  | .number n => .ok n
  | .flag b => .ok (if b then 1 else 0)
  | .real t =>
    match RealValue.read t with
    | .whole n => if -smallBound < n ∧ n < smallBound then .ok n else issue .hugeNumber
    | .fractional => issue .fractionalNumber
    | .notFinite => issue .infiniteNumber
  | .text t => numberOfText t
  | _ => issue .notNumber

/-- A number that is at least one. -/
def positive (v : Value) : Checked Nat :=
  match number v with
  | .ok n => if n < 1 then issue .tooSmall else .ok n.toNat
  | .error is => .error is

/-- A list of what `check` reads. -/
def list {α : Type} (check : Value → Checked α) : Value → Checked (List α)
  | .list vs => each check 0 vs
  | _ => issue .notList

/-- Where an entry under a key stands. -/
def keyStep : Value → LocStep
  | .text t => .field t
  | .number n => if -smallBound ≤ n ∧ n < smallBound then .index n else .field (Text.ofInt n)
  | .flag b => .index (if b then 1 else 0)
  | .real t | .moment _ t => .field t
  | _ => .field "None"

/-- A key, which has to be a text. -/
def key (k : Value) : Checked Text := under (.field "[key]") (text k)

/-- A table whose entries are what `check` reads. -/
def table {α : Type} (check : Value → Checked α) : Value → Checked (List (Text × α))
  | .table entries => go (entries.map fun (k, v) => (.text k, v))
  | .pairs entries => go entries
  | _ => issue .notTable
where
  /-- Check the entries one after another. -/
  go : List (Value × Value) → Checked (List (Text × α))
    | [] => .ok []
    | (k, v) :: rest =>
      let entry := ((done Prod.mk).ap (key k)).ap (check v)
      ap ((under (keyStep k) entry).map List.cons) (go rest)

/-- A further condition on what was read. -/
def refine {α β : Type} (x : Checked α) (f : α → Except Text β) : Checked β :=
  match x with
  | .error is => .error is
  | .ok a =>
    match f a with
    | .ok b => .ok b
    | .error reason => issue (.rejected reason)

/-! ## Fields -/

/-- The field of a section, or the value it has when nothing is said. -/
def field {α : Type} (entries : Table) (name : Text) (default : α) (check : Value → Checked α) :
    Checked α :=
  match lookup? name entries with
  | none => .ok default
  | some v => under (.field name) (check v)

/-- A field that has to be there. -/
def requiredField {α : Type} (entries : Table) (name : Text) (check : Value → Checked α) :
    Checked α :=
  under (.field name) (match lookup? name entries with
    | none => issue .missing
    | some v => check v)

/-- A section: a table that `check` reads. -/
def section? {α : Type} (check : Table → Checked α) : Value → Checked α
  | .table entries => check entries
  | _ => issue .notSection

end Checked

end Modulize
