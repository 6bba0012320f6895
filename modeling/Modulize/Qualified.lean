import Modulize.Pattern.Basic

/-!
# Dotted names

A namespace is written as segments with dots between them. A *reference* to a namespace in a
script may have blanks and line breaks around its dots (`Qualified.spaced`), and stands on its
own: no identifier character, quote or slash touches it on either side (`Qualified.reference`).
-/

namespace Modulize.Qualified

open Pattern

/-- The segments of a dotted name. -/
def segments (name : Text) : List Text := Text.splitOn '.' name

/-- The part of a name after its last dot. -/
def lastSegment (name : Text) : Text := ((segments name).getLast?).getD []

/-- Names of classes begin with a capital letter. -/
def isClassName (name : Text) : Bool :=
  match name with
  | [] => false
  | a :: _ => isCapital a

/-- The name with its first letter in the capital form. -/
def capitalizeFirst (name : Text) : Text :=
  match name with
  | [] => []
  | a :: r => capital a ++ r

/-- The parts of a name in a row, with a dot and any blanks between neighbours. -/
def spacedSegments : List Text → Pattern
  | [] => nothing
  | [s] => literal s
  | s :: ss => literal s ++ blanks ++ one (· == '.') ++ blanks ++ spacedSegments ss

/-- A dotted name with any blanks around its dots. -/
def spaced (name : Text) : Pattern := spacedSegments (segments name)

/-- A dot with any blanks around it. -/
def dot : Pattern := blanks ++ one (· == '.') ++ blanks

/-- Characters that may not touch a reference. -/
def guards (c : Char) : Bool := isIdent c || c == '\'' || c == '"' || c == '/'

/-- A reference to a namespace. -/
def reference (name : Text) : Pattern := notAfter guards ++ spaced name ++ notBefore guards

/-- Write `new` for every reference to a namespace. -/
def replaceReferences (t name new : Text) : Text := (reference name).replace (fun _ => new) t

end Modulize.Qualified
