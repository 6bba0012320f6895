import Modulize.Doc.Comment

/-!
# Classes written as functions

A class is a constructor function with a documentation comment, the members assigned to its
prototype, and perhaps a call that makes it inherit. The kind of a member (`Member.kind`) follows
from the text of its definition and from its documentation.
-/

namespace Modulize.Class

open Pattern

/-- What a member of a prototype is. -/
inductive MemberKind
  | method
  | abstractMethod
  | delegatedMethod
  | field
  | uninitializedField
  deriving DecidableEq, Repr

/-- Kinds that become methods of the class; the others become fields. -/
def MemberKind.isMethod : MemberKind → Bool
  | .method | .abstractMethod | .delegatedMethod => true
  | .field | .uninitializedField => false

/-- A member of a prototype. `body` is its definition from the equals sign on, or a semicolon. -/
structure Member where
  name : Text
  body : Text
  span : Nat × Nat
  doc : Doc.Comment
  root : Text
  deriving DecidableEq, Repr

/-- An assignment to the text that `value` describes, and nothing else. -/
def assigns (value : Pattern) : Pattern :=
  textStart ++ blanks ++ one (· == '=') ++ blanks ++ value ++ blanks ++
    optional (one (· == ';')) ++ blanks ++ textEnd

/-- An assignment of a function. -/
def functionAssignment : Pattern :=
  textStart ++ blanks ++ one (· == '=') ++ blanks ++ literal "function" ++ wordEdge

/-- An assignment of what another name stands for; group 1 is that name. -/
def delegation : Pattern :=
  assigns (group 1 (run1 (fun c => isIdent c || c == '.' || isBlank c) ++ one (· == '.') ++
    identifier))

/-- A type that allows an undefined value. -/
def undefinedType : Pattern :=
  literal "@type" ++ blanks ++ one (· == '{') ++ run (· != '}') ++ wordEdge ++
    literal "undefined" ++ wordEdge

namespace Member

/-- The documentation is that of a method. -/
def declaresMethod (m : Member) : Bool := m.doc.hasTag ["param", "return", "abstract"]

/-- The member is assigned the marker of abstract methods. -/
def isExplicitlyAbstract (m : Member) : Bool :=
  (assigns (literal (m.root ++ ".abstractMethod"))).fits (Cursor.start m.body)

/-- The member is assigned the function that does nothing. -/
def isNullFunction (m : Member) : Bool :=
  (assigns (literal (m.root ++ ".nullFunction"))).fits (Cursor.start m.body)

/-- The dotted name that the member is assigned, without blanks. -/
def delegate? (m : Member) : Option Text :=
  (delegation.matchAt? (Cursor.start m.body)).map fun found =>
    (found.groupText 1).filter (! isBlank ·)

/-- What the member is. -/
def kind (m : Member) : MemberKind :=
  if m.body = ";" then if m.declaresMethod then .abstractMethod else .uninitializedField
  else if m.isExplicitlyAbstract then .abstractMethod
  else if functionAssignment.fits (Cursor.start m.body) then .method
  else if m.isNullFunction && !m.doc.mentions "\x7bFunction\x7d" then .delegatedMethod
  else if m.delegate?.isSome && m.declaresMethod then .delegatedMethod
  else .field

/-- The documented type of the member allows an undefined value. -/
def initializesUndefined (m : Member) : Bool := m.doc.lines.any undefinedType.occursIn

end Member

/-- The constructor of a class. `definition` is what follows the word `function`, without the
semicolon at the end; `binding` is the word that declares the name, with a space behind it. -/
structure Constructor where
  name : Text
  definition : Text
  span : Nat × Nat
  doc : Doc.Comment
  binding : Text
  deriving DecidableEq, Repr

/-- The constructor is that of an interface. -/
def Constructor.isInterface (c : Constructor) : Bool := c.doc.hasTag ["interface", "record"]

/-- A class as it is found in a text. -/
structure Definition where
  constructor : Constructor
  members : List Member
  superclass : Option Text
  inheritsSpan : Option (Nat × Nat)
  deriving DecidableEq, Repr

namespace Definition

/-- The dotted name of the class. -/
def name (d : Definition) : Text := d.constructor.name

/-- Some member is abstract. -/
def isAbstract (d : Definition) : Bool :=
  d.members.any fun m => m.kind = .abstractMethod || m.doc.hasTag ["abstract"]

end Definition

end Modulize.Class
