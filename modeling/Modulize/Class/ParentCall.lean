import Modulize.Class.Basic
import Modulize.Qualified

/-!
# Calls to the parent class

Within the functions of a class, the parent is reached in several written forms: through `base`,
through the reference to the parent that inheriting leaves on the class, or through the name of
the parent itself. `recastParentCalls` writes all of them with `super`.
-/

namespace Modulize.Class

open Pattern

/-- A dotted name that does not continue another one, with any blanks around its dots. -/
def standalone (name : Text) : Pattern :=
  notAfter (fun c => isIdent c || c == '.') ++ Qualified.spaced name

/-- The opening parenthesis of a call and its first argument `this`. -/
def openThis : Pattern := blanks ++ one (· == '(') ++ blanks ++ literal "this" ++ blanks

/-- A comma with the blanks behind it, or no comma but blanks. -/
def optionalComma : Pattern := optional (one (· == ',')) ++ blanks

/-- A quoted word. -/
def quotedWord (word : Pattern) : Pattern :=
  let quote := one fun c => c == '\'' || c == '"'
  quote ++ word ++ quote

/-- The first half of a call of the form `owner.a.b(this`. -/
def callThis (owner : Pattern) (parts : List Pattern) : Pattern :=
  parts.foldl (fun r part => r ++ Qualified.dot ++ part) owner ++ openThis

/-- The form `root.base(this`, without blanks around the dot. -/
def rootBase (root : Text) : Pattern := standalone root ++ literal ".base(" ++ blanks ++
  literal "this" ++ blanks

/-- A written form of a call to the parent, and what stands in its place. -/
structure ParentForm where
  pattern : Pattern
  replacement : Match → Text

/-- The call of the parent constructor. -/
def superConstructor (_ : Match) : Text := "super("

/-- The call of the method of the parent that group 1 names. -/
def superMethod (m : Match) : Text := "super." ++ m.groupText 1 ++ "("

/-- The same with a list of arguments. -/
def superMethodSpread (m : Match) : Text := "super." ++ m.groupText 1 ++ "(..."

/-- The forms in a constructor. -/
def constructorForms (root : Text) (d : Definition) : List ParentForm :=
  let own := standalone d.name
  [⟨callThis own [literal "base"] ++ one (· == ',') ++ blanks ++
      quotedWord (literal "constructor") ++ blanks ++ optionalComma, superConstructor⟩,
   ⟨callThis own [literal "superClass_", literal "constructor", literal "call"] ++ optionalComma,
      superConstructor⟩,
   ⟨rootBase root ++ optionalComma, superConstructor⟩] ++
  match d.superclass with
  | none => []
  | some parent => [⟨callThis (standalone parent) [literal "call"] ++ optionalComma,
      superConstructor⟩]

/-- The forms in a method. -/
def methodForms (root : Text) (d : Definition) : List ParentForm :=
  let own := standalone d.name
  let member := group 1 identifier
  let byName := one (· == ',') ++ blanks ++ quotedWord member ++ blanks ++ optionalComma
  let spread := one (· == ',') ++ blanks
  [⟨callThis own [literal "base"] ++ byName, superMethod⟩,
   ⟨rootBase root ++ byName, superMethod⟩,
   ⟨callThis own [literal "superClass_", member, literal "call"] ++ optionalComma, superMethod⟩,
   ⟨callThis own [literal "superClass_", member, literal "apply"] ++ spread, superMethodSpread⟩] ++
  match d.superclass with
  | none => []
  | some parent =>
    let own := standalone parent
    [⟨callThis own [literal "prototype", member, literal "call"] ++ optionalComma, superMethod⟩,
     ⟨callThis own [literal "prototype", member, literal "apply"] ++ spread, superMethodSpread⟩]

/-- Write the calls to the parent with `super`, form by form. -/
def recastParentCalls (forms : List ParentForm) (body : Text) : Text :=
  forms.foldl (fun t form => form.pattern.replace form.replacement t) body

end Modulize.Class
