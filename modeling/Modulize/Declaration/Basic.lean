import Modulize.Failure
import Modulize.Text.CharClass

/-!
# Declarations

What a file says about itself: the namespaces it provides, with what a module exports
(`Provide`), and the namespaces it depends on (`Require`). An `ExportEntry` pairs the name that
other files see with the name inside the file; it is written in one order in an export clause
(`exportClause`) and in the other in an import clause (`importClause`).
-/

namespace Modulize

/-- A name that a module exports, and the local name that stands for it. -/
structure ExportEntry where
  external : Text
  internal : Text
  deriving DecidableEq, Repr

namespace ExportEntry

/-- An entry of two names; a name without visible characters is refused. -/
def make (external internal : Text) : Except Failure ExportEntry :=
  if external.allBlank || internal.allBlank then .error .blankExportName
  else .ok ⟨external, internal⟩

/-- An entry exported under its own name. -/
def same (name : Text) : Except Failure ExportEntry := make name name

/-- The clause within the braces of an export. -/
def exportClause (e : ExportEntry) : Text :=
  if e.external = e.internal then e.internal else e.internal ++ " as " ++ e.external

/-- The clause within the braces of an import. -/
def importClause (e : ExportEntry) : Text :=
  if e.external = e.internal then e.internal else e.external ++ " as " ++ e.internal

/-- Entries are ordered by the local name, then by the exported one. -/
def precedes (a b : ExportEntry) : Bool :=
  Text.precedesAll [a.internal, a.external] [b.internal, b.external]

/-- The entries in their order. -/
def sort (es : List ExportEntry) : List ExportEntry := sortBy precedes es

end ExportEntry

/-- An export of a module as it is written there. Inline, `matched` is the beginning of the
assignment up to its equals sign; otherwise it is the whole statement that lists the entry. -/
structure ModuleExport where
  entry : ExportEntry
  isInline : Bool
  matched : Text
  deriving DecidableEq, Repr

/-- What a provided namespace is: something assigned or declared by itself, or a holder of
members. -/
inductive Shape
  | value
  | object
  deriving DecidableEq, Repr

/-- A namespace that a file provides. `matched` is the text of its header. -/
structure Provide where
  name : Text
  isModule : Bool
  exports : List ModuleExport
  matched : Option Text
  shape : Option Shape
  defaultExport : Option Text
  deriving DecidableEq, Repr

namespace Provide

/-- A provided namespace of which nothing but its name and style is known. -/
def bare (name : Text) (isModule : Bool) : Provide := ⟨name, isModule, [], none, none, none⟩

end Provide

/-- How a dependency came to be: written as a require or as a forward declaration, implied by the
code, or inferred from the documentation. -/
inductive RequireKind
  | explicit
  | forward
  | implied
  | inferred
  deriving DecidableEq, Repr

/-- What a require binds: no name, one name for the namespace, or names for its members. -/
inductive Binding
  | plain
  | alias (name : Text)
  | members (entries : List ExportEntry)
  deriving DecidableEq, Repr

/-- A dependency on a namespace. `matched` is the text of its statement. -/
structure Require where
  name : Text
  kind : RequireKind
  binding : Binding
  matched : Option Text
  deriving DecidableEq, Repr

namespace Require

/-- A dependency implied by the code. -/
def implied (name : Text) : Require := ⟨name, .implied, .plain, none⟩

/-- A dependency inferred from the documentation. -/
def inferred (name : Text) : Require := ⟨name, .inferred, .plain, none⟩

/-- A dependency that may stay without a provider. -/
def isAdvisory (r : Require) : Bool := r.kind = .inferred

end Require

end Modulize
