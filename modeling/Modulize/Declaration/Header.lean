import Modulize.Declaration.Exports
import Modulize.Doc.Mention
import Modulize.Qualified

/-!
# Headers

The statements at the beginning of lines by which a file provides and requires namespaces. They
are calls below a root namespace, such as `root.provide('a.b');`. The module reads the provided
namespaces (`provides`), the required ones (`requires`), and the ones that only types in the
documentation mention (`inferredRequires`).
-/

namespace Modulize.Declaration

open Pattern

/-- A quoted namespace in parentheses, with the end of the statement; group `i` is the
namespace. -/
def quotedArgument (i : Nat) : Pattern :=
  let quote := one fun c => c == '\'' || c == '"'
  blanks ++ one (· == '(') ++ blanks ++ quote ++ group i (run1 fun c => isIdent c || c == '.') ++
    quote ++ blanks ++ one (· == ')') ++ blanks ++ optional (one (· == ';'))

/-- The header by which a file provides a namespace; group 1 is the keyword, group 2 the
namespace. -/
def provideHeader (root : Text) : Pattern :=
  lineStart ++ Qualified.spaced root ++ Qualified.dot ++
    group 1 (oneOf [literal "provide", literal "module"]) ++ quotedArgument 2

/-- The words that declare a variable. -/
def declarationWord : Pattern := oneOf [literal "const", literal "let", literal "var"]

/-- Names in braces, or one name. -/
def bindingTarget : Pattern :=
  (one (· == '{') ++ run (· != '}') ++ one (· == '}')) <|> identifier

/-- The header by which a file requires a namespace; group 1 is what it binds, group 2 the
keyword, group 3 the namespace. -/
def requireHeader (root : Text) : Pattern :=
  lineStart ++
    optional (declarationWord ++ blanks1 ++ group 1 bindingTarget ++ blanks ++ one (· == '=') ++
      blanks) ++
    Qualified.spaced root ++ Qualified.dot ++
    group 2 (oneOf [literal "require", literal "requireType", literal "forwardDeclare"]) ++
    quotedArgument 3

/-- A declaration of the namespace itself: an assignment to it, or its name alone. -/
def ownDeclaration (name : Text) : Pattern :=
  lineStart ++ blanks ++ Qualified.spaced name ++ blanks ++ (equalsSign <|> one (· == ';'))

/-- A namespace that is declared by itself is a value; one that only carries members is an
object. -/
def shapeOf (t name : Text) : Shape :=
  if (ownDeclaration name).occursIn t then .value else .object

/-- A provide header that makes its file a module. -/
def isModuleHeader (m : Match) : Bool := m.groupText 1 == ("module" : Text)

/-- The namespace that a provide header declares. -/
def readProvide (t : Text) (m : Match) : Except Failure Provide :=
  let name := m.groupText 2
  if isModuleHeader m then do
    let exports ← moduleExports t
    if exports.isEmpty then .error (.missingExports name)
    else pure ⟨name, true, exports, some m.text, none, defaultExport? t⟩
  else .ok ⟨name, false, [], some m.text, some (shapeOf t name), none⟩

/-- The namespaces that a text provides, in order. -/
def provides (root t : Text) : Except Failure (List Provide) :=
  ((provideHeader root).allMatches t).mapM (readProvide t)

/-- The namespaces that a text provides, by the headers alone. -/
def bareProvides (root t : Text) : List Provide :=
  ((provideHeader root).allMatches t).map fun m =>
    Provide.bare (m.groupText 2) (isModuleHeader m)

/-- What a require statement binds; taking several members apart is refused. -/
def readBinding (target : Option Text) (statement : Text) : Except Failure Binding :=
  match target with
  | none => .ok .plain
  | some ('{' :: r) =>
    let inner := ((Text.dropEndWhile (· == ',') (Text.trim r.dropLast)).trim)
    if ',' ∈ inner then .error (.severalMembers statement)
    else (readEntry inner).map fun e => .members [e]
  | some name => .ok (.alias name)

/-- The dependency that a require header declares. -/
def readRequire (m : Match) : Except Failure Require := do
  let binding ← readBinding ((m.group? 1).map Capture.text) m.text
  let kind := if m.groupText 2 = "forwardDeclare" then RequireKind.forward else .explicit
  pure ⟨m.groupText 3, kind, binding, some m.text⟩

/-- The namespaces that a text requires, in order. -/
def requires (root t : Text) : Except Failure (List Require) :=
  ((requireHeader root).allMatches t).mapM readRequire

/-- The dotted names in the documentation types of a text, in order. -/
def mentionedNames (t : Text) : List Text :=
  (Doc.comments t).flatMap fun c => (Doc.types c).flatMap Doc.dottedNames

/-- A dependency for each name that the documentation mentions and that is not known yet. -/
def inferredRequires (t : Text) (known : List Text) : List Require :=
  (dedup ((mentionedNames t).filter (· ∉ known))).map Require.inferred

end Modulize.Declaration
