import Modulize.Class.ParentCall
import Modulize.Doc.Mention
import Modulize.Script.Extent
import Modulize.Text.Indent

/-!
# Writing classes

`render` writes a class statement. The constructor comes first; fields are initialised in it,
behind the call of the parent constructor, which is added when it is missing. Methods follow in
their order: with the body they have, empty when they are abstract, or with a call of the function
that they delegate to.
-/

namespace Modulize.Class

open Pattern

/-- The offset of the first occurrence of a character at or after an offset. -/
def offsetOf? (c : Char) (t : Text) (start : Nat) : Option Nat :=
  let tail := t.drop start
  if c ∈ tail then some (start + (tail.takeWhile (· != c)).length) else none

/-- The parameters and the body of a function, from its parentheses on. -/
def splitFunction (name definition : Text) : Except Failure (Text × Text) := do
  let some openParen := offsetOf? '(' definition 0 | .error (.malformedFunction name)
  let closeParen ← Script.groupEnd definition openParen
  let some openBrace := offsetOf? '{' definition closeParen | .error (.malformedFunction name)
  let closeBrace ← Script.groupEnd definition openBrace
  let params := definition.slice (openParen + 1) (closeParen - 1)
  let body := definition.slice (openBrace + 1) (closeBrace - 1)
  let body := Text.dropEndWhile (· == '\n') (body.dropWhile (· == '\n'))
  pure (params.trim, (Text.dedent body).trim)

/-- A signature with its body in braces. -/
def block (signature body : Text) : Text :=
  if body.isEmpty then signature ++ " \x7b\x7d"
  else signature ++ " \x7b\n" ++ body.indent "  " ++ "\n\x7d"

/-- The value that a field is given, with its semicolon. -/
def fieldValue (m : Member) : Text :=
  let value := Text.trimEnd <|
    (textStart ++ blanks ++ one (· == '=') ++ blanks).replaceFirst (fun _ => []) m.body
  if Text.endsWith [';'] value then value else value ++ [';']

/-- The statement that initialises a field. -/
def fieldStatement (m : Member) : Text :=
  let doc := m.doc.splitVisibilityTypes
  let (doc, value) : Doc.Comment × Text :=
    if m.kind = .uninitializedField then
      if m.initializesUndefined then (doc, "undefined;") else (doc.nullablePrimitiveType, "null;")
    else (doc, fieldValue m)
  doc.render ++ "this." ++ m.name ++ " = " ++ value

/-- A call of the parent constructor, up to its parenthesis. -/
def superCall : Pattern :=
  notAfter (fun c => isIdent c || c == '.') ++ literal "super" ++ blanks ++ one (· == '(')

/-- The offset behind a statement that ends at `e`, with its semicolon if there is one. -/
def afterCall (body : Text) (e : Nat) : Nat :=
  match (body.drop e).dropWhile isSpaceOrTab with
  | ';' :: _ => e + ((body.drop e).takeWhile isSpaceOrTab).length + 1
  | _ => e

/-- Put the fields into the body of a constructor: behind the call of the parent constructor, or
at the beginning when there is none, behind such a call if the class inherits. -/
def insertFields (body : Text) (fields : List Text) (inherits : Bool) : Except Failure Text :=
  if fields.isEmpty && !inherits then .ok body
  else
    match superCall.find? body with
    | none =>
      let head : List Text := if inherits then ["super();"] else []
      .ok (Text.joinWith ['\n'] (head ++ fields ++ if body.isEmpty then [] else [body]))
    | some m =>
      if fields.isEmpty then .ok body
      else do
        let e ← Script.groupEnd body (m.stop.offset - 1)
        let e := afterCall body e
        pure (body.take e ++ '\n' :: Text.joinWith ['\n'] fields ++ body.drop e)

/-- The constructor as a method of the class, if it has anything to do. -/
def constructorText (root : Text) (d : Definition) : Except Failure (List Text) := do
  let (params, body) ← splitFunction d.name d.constructor.definition
  let fields := (d.members.filter fun m => !m.kind.isMethod).map fieldStatement
  if params.isEmpty && body.isEmpty && fields.isEmpty && d.superclass.isNone then pure []
  else
    let body := recastParentCalls (constructorForms root d) body
    let body ← insertFields body fields d.superclass.isSome
    let doc := (d.constructor.doc.only ["param"]).render
    pure [doc ++ block ("constructor(" ++ params ++ ")") body]

/-- The dotted name is that of a member of a prototype. -/
def isPrototypeMember (name : Text) : Bool :=
  (textStart ++ run1 (· != '\n') ++ literal ".prototype." ++ identifier ++ textEnd).fits
    (Cursor.start name)

/-- The call of the function that a method delegates to. -/
def delegateCall (delegate params : Text) : Text :=
  if isPrototypeMember delegate then
    let arguments : List Text := if params.isEmpty then ["this"] else ["this", params]
    delegate ++ ".call(" ++ Text.joinWith ", " arguments ++ ")"
  else delegate ++ "(" ++ params ++ ")"

/-- The documentation of an abstract method. -/
def abstractDoc (d : Definition) (m : Member) : Doc.Comment :=
  let doc := if m.isExplicitlyAbstract then m.doc.dropFunctionType else m.doc
  if d.constructor.isInterface || doc.hasTag ["abstract"] then doc else doc.withTag "@abstract"

/-- The parameters of a method without a body of its own, from its documentation. -/
def documentedParams (m : Member) : Text :=
  Text.joinWith ", " (Doc.parameters m.doc.render)

/-- The body of a method that delegates. -/
def delegatedBody (m : Member) : Text :=
  match m.delegate? with
  | none => []
  | some delegate =>
    if m.isNullFunction then []
    else
      let call := delegateCall delegate (documentedParams m) ++ [';']
      if m.doc.hasTag ["return"] then "return " ++ call else call

/-- A method of the class. -/
def methodText (root : Text) (d : Definition) (m : Member) : Except Failure Text :=
  match m.kind with
  | .method => do
    let definition := (functionAssignment.replaceFirst (fun _ => []) m.body)
    let (params, body) ← splitFunction m.name definition
    let body := recastParentCalls (methodForms root d) body
    pure (m.doc.render ++ block (m.name ++ "(" ++ params ++ ")") body)
  | .abstractMethod =>
    .ok ((abstractDoc d m).render ++ block (m.name ++ "(" ++ documentedParams m ++ ")") [])
  | _ =>
    .ok (m.doc.render ++ block (m.name ++ "(" ++ documentedParams m ++ ")") (delegatedBody m))

/-- The documentation of the class statement. -/
def classDoc (d : Definition) : Doc.Comment :=
  let doc := d.constructor.doc.without ["param", "constructor"]
  let doc := if d.superclass.isSome then doc.without ["extends", "extend"] else doc
  if d.isAbstract && !doc.hasTag ["abstract", "interface", "record"] then doc.withTag "@abstract"
  else doc

/-- The beginning of the class statement, up to its brace. -/
def header (d : Definition) : Text :=
  let extension : Text := match d.superclass with
    | some parent => " extends " ++ parent
    | none => []
  (classDoc d).render ++ d.constructor.binding ++ d.name ++ " = class" ++ extension ++ " \x7b"

/-- The class statement for a class. -/
def render (root : Text) (d : Definition) : Except Failure Text := do
  let constructor ← constructorText root d
  let methods ← (d.members.filter (·.kind.isMethod)).mapM (methodText root d)
  match constructor ++ methods with
  | [] => pure (header d ++ "\x7d;")
  | parts =>
    pure (header d ++ '\n' :: Text.joinWith "\n\n" (parts.map (·.indent "  ")) ++ "\n\x7d;")

end Modulize.Class
