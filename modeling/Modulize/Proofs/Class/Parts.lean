import Modulize.Class.Render
import Modulize.Proofs.Collections
import Modulize.Proofs.Script.Local

/-!
# The parts of a class statement

The statement for a class that inherits is put together from a constructor and the methods of the
class, each with a signature and a body (`statementOf`). The constructor is that of
`constructorParts`: the source of the function, with the calls to the parent written with `super`
(`recastConstructor`), and the fields in it. The methods are those of `methodParts`
(`exists_parts`).
-/

namespace Modulize.Class

open Pattern Script

/-! ## Fields in a constructor -/

/-- A statement ends behind its semicolon or behind the bracket of the call. -/
theorem exists_afterCall {t : Text} {start e : Nat} (h : groupEnd t start = .ok e) :
    ∃ w c r, t = w ++ c :: r ∧ IsEndMark c ∧ afterCall t e = w.length + 1 := by
  obtain ⟨x, c, r, rfl, closing, rfl⟩ := exists_of_groupEnd h
  have drop : (x ++ c :: r).drop (x.length + 1) = r := by simp
  have parts := List.takeWhile_append_dropWhile (p := isSpaceOrTab) (l := r)
  unfold afterCall
  rw [drop]
  split
  · rename_i s semicolon
    rw [semicolon] at parts
    refine ⟨x ++ c :: r.takeWhile isSpaceOrTab, ';', s, by simp [parts], Or.inl rfl, ?_⟩
    simp only [List.length_append, List.length_cons]
    omega
  · exact ⟨x, c, r, rfl, Or.inr closing, rfl⟩

/-- **The body of a constructor with its fields**: they are behind a call of the parent constructor
that has been added, or behind the statement with the first text that has the form of one. -/
inductive Inserted (source : Text) (fields : List Text) : Text → Prop
  | added (missing : superCall.find? source = none) :
      Inserted source fields (Text.joinWith ['\n'] ("super();".toList :: fields) ++
        if source.isEmpty then [] else '\n' :: source)
  | unchanged {found : Match} (first : superCall.find? source = some found) (empty : fields = []) :
      Inserted source fields source
  | behind {found : Match} {w : Text} {c : Char} {r : Text} {e : Nat}
      (first : superCall.find? source = some found) (filled : fields ≠ [])
      (split : source = w ++ c :: r) (mark : IsEndMark c)
      (ends : groupEnd source (found.stop.offset - 1) = .ok e)
      (place : afterCall source e = w.length + 1) :
      Inserted source fields (w ++ c :: '\n' :: (Text.joinWith ['\n'] fields ++ r))

theorem inserted_of_insertFields {source body : Text} {fields : List Text}
    (h : insertFields source fields true = .ok body) : Inserted source fields body := by
  unfold insertFields at h
  simp only [Bool.not_true, Bool.and_false, Bool.false_eq_true, if_false, if_true] at h
  split at h
  · rename_i missing
    have whole : Text.joinWith ['\n'] (["super();".toList] ++ fields ++
        if source.isEmpty then [] else [source]) =
        Text.joinWith ['\n'] ("super();".toList :: fields) ++
          if source.isEmpty then [] else '\n' :: source := by
      cases source with
      | nil => simp
      | cons a source => exact Text.joinWith_concat (by simp) (a :: source)
    obtain rfl := Except.ok.inj h
    rw [whole]
    exact .added missing
  · rename_i found first
    split at h
    · rename_i empty
      obtain rfl := Except.ok.inj h
      exact .unchanged first (List.isEmpty_iff.1 empty)
    · rename_i filled
      obtain ⟨e, ends, h⟩ := bind_eq_ok h
      obtain rfl := Except.ok.inj h
      obtain ⟨w, c, r, rfl, mark, place⟩ := exists_afterCall ends
      have take : (w ++ c :: r).take (w.length + 1) = w ++ [c] := List.take_length_add_append 1
      have drop : (w ++ c :: r).drop (w.length + 1) = r := List.drop_length_add_append 1
      have whole : (w ++ [c]) ++ '\n' :: Text.joinWith ['\n'] fields ++ r =
          w ++ c :: '\n' :: (Text.joinWith ['\n'] fields ++ r) := by simp
      rw [place, take, drop, whole]
      exact .behind first (fun h => filled (List.isEmpty_iff.2 h)) rfl mark ends place

/-! ## The constructor and the methods -/

/-- The statements that initialise the fields of a class. -/
def initializers (d : Definition) : List Text :=
  (d.members.filter fun m => !m.kind.isMethod).map fieldStatement

/-- The statement that initialises a field ends with a semicolon. -/
theorem exists_fieldStatement (m : Member) : ∃ s, fieldStatement m = s ++ [';'] := by
  have value : ∃ s, fieldValue m = s ++ [';'] := by
    unfold fieldValue
    simp only
    split
    · rename_i ends
      obtain ⟨s, hs⟩ := List.isSuffixOf_iff_suffix.1 ends
      exact ⟨s, hs.symm⟩
    · exact ⟨_, rfl⟩
  obtain ⟨doc, value, e, hvalue⟩ : ∃ (doc : Doc.Comment) (value : Text),
      fieldStatement m = doc.render ++ "this." ++ m.name ++ " = " ++ value ∧
        ∃ s, value = s ++ [';'] := by
    unfold fieldStatement
    simp only
    split
    · split
      · exact ⟨_, _, rfl, "undefined", rfl⟩
      · exact ⟨_, _, rfl, "null", rfl⟩
    · exact ⟨_, _, rfl, value⟩
  obtain ⟨s, rfl⟩ := hvalue
  exact ⟨doc.render ++ "this." ++ m.name ++ " = " ++ s, by rw [e]; simp⟩

/-- The parameters and the body of a constructor, its parent calls written with `super`. -/
def recastConstructor (root : Text) (d : Definition) : Except Failure (Text × Text) :=
  (splitFunction d.name d.constructor.definition).map fun (params, source) =>
    (params, recastParentCalls (constructorForms root d) source)

theorem recastConstructor_eq_ok {root params written : Text} {d : Definition}
    (h : recastConstructor root d = .ok (params, written)) :
    ∃ source, splitFunction d.name d.constructor.definition = .ok (params, source) ∧
      written = recastParentCalls (constructorForms root d) source := by
  obtain ⟨⟨params, source⟩, split, e⟩ := map_eq_ok h
  obtain ⟨rfl, rfl⟩ := Prod.mk.inj e
  exact ⟨source, split, rfl⟩

/-- The documented signature of the constructor of a class that inherits, and its body. -/
def constructorParts (root : Text) (d : Definition) : Except Failure (Text × Text) := do
  let (params, source) ← recastConstructor root d
  let body ← insertFields source (initializers d) true
  pure ((d.constructor.doc.only ["param"]).render ++ ("constructor(" ++ params ++ ")"), body)

/-- The constructor of a class statement is the source of the function with the fields in it. -/
theorem insertFields_of_constructorParts {root : Text} {d : Definition} {part : Text × Text}
    (h : constructorParts root d = .ok part) :
    ∃ params source, recastConstructor root d = .ok (params, source) ∧
      insertFields source (initializers d) true = .ok part.2 := by
  obtain ⟨⟨params, source⟩, recast, h⟩ := bind_eq_ok h
  obtain ⟨body, inserted, h⟩ := bind_eq_ok h
  obtain rfl := Except.ok.inj h
  exact ⟨params, source, recast, inserted⟩

/-- The function of a method, from its parentheses on. -/
def Member.function (m : Member) : Text := functionAssignment.replaceFirst (fun _ => []) m.body

/-- The signature of a method, with its documentation, and its body. -/
def methodParts (root : Text) (d : Definition) (m : Member) : Except Failure (Text × Text) :=
  match m.kind with
  | .method => (splitFunction m.name m.function).map fun (params, source) =>
      (m.doc.render ++ (m.name ++ "(" ++ params ++ ")"),
        recastParentCalls (methodForms root d) source)
  | .abstractMethod =>
    .ok ((abstractDoc d m).render ++ (m.name ++ "(" ++ documentedParams m ++ ")"), [])
  | _ => .ok (m.doc.render ++ (m.name ++ "(" ++ documentedParams m ++ ")"), delegatedBody m)

/-- The block of a signature and a body. -/
def partText (part : Text × Text) : Text := block part.1 part.2

/-- A class statement with these parts. -/
def statementOf (d : Definition) (parts : List (Text × Text)) : Text :=
  header d ++ '\n' :: Text.joinWith "\n\n" (parts.map fun part => (partText part).indent "  ") ++
    "\n\x7d;"

theorem append_block (doc signature body : Text) :
    doc ++ block signature body = partText (doc ++ signature, body) := by
  unfold partText block
  split <;> simp

theorem constructorText_eq (root : Text) {d : Definition} (inherits : d.superclass.isSome = true) :
    constructorText root d = (constructorParts root d).map fun part => [partText part] := by
  have some : d.superclass.isNone = false := by simpa using inherits
  unfold constructorText constructorParts recastConstructor
  cases splitFunction d.name d.constructor.definition with
  | error e => rfl
  | ok parts =>
    obtain ⟨params, source⟩ := parts
    simp only [some, inherits, Bool.and_false, Bool.false_eq_true, if_false]
    change (do
      let body ← insertFields (recastParentCalls (constructorForms root d) source)
        (initializers d) true
      pure [(d.constructor.doc.only ["param"]).render ++
        block ("constructor(" ++ params ++ ")") body]) = Except.map _ (do
      let body ← insertFields (recastParentCalls (constructorForms root d) source)
        (initializers d) true
      pure _)
    cases insertFields (recastParentCalls (constructorForms root d) source) (initializers d)
      true with
    | error e => rfl
    | ok body => exact congrArg (fun text => Except.ok [text]) (append_block _ _ _)

theorem methodText_eq (root : Text) (d : Definition) (m : Member) :
    methodText root d m = (methodParts root d m).map partText := by
  unfold methodText methodParts
  cases m.kind with
  | method =>
    change _ = Except.map _ (Except.map _ (splitFunction m.name m.function))
    simp only [Member.function]
    cases splitFunction m.name (functionAssignment.replaceFirst (fun _ => []) m.body) with
    | error e => rfl
    | ok parts => exact congrArg Except.ok (append_block _ _ _)
  | abstractMethod => exact congrArg Except.ok (append_block _ _ _)
  | delegatedMethod | field | uninitializedField =>
    exact congrArg Except.ok (append_block _ _ _)

/-- **The statement for a class that inherits** consists of its constructor and its methods. -/
theorem exists_parts {root : Text} {d : Definition} {statement : Text}
    (inherits : d.superclass.isSome = true) (h : render root d = .ok statement) :
    ∃ constructor methods, constructorParts root d = .ok constructor ∧
      (d.members.filter (·.kind.isMethod)).mapM (methodParts root d) = .ok methods ∧
      statement = statementOf d (constructor :: methods) := by
  obtain ⟨parts, hparts, h⟩ := bind_eq_ok h
  obtain ⟨texts, htexts, h⟩ := bind_eq_ok h
  rw [constructorText_eq root inherits] at hparts
  rw [funext (methodText_eq root d)] at htexts
  obtain ⟨constructor, hconstructor, rfl⟩ := map_eq_ok hparts
  obtain ⟨methods, hmethods, rfl⟩ := mapM_map_eq_ok htexts
  obtain rfl := Except.ok.inj h
  refine ⟨constructor, methods, hconstructor, hmethods, ?_⟩
  rw [statementOf, List.map_cons]
  simp only [List.singleton_append, List.map_cons, List.map_map]
  rfl

end Modulize.Class
