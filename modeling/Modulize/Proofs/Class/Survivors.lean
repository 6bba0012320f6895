import Modulize.Class.Convert
import Modulize.Proofs.Class.Delegated
import Modulize.Proofs.Class.Parts

/-!
# Delegations that survive

Which delegations to the parent are left in the class statement of a class that inherits
(`render_survivors`). The bodies in the statement are those of `constructorParts` and `methodParts`.
A delegation in one of them stands in the source of the constructor and is not one to the parent
constructor through `base` or `call`, or it stands in the source of a method and applies a member
without arguments, or it comes with a field (`Survives`).

What stands in the place of the others calls `super` (`CarriesFunctions`).

The statement speaks of classes whose names are written as names are (`Ordinary`). Fields are put
into a constructor behind a closing bracket or a semicolon and end with one, so a delegation behind
`insertFields` is one of the source or of a field (`of_insertFields`).
-/

namespace Modulize.Class

open Pattern Qualified Script

/-! ## Fields in a constructor -/

namespace Delegates

variable {name m u v : Text} {way : Way} {c : Char}

/-- A delegation in front of a closing bracket or a semicolon. -/
theorem append_cons (mark : IsEndMark c) (v : Text) (h : Delegates name way m u) :
    Delegates name way m (u ++ c :: v) := by
  obtain ⟨x, piece, rest, rfl, guarded, delegation⟩ := h
  have comma : c ≠ ',' := by
    rintro rfl
    rcases mark with mark | mark <;> cases mark
  have alike := Way.goesOnAlike_append_cons mark.isStop comma rest v
  exact ⟨x, piece, rest ++ c :: v, by simp, guarded,
    delegation.congr ⟨alike.comma.symm, alike.word.symm⟩⟩

/-- A delegation behind a closing bracket or a semicolon. -/
theorem behind (mark : IsEndMark c) (u : Text) (h : Delegates name way m v) :
    Delegates name way m (u ++ c :: v) := by
  obtain ⟨x, piece, rest, rfl, guarded, delegation⟩ := h
  refine ⟨u ++ c :: x, piece, rest, by simp, ?_, delegation⟩
  intro a ha
  cases x with
  | nil =>
    obtain rfl : c = a := by simpa using ha
    have dot : c ≠ '.' := by
      rintro rfl
      rcases mark with mark | mark <;> cases mark
    simp [mark.isStop.ident, dot]
  | cons b x => exact guarded a (by simpa using ha)

/-- Several texts on their own lines that end with semicolons, and what follows them. -/
theorem of_joinWith (hn : IsNamespace name) {ts : List Text}
    (ends : ∀ t ∈ ts, ∃ s, t = s ++ [';'])
    (h : Delegates name way m (Text.joinWith ['\n'] ts ++ v)) :
    (∃ t ∈ ts, Delegates name way m t) ∨ Delegates name way m v := by
  induction ts with
  | nil => exact Or.inr h
  | cons t ts ih =>
    obtain ⟨⟨s, rfl⟩, others⟩ := List.forall_mem_cons.1 ends
    have mark : IsEndMark ';' := Or.inl rfl
    have here (h : Delegates name way m s) : ∃ t ∈ (s ++ [';']) :: ts, Delegates name way m t :=
      ⟨_, List.mem_cons_self, h.append_cons mark []⟩
    cases ts with
    | nil =>
      have split : Text.joinWith ['\n'] [s ++ [';']] ++ v = s ++ ';' :: v := by
        simp [Text.joinWith]
      rw [split] at h
      exact (of_append_cons hn mark h).imp here id
    | cons t ts =>
      have split : Text.joinWith ['\n'] ((s ++ [';']) :: t :: ts) ++ v =
          s ++ ';' :: ('\n' :: (Text.joinWith ['\n'] (t :: ts) ++ v)) := by simp [Text.joinWith]
      rw [split] at h
      rcases of_append_cons hn mark h with h | h
      · exact Or.inl (here h)
      · rcases ih others (h.of_cons hn (by decide)) with ⟨t', ht', h⟩ | h
        · exact Or.inl ⟨t', List.mem_cons_of_mem _ ht', h⟩
        · exact Or.inr h

end Delegates

/-- **A delegation in a constructor with its fields** comes from the source or from a field. -/
theorem Delegates.of_insertFields {name m source body : Text} {way : Way} {fields : List Text}
    (hn : IsNamespace name) (ends : ∀ f ∈ fields, ∃ s, f = s ++ [';'])
    (inserted : insertFields source fields true = .ok body) (h : Delegates name way m body) :
    Delegates name way m source ∨ ∃ f ∈ fields, Delegates name way m f := by
  cases inserted_of_insertFields inserted with
  | added =>
    have statements : ∀ t ∈ "super();".toList :: fields, ∃ s, t = s ++ [';'] :=
      List.forall_mem_cons.2 ⟨⟨"super()", rfl⟩, ends⟩
    rcases h.of_joinWith hn statements with ⟨t, ht, h⟩ | h
    · rcases List.mem_cons.1 ht with rfl | ht
      · exact absurd h (not_delegates_of_not_mem (by decide))
      · exact Or.inr ⟨t, ht, h⟩
    · split at h
      · exact absurd h (not_delegates_of_not_mem (by simp))
      · exact Or.inl (h.of_cons hn (by decide))
  | unchanged => exact Or.inl h
  | @behind found w c r e first filled split mark =>
    subst split
    rcases h.of_append_cons hn mark with h | h
    · exact Or.inl (h.append_cons mark r)
    · rcases (h.of_cons hn (by decide)).of_joinWith hn ends with h | h
      · exact Or.inr h
      · exact Or.inl (h.behind mark w)

/-! ## Survivors -/

/-- The name of a class, of its parent and of the root are written as names are, no segment of the
name of the class is `super`, in no function of the class the name begins directly behind the word
`this`, and no method that delegates has `this` for its first documented parameter. -/
structure Ordinary (root : Text) (d : Definition) : Prop where
  name : IsNamespace d.name
  plain : "super".toList ∉ segments d.name
  root : IsNamespace root
  parent : ∀ parent ∈ d.superclass, IsNamespace parent
  inConstructor : ∀ params source,
    splitFunction d.name d.constructor.definition = .ok (params, source) → Parted d.name source
  inMethods : ∀ member ∈ d.members, member.kind = .method → ∀ params source,
    splitFunction member.name member.function = .ok (params, source) → Parted d.name source
  documented : ∀ member ∈ d.members, member.kind = .delegatedMethod →
    (Doc.parameters member.doc.render).head? ≠ some "this".toList

theorem parted_of_head {name s source : Text} (first : (segments name).head? = some s)
    (h : ¬ "this".toList ++ s <:+: source) : Parted name source := by
  intro s' hs'
  obtain rfl : s = s' := Option.some.inj (first.symm.trans hs')
  exact h

theorem Parted.of_split {name function definition params source : Text}
    (split : splitFunction function definition = .ok (params, source))
    (parted : Parted name source) (params' source' : Text)
    (split' : splitFunction function definition = .ok (params', source')) :
    Parted name source' := by
  obtain ⟨-, rfl⟩ := Prod.mk.inj (Except.ok.inj (split.symm.trans split'))
  exact parted

/-- **The delegations that survive**: in the constructor those that are not to the parent
constructor through `base` or `call`, in a method those that apply a member without arguments, and
those in what fields are given. -/
inductive Survives (d : Definition) : Way → Text → Prop
  | inConstructor {way : Way} {m params source : Text}
      (split : splitFunction d.name d.constructor.definition = .ok (params, source))
      (delegates : Delegates d.name way m source)
      (other : ¬ (m = "constructor" ∧ (way = .base ∨ way = .call))) : Survives d way m
  | inMethod {member : Member} {m params source : Text} (mem : member ∈ d.members)
      (kind : member.kind = .method)
      (split : splitFunction member.name member.function = .ok (params, source))
      (delegates : Delegates d.name .applyNone m source) : Survives d .applyNone m
  | inField {member : Member} {way : Way} {m : Text} (mem : member ∈ d.members)
      (kind : member.kind.isMethod = false)
      (delegates : Delegates d.name way m (fieldStatement member)) : Survives d way m

section

variable {root : Text} {d : Definition} {way : Way} {m : Text} {part : Text × Text}

theorem survives_of_constructorParts (ordinary : Ordinary root d) (hm : m ≠ "super")
    (h : constructorParts root d = .ok part) (delegates : Delegates d.name way m part.2) :
    Survives d way m := by
  obtain ⟨params, _, recast, inserted⟩ := insertFields_of_constructorParts h
  obtain ⟨source, split, rfl⟩ := recastConstructor_eq_ok recast
  have ends : ∀ f ∈ initializers d, ∃ s, f = s ++ [';'] := fun f hf => by
    obtain ⟨member, -, rfl⟩ := List.mem_map.1 hf
    exact exists_fieldStatement member
  rcases Delegates.of_insertFields ordinary.name ends inserted delegates with
    delegates | ⟨f, hf, delegates⟩
  · obtain ⟨delegates, other⟩ := constructor_survivors ordinary.name ordinary.root ordinary.parent
      ordinary.plain hm (ordinary.inConstructor params source split) delegates
    exact .inConstructor split delegates other
  · obtain ⟨member, hmember, rfl⟩ := List.mem_map.1 hf
    obtain ⟨mem, kind⟩ := List.mem_filter.1 hmember
    exact .inField mem (by simpa using kind) delegates

theorem survives_of_methodParts (ordinary : Ordinary root d) (hm : m ≠ "super") {member : Member}
    (mem : member ∈ d.members) (isMethod : member.kind.isMethod = true)
    (h : methodParts root d member = .ok part) (delegates : Delegates d.name way m part.2) :
    Survives d way m := by
  unfold methodParts at h
  split at h
  · rename_i kind
    obtain ⟨⟨params, source⟩, split, rfl⟩ := map_eq_ok h
    obtain ⟨delegates, rfl⟩ := method_survivors ordinary.name ordinary.root ordinary.parent
      ordinary.plain hm (ordinary.inMethods member mem kind params source split) delegates
    exact .inMethod mem kind split delegates
  · obtain rfl := Except.ok.inj h
    exact absurd delegates (not_delegates_of_not_mem (by simp))
  · rename_i notMethod notAbstract
    obtain rfl := Except.ok.inj h
    have kind : member.kind = .delegatedMethod := by
      cases e : member.kind <;> simp_all [MemberKind.isMethod]
    exact absurd delegates (not_delegates_delegatedBody (ordinary.documented member mem kind))

/-- **The functions of a class in its parts**: their sources, with the calls to the parent written
with `super` and the fields in the constructor. -/
structure CarriesFunctions (d : Definition) (constructor : Text × Text)
    (methods : List (Text × Text)) : Prop where
  ofConstructor : ∃ params source written,
    splitFunction d.name d.constructor.definition = .ok (params, source) ∧
      WrittenWithSuper source written ∧ Inserted written (initializers d) constructor.2
  ofMethods : ∀ member ∈ d.members, member.kind = .method → ∃ part ∈ methods, ∃ params source,
    splitFunction member.name member.function = .ok (params, source) ∧
      WrittenWithSuper source part.2

theorem carriesFunctions_of_parts {constructor : Text × Text} {methods : List (Text × Text)}
    (ordinary : Ordinary root d) (hconstructor : constructorParts root d = .ok constructor)
    (hmethods : (d.members.filter (·.kind.isMethod)).mapM (methodParts root d) = .ok methods) :
    CarriesFunctions d constructor methods where
  ofConstructor := by
    obtain ⟨params, _, recast, inserted⟩ := insertFields_of_constructorParts hconstructor
    obtain ⟨source, split, rfl⟩ := recastConstructor_eq_ok recast
    have sound := recasts_constructorForms ordinary.name ordinary.root ordinary.parent
    exact ⟨params, source, _, split, writtenWithSuper_recastParentCalls sound source,
      inserted_of_insertFields inserted⟩
  ofMethods := by
    intro member mem kind
    obtain ⟨part, hpart, h⟩ := exists_mem_of_mapM hmethods
      (List.mem_filter.2 ⟨mem, by rw [kind]; rfl⟩)
    rw [methodParts, kind] at h
    obtain ⟨⟨params, source⟩, split, rfl⟩ := map_eq_ok h
    have sound := recasts_methodForms ordinary.name ordinary.root ordinary.parent
    exact ⟨_, hpart, params, source, split, writtenWithSuper_recastParentCalls sound source⟩

/-- **The delegations that are left in the statement for a class that inherits** are delegations
that survive; what has been written for the others calls `super`. -/
theorem render_survivors {statement : Text} (ordinary : Ordinary root d)
    (inherits : d.superclass.isSome = true) (h : render root d = .ok statement) :
    ∃ constructor methods, constructorParts root d = .ok constructor ∧
      (d.members.filter (·.kind.isMethod)).mapM (methodParts root d) = .ok methods ∧
      statement = statementOf d (constructor :: methods) ∧
      CarriesFunctions d constructor methods ∧
      ∀ part ∈ constructor :: methods, ∀ way m, m ≠ "super".toList →
        Delegates d.name way m part.2 → Survives d way m := by
  obtain ⟨constructor, methods, hconstructor, hmethods, whole⟩ := exists_parts inherits h
  refine ⟨constructor, methods, hconstructor, hmethods, whole,
    carriesFunctions_of_parts ordinary hconstructor hmethods, ?_⟩
  intro part hpart way m hm delegates
  rcases List.mem_cons.1 hpart with rfl | hpart
  · exact survives_of_constructorParts ordinary hm hconstructor delegates
  · obtain ⟨member, hmember, made⟩ := exists_of_mem_mapM hmethods hpart
    obtain ⟨mem, isMethod⟩ := List.mem_filter.1 hmember
    exact survives_of_methodParts ordinary hm mem isMethod made delegates

end

/-- A class that calls the constructor and a method of its parent. -/
def withCalls : Text :=
  "/** @constructor */\na.B = function(x) \x7b\n  a.B.base(this, 'constructor', x);\n\x7d;\n" ++
    "goog.inherits(a.B, a.A);\n\n" ++
    "/** @return \x7bnumber\x7d */\na.B.prototype.m = function() \x7b\n" ++
    "  return a.B.superClass_.m.call(this);\n\x7d;\n"

/-- The class as it is found. -/
def withCallsClass : Definition where
  constructor := ⟨"a.B", "(x) \x7b\n  a.B.base(this, 'constructor', x);\n\x7d", (0, 78),
    ⟨[["@constructor"]]⟩, []⟩
  members := [⟨"m", " = function() \x7b\n  return a.B.superClass_.m.call(this);\n\x7d;", (105, 201),
    ⟨[["@return \x7bnumber\x7d"]]⟩, "goog"⟩]
  superclass := some "a.A"
  inheritsSpan := some (79, 103)

theorem ordinary_withCallsClass : Ordinary "goog" withCallsClass where
  name := by decide
  plain := by decide
  root := by decide
  parent := by
    rintro _ ⟨⟩
    decide
  inConstructor := by
    have split : splitFunction withCallsClass.name withCallsClass.constructor.definition =
      .ok ("x", "a.B.base(this, 'constructor', x);") := rfl
    exact Parted.of_split split (parted_of_head rfl (by decide +kernel))
  inMethods := by
    intro member mem kind
    obtain rfl := List.mem_singleton.1 mem
    have split : splitFunction "m" "() \x7b\n  return a.B.superClass_.m.call(this);\n\x7d;" =
      .ok ([], "return a.B.superClass_.m.call(this);") := rfl
    exact Parted.of_split split (parted_of_head rfl (by decide +kernel))
  documented := by
    intro member mem kind
    obtain rfl := List.mem_singleton.1 mem
    cases kind

set_option maxRecDepth 4000 in
/-- The theorem for a class whose delegations are all written with `super`. -/
theorem render_survivors_withCalls :
    collect "goog" withCalls = .ok [withCallsClass] ∧ Ordinary "goog" withCallsClass ∧
      ∃ statement, render "goog" withCallsClass = .ok statement ∧ ∃ constructor methods,
        constructorParts "goog" withCallsClass = .ok constructor ∧
        (withCallsClass.members.filter (·.kind.isMethod)).mapM
          (methodParts "goog" withCallsClass) = .ok methods ∧
        statement = statementOf withCallsClass (constructor :: methods) ∧
        CarriesFunctions withCallsClass constructor methods ∧
        ∀ part ∈ constructor :: methods, ∀ way m, m ≠ "super".toList →
          Delegates withCallsClass.name way m part.2 → Survives withCallsClass way m :=
  ⟨rfl, ordinary_withCallsClass, _, rfl, render_survivors ordinary_withCallsClass rfl rfl⟩

/-- A class whose constructor calls a method of its parent. -/
def withMethodCall : Text :=
  "/** @constructor */\na.B = function() \x7b\n  a.B.superClass_.init.call(this);\n\x7d;\n" ++
    "goog.inherits(a.B, a.A);\n"

set_option maxRecDepth 4000 in
/-- The call of a method of the parent is left as it is in a constructor. -/
theorem delegates_withMethodCall :
    ∃ d body, collect "goog" withMethodCall = .ok [d] ∧ d.superclass.isSome = true ∧
      constructorParts "goog" d = .ok ("constructor()", body) ∧
      render "goog" d = .ok (statementOf d [("constructor()", body)]) ∧
      Delegates d.name .call "init" body := by
  refine ⟨_, "super();\na.B.superClass_.init.call(this);", rfl, rfl, rfl, rfl, ?_⟩
  have spelled := spells_joinWith (segments "a.B" ++ Way.words "init" .call)
  have opens : OpensThis ('(' :: "this".toList) := ⟨[], [], rfl, rfl, rfl⟩
  have ends : Way.WordEnds ");" := fun a ha => by
    obtain rfl : ')' = a := Option.some.inj ha
    decide
  have guarded : Guarded "super();\n".toList.reverse := fun a ha => by
    obtain rfl : '\n' = a := Option.some.inj ha
    decide
  refine ⟨"super();\n", "a.B.superClass_.init.call(this", ");", rfl, guarded, by decide, ?_⟩
  exact ⟨_, _, [], rfl, spelled, opens, rfl, ends⟩

end Modulize.Class
