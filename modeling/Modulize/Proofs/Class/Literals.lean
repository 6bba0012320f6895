import Modulize.Proofs.Class.Fields
import Modulize.Proofs.Class.Splitting

/-!
# The literals of the bodies of a class statement

The body of a function loses the indentation that its lines share, and gets four spaces in its place
when the class statement is written, line by line (`reindented`). A string or template literal that
goes over several lines is not spared: `render_literals` says what becomes of the literals of every
function of a class, and that they are kept exactly if no later line of a literal is moved
(`Stays`).

A literal can indeed be changed (`literals_moved`).
-/

namespace Modulize.Class

open Pattern Script

/-! ## The literals of a body -/

theorem IsSplit.exists_fills {definition x y : Text} (h : IsSplit definition x y) :
    ∃ u s, Fills ('{' :: u) y s := by
  obtain ⟨u, c, g, s, -, -, -, -, fills⟩ := h
  exact ⟨_, s, fills⟩

/-- The length of the indentation that the lines between the braces of a function share. -/
def bodyMargin (y : Text) : Nat := marginLength (Text.strip (· == '\n') y)

theorem settles_of_fills {u y s w x w' x' : Text} {fresh : Bool} (h : Fills ('{' :: u) y s)
    (split : y = w ++ (x ++ w')) (blank : w.all isBlank = true) (blank' : w'.all isBlank = true)
    (layout : Relaid fresh x x') : Settles x' := by
  rw [split] at h
  have closes : ClosesNext ['}'] := .cons rfl []
  obtain ⟨σ, hσ, through⟩ := h.exists_runWithin blank blank' layout.at_line
    (endsOpen_cons (Or.inr rfl) u) endsOpen_brace closes
  rw [Settles, Scan.run_of_runWithin through]
  exact Scan.isSettled_of_eq hσ

/-- **The literals of the body of a function**: their later lines lose the indentation of the
body. -/
theorem literals_bodyText {u y s : Text} (h : Fills ('{' :: u) y s) :
    literals (bodyText y) = (literals y).map (mapLater (relead (dedented (bodyMargin y)))) ∧
      Settles (bodyText y) := by
  obtain ⟨n, n', around, newlines, newlines'⟩ := Text.exists_strip (· == '\n') y
  obtain ⟨v, v', trimmed, blank, blank'⟩ :=
    Text.exists_strip isBlank (Text.dedent (Text.strip (· == '\n') y))
  obtain ⟨w, x, w', _, split, blankFront, blankBack, layout⟩ := exists_relaid_bodyText y
  have newlines := isBlank_of_newlines newlines
  have newlines' := isBlank_of_newlines newlines'
  have inner : Settles (Text.strip (· == '\n') y) :=
    settles_of_fills h around newlines newlines' (.refl _ true)
  have settles : Settles (bodyText y) := settles_of_fills h split blankFront blankBack layout
  have whole : literals y = literals (Text.strip (· == '\n') y) := by
    nth_rewrite 1 [around]
    exact (literals_around newlines newlines' inner).1
  have body : literals (Text.dedent (Text.strip (· == '\n') y)) = literals (bodyText y) := by
    rw [trimmed]
    exact (literals_around blank blank' settles).1
  refine ⟨?_, settles⟩
  rw [← body, whole]
  exact ((releaded_dedent _).literals (isGapRule_dedented _)).1

/-- The body of a function as it stands between its braces in a class statement. -/
def writtenBody (b : Text) : Text :=
  if b.isEmpty then [] else '\n' :: ((b.indent "  ").indent "  " ++ "\n  ".toList)

theorem indented_indented (w : Text) (inked : Bool) :
    indented "  " (indented "  " w inked) inked = indented "    " w inked := by
  cases inked with
  | true => rfl
  | false => cases w <;> rfl

/-- **The literals of a body that is written**: their later lines get four spaces. -/
theorem literals_writtenBody {b : Text} (settles : Settles b) :
    literals (writtenBody b) = (literals b).map (mapLater (relead (indented "    "))) ∧
      Settles (writtenBody b) := by
  have rule : IsGapRule (indented "  ") := isGapRule_indented (by decide)
  have once (t : Text) : Releaded (indented "  ") true t (t.indent "  ") :=
    releaded_indent (by decide) t
  obtain ⟨first, settles'⟩ := (once b).literals rule
  obtain ⟨second, settles''⟩ := (once (b.indent "  ")).literals rule
  have twice : literals ((b.indent "  ").indent "  ") =
      (literals b).map (mapLater (relead (indented "    "))) := by
    rw [second, first, List.map_map]
    refine List.map_congr_left fun l _ => (mapLater_mapLater rule l).trans ?_
    simp only [indented_indented]
  unfold writtenBody
  cases b with
  | nil => exact ⟨rfl, settles⟩
  | cons a b =>
    rw [← twice]
    exact literals_around (w := ['\n']) rfl (by decide) (settles''.2 (settles'.2 settles))

/-- What a beginning of a line becomes: `m` characters are taken away, and four spaces put in their
place; nothing is left of a line of spaces and tabs only. -/
def reindented (m : Nat) (w : Text) (inked : Bool) : Text :=
  if inked then "    " ++ w.drop m else []

/-- A line that is not moved: an empty line, or one with something else than spaces and tabs that
has the same beginning afterwards. -/
def Stays (m : Nat) (k : Text) : Prop :=
  k = [] ∨ k.all isSpaceOrTab = false ∧
    "    " ++ (k.takeWhile isSpaceOrTab).drop m = k.takeWhile isSpaceOrTab

instance (m : Nat) (k : Text) : Decidable (Stays m k) := inferInstanceAs (Decidable (_ ∨ _))

theorem indented_dedented (m : Nat) (w : Text) (inked : Bool) :
    indented "    " (dedented m w inked) inked = reindented m w inked := by
  cases inked <;> rfl

theorem isGapRule_reindented (m : Nat) : IsGapRule (reindented m) where
  gap w b gap := by
    rw [← indented_dedented]
    exact (isGapRule_indented (by decide)).gap _ b ((isGapRule_dedented m).gap w b gap)
  empty := rfl

theorem relead_reindented_iff {m : Nat} {k : Text} (line : '\n' ∉ k) :
    relead (reindented m) k = k ↔ Stays m k := by
  have parts := List.takeWhile_append_dropWhile (p := isSpaceOrTab) (l := k)
  have moved : relead (reindented m) k = k ↔ reindented m (k.takeWhile isSpaceOrTab)
      (inked (k.dropWhile isSpaceOrTab)) = k.takeWhile isSpaceOrTab := by
    nth_rewrite 2 [← parts]
    exact List.append_left_inj _
  rw [moved, Stays]
  cases rest : k.dropWhile isSpaceOrTab with
  | nil =>
    have gap : k.all isSpaceOrTab = true := List.all_eq_true.2 (List.dropWhile_eq_nil_iff.1 rest)
    rw [rest, List.append_nil] at parts
    simp [gap, parts, reindented, inked, eq_comm]
  | cons a r =>
    have other : a ≠ '\n' := fun e => line (by rw [← parts, rest, e]; simp)
    have shows : k.all isSpaceOrTab = false := Bool.eq_false_iff.2 fun gap => by
      rw [List.dropWhile_eq_nil_iff.2 (List.all_eq_true.1 gap)] at rest
      cases rest
    have filled : k ≠ [] := by
      rintro rfl
      cases rest
    simp [shows, filled, reindented, inked, other]

/-! ## Fields in a constructor -/

theorem isStatement_superCall : IsStatement "super();" :=
  ⟨⟨"super()", rfl⟩, 1, rfl⟩

/-- **The literals of a constructor with its fields**, unless the fields go into the middle of it:
those of the fields come first. -/
theorem literals_insertFields {b b' : Text} {fields : List Text} {inherits : Bool}
    (h : insertFields b fields inherits = .ok b')
    (free : superCall.occursIn b = true → fields = []) (statements : ∀ s ∈ fields, IsStatement s)
    (settles : Settles b) :
    literals b' = fields.flatMap literals ++ literals b ∧ Settles b' := by
  unfold insertFields at h
  split at h
  · rename_i none
    obtain rfl := List.isEmpty_iff.1 (Bool.and_eq_true_iff.1 none).1
    obtain rfl := Except.ok.inj h
    exact ⟨rfl, settles⟩
  · split at h
    · obtain rfl := Except.ok.inj h
      have head : ∀ s ∈ if inherits then ["super();".toList] else [], IsStatement s ∧
          literals s = [] := by
        cases inherits with
        | true => simpa using ⟨isStatement_superCall, rfl⟩
        | false => simp
      have all := List.forall_mem_append.2 ⟨fun s hs => (head s hs).1, statements⟩
      have none : (if inherits then ["super();".toList] else []).flatMap literals = [] :=
        List.flatMap_eq_nil_iff.2 fun s hs => (head s hs).2
      have whole := literals_joinWith all settles
      rw [List.flatMap_append, none, List.nil_append] at whole
      exact whole
    · rename_i found first
      obtain rfl := free (by rw [occursIn, first]; rfl)
      obtain rfl := Except.ok.inj h
      exact ⟨rfl, settles⟩

/-! ## The class statement -/

/-- A signature and behind it, in braces, the body as it is written in a class statement. -/
def Carries (statement signature b : Text) : Prop :=
  Text.indent (signature ++ " \x7b") "  " ++ (writtenBody b ++ ['}']) <:+: statement

theorem indent_partText (signature b : Text) : (partText (signature, b)).indent "  " =
    Text.indent (signature ++ " \x7b") "  " ++ (writtenBody b ++ ['}']) := by
  have opens : Text.indent (signature ++ " \x7b") "  " =
      Text.indentFrom "  " true ((signature ++ [' ']) ++ ['{']) := by
    rw [Text.indent]
    simp
  have brace : '{' ≠ '\n' := by decide
  rw [opens, partText, block, writtenBody, Text.indent]
  cases b with
  | nil =>
    have whole : signature ++ " \x7b\x7d" = (signature ++ [' ']) ++ '{' :: ['}'] := by simp
    simp only [List.isEmpty_nil, if_true]
    rw [whole, Text.indentFrom_append_cons brace]
    rfl
  | cons a b =>
    have whole : signature ++ " \x7b\n" ++ Text.indent (a :: b) "  " ++ "\n\x7d" =
        (signature ++ [' ']) ++
          '{' :: ([] ++ '\n' :: (Text.indent (a :: b) "  " ++ '\n' :: ['}'])) := by
      simp
    simp only [List.isEmpty_cons, Bool.false_eq_true, if_false]
    rw [whole, Text.indentFrom_append_cons brace, Text.indentFrom_append_newline,
      Text.indentFrom_append_newline]
    simp [Text.indentFrom, Text.indent]

/-- Every part of a class stands, indented, in its statement. -/
theorem exists_partTexts {root statement : Text} {d : Definition}
    (h : render root d = .ok statement) :
    ∃ constructor methods, constructorText root d = .ok constructor ∧
      (d.members.filter (·.kind.isMethod)).mapM (methodText root d) = .ok methods ∧
      ∀ part ∈ constructor ++ methods, part.indent "  " <:+: statement := by
  obtain ⟨constructor, hconstructor, h⟩ := bind_eq_ok h
  obtain ⟨methods, hmethods, h⟩ := bind_eq_ok h
  refine ⟨constructor, methods, hconstructor, hmethods, fun part hpart => ?_⟩
  cases parts : constructor ++ methods with
  | nil =>
    rw [parts] at hpart
    cases hpart
  | cons first parts' =>
    rw [parts] at h hpart
    obtain rfl := Except.ok.inj h
    have within := Text.infix_joinWith "\n\n" (List.mem_map_of_mem (f := (·.indent "  ")) hpart)
    exact within.trans ⟨header d ++ ['\n'], "\n\x7d;", by simp⟩

/-- None of the patterns occurs in the body of the function. -/
def Free (patterns : List Pattern) (function : Except Failure (Text × Text)) : Prop :=
  ∀ part, function = .ok part → ∀ p ∈ patterns, p.occursIn part.2 = false

instance (patterns : List Pattern) (function : Except Failure (Text × Text)) :
    Decidable (Free patterns function) :=
  match function with
  | .error _ => isTrue nofun
  | .ok part => decidable_of_iff (∀ p ∈ patterns, p.occursIn part.2 = false)
      ⟨fun h _ e => Except.ok.inj e ▸ h, fun h => h part rfl⟩

theorem recastParentCalls_eq_self {forms : List ParentForm} {b : Text}
    (h : ∀ p ∈ forms.map (·.pattern), p.occursIn b = false) : recastParentCalls forms b = b := by
  unfold recastParentCalls
  induction forms with
  | nil => rfl
  | cons form forms ih =>
    obtain ⟨here, later⟩ := List.forall_mem_cons.1 h
    rw [List.foldl_cons, replace, allMatches_eq_nil here]
    exact ih later

/-- No function of the class calls the parent in one of the written forms. -/
structure WithoutParentCalls (root : Text) (d : Definition) : Prop where
  ofConstructor : Free ((constructorForms root d).map (·.pattern))
    (splitFunction d.name d.constructor.definition)
  ofMethods : ∀ m ∈ d.members, m.kind = .method →
    Free ((methodForms root d).map (·.pattern)) (splitFunction m.name m.function)

/-- **The literals of a body that is written** from `y`, with literals of fields in front of those
of the source. -/
structure KeepsLiterals (fields : List Text) (y b : Text) : Prop where
  written : literals (writtenBody b) = fields.map (mapLater (relead (indented "    "))) ++
    (literals y).map (mapLater (relead (reindented (bodyMargin y))))
  same_iff : literals (writtenBody b) = literals y ↔
    fields = [] ∧ ∀ l ∈ literals y, ∀ k ∈ (Text.lines l).drop 1, Stays (bodyMargin y) k

theorem keepsLiterals {u y s b : Text} {fields : List Text} (h : Fills ('{' :: u) y s)
    (whole : literals b = fields ++ literals (bodyText y)) (settles : Settles b) :
    KeepsLiterals fields y b := by
  have written : literals (writtenBody b) = fields.map (mapLater (relead (indented "    "))) ++
      (literals y).map (mapLater (relead (reindented (bodyMargin y)))) := by
    rw [(literals_writtenBody settles).1, whole, (literals_bodyText h).1, List.map_append,
      List.map_map]
    refine congrArg _ (List.map_congr_left fun l _ => ?_)
    refine (mapLater_mapLater (isGapRule_dedented _) l).trans ?_
    simp only [indented_dedented]
  refine ⟨written, ?_⟩
  have stays (l : Text) : mapLater (relead (reindented (bodyMargin y))) l = l ↔
      ∀ k ∈ (Text.lines l).drop 1, Stays (bodyMargin y) k := by
    rw [mapLater_eq_self_iff (isGapRule_reindented _)]
    exact forall₂_congr fun k hk => relead_reindented_iff
      (Text.not_mem_of_mem_lines (List.mem_of_mem_drop hk))
  rw [written]
  constructor
  · intro same
    have length := congrArg List.length same
    simp only [List.length_append, List.length_map] at length
    obtain rfl : fields = [] := List.length_eq_zero_iff.1 (by omega)
    refine ⟨rfl, fun l hl => (stays l).1 ?_⟩
    rw [List.map_nil, List.nil_append] at same
    nth_rewrite 2 [← List.map_id (literals y)] at same
    exact List.map_inj_left.1 same l hl
  · rintro ⟨rfl, all⟩
    rw [List.map_nil, List.nil_append, List.map_congr_left fun l hl => (stays l).2 (all l hl),
      List.map_id']

variable {root t statement : Text} {ds : List Definition} {d : Definition}

theorem methodText_literals {m : Member} {text : Text} (kind : m.kind = .method)
    (free : Free ((methodForms root d).map (·.pattern)) (splitFunction m.name m.function))
    (h : methodText root d m = .ok text) :
    ∃ x y, IsSplit m.function x y ∧
      text = partText (m.doc.render ++ (m.name ++ "(" ++ x.trim ++ ")"), bodyText y) ∧
      KeepsLiterals [] y (bodyText y) := by
  rw [methodText_eq, methodParts, kind] at h
  obtain ⟨part, made, rfl⟩ := map_eq_ok h
  obtain ⟨⟨params, body⟩, split, rfl⟩ := map_eq_ok made
  have none := recastParentCalls_eq_self (free _ split)
  obtain ⟨x, y, isSplit, rfl, rfl⟩ := splitFunction_eq_ok_iff.1 split
  obtain ⟨u, s, fills⟩ := isSplit.exists_fills
  refine ⟨x, y, isSplit, ?_, keepsLiterals fills rfl (literals_bodyText fills).2⟩
  simp only at none
  simp only [none]

theorem isStatement_of_mem_initializers (hds : collect root t = .ok ds) (hd : d ∈ ds) {s : Text}
    (hs : s ∈ initializers d) : IsStatement s := by
  obtain ⟨m, hm, rfl⟩ := List.mem_map.1 hs
  obtain ⟨mem, isField⟩ := List.mem_filter.1 hm
  obtain ⟨x, hx, read⟩ := exists_readMember hds hd mem
  exact isStatement_fieldStatement (fieldSource_of_readMember hx read) (by simpa using isField)

/-- The class has no fields, or its constructor does not mention a call of the parent as it is to be
written: the fields are put in front. -/
def FieldsInFront (d : Definition) : Prop :=
  initializers d = [] ∨ Free [superCall] (splitFunction d.name d.constructor.definition)

instance (d : Definition) : Decidable (FieldsInFront d) := inferInstanceAs (Decidable (_ ∨ _))

theorem constructorText_literals {texts : List Text}
    (free : Free ((constructorForms root d).map (·.pattern))
      (splitFunction d.name d.constructor.definition))
    (front : FieldsInFront d) (statements : ∀ s ∈ initializers d, IsStatement s)
    (h : constructorText root d = .ok texts) :
    ∃ x y, IsSplit d.constructor.definition x y ∧
      (texts = [] ∧ initializers d = [] ∧ literals y = [] ∨
        ∃ b, texts = [partText ((d.constructor.doc.only ["param"]).render ++
            ("constructor(" ++ x.trim ++ ")"), b)] ∧
          KeepsLiterals ((initializers d).flatMap literals) y b) := by
  unfold constructorText at h
  obtain ⟨⟨params, body⟩, split, h⟩ := bind_eq_ok h
  have none := recastParentCalls_eq_self (free _ split)
  have inFront : superCall.occursIn body = true → initializers d = [] := fun mentioned =>
    front.resolve_right fun free => by
      rw [free _ split superCall (List.mem_singleton_self _)] at mentioned
      cases mentioned
  obtain ⟨x, y, isSplit, rfl, rfl⟩ := splitFunction_eq_ok_iff.1 split
  obtain ⟨u, s, fills⟩ := isSplit.exists_fills
  obtain ⟨same, settles⟩ := literals_bodyText fills
  refine ⟨x, y, isSplit, ?_⟩
  simp only at none h
  split at h
  · rename_i unneeded
    simp only [Bool.and_eq_true, List.isEmpty_iff] at unneeded
    obtain ⟨⟨⟨-, emptyBody⟩, emptyFields⟩, -⟩ := unneeded
    rw [emptyBody] at same
    exact Or.inl ⟨(Except.ok.inj h).symm, emptyFields, List.map_eq_nil_iff.1 same.symm⟩
  · obtain ⟨b, inserted, h⟩ := bind_eq_ok h
    rw [none] at inserted
    obtain ⟨whole, settled⟩ := literals_insertFields inserted inFront statements settles
    obtain rfl := Except.ok.inj h
    exact Or.inr ⟨b, congrArg ([·]) (append_block _ _ _), keepsLiterals fills whole settled⟩

/-- **The literals of a class that is written**, if its functions do not call the parent: every
method and the constructor, unless that has nothing to do, stand in the statement with the literals
of their source, moved with their lines. So the literals are the same exactly if no later line of
one is moved, and no field brings a literal. -/
theorem render_literals (hds : collect root t = .ok ds) (hd : d ∈ ds)
    (free : WithoutParentCalls root d) (front : FieldsInFront d)
    (h : render root d = .ok statement) :
    (∀ m ∈ d.members, m.kind = .method → ∃ x y, IsSplit m.function x y ∧
      Carries statement (m.doc.render ++ (m.name ++ "(" ++ x.trim ++ ")")) (bodyText y) ∧
      KeepsLiterals [] y (bodyText y)) ∧
    ∃ x y, IsSplit d.constructor.definition x y ∧
      (constructorText root d = .ok [] ∧ initializers d = [] ∧ literals y = [] ∨
        ∃ b, Carries statement ((d.constructor.doc.only ["param"]).render ++
            ("constructor(" ++ x.trim ++ ")")) b ∧
          KeepsLiterals ((initializers d).flatMap literals) y b) := by
  obtain ⟨constructor, methods, hconstructor, hmethods, within⟩ := exists_partTexts h
  constructor
  · intro m hm kind
    obtain ⟨text, mem, made⟩ := exists_mem_of_mapM hmethods
      (List.mem_filter.2 ⟨hm, by rw [kind]; rfl⟩)
    obtain ⟨x, y, isSplit, rfl, keeps⟩ := methodText_literals kind (free.ofMethods m hm kind) made
    refine ⟨x, y, isSplit, ?_, keeps⟩
    rw [Carries, ← indent_partText]
    exact within _ (List.mem_append_right _ mem)
  · have statements : ∀ s ∈ initializers d, IsStatement s := fun s hs =>
      isStatement_of_mem_initializers hds hd hs
    obtain ⟨x, y, isSplit, ⟨rfl, noFields, none⟩ | ⟨b, rfl, keeps⟩⟩ :=
      constructorText_literals free.ofConstructor front statements hconstructor
    · exact ⟨x, y, isSplit, Or.inl ⟨hconstructor, noFields, none⟩⟩
    · refine ⟨x, y, isSplit, Or.inr ⟨b, ?_, keeps⟩⟩
      rw [Carries, ← indent_partText]
      exact within _ (by simp)

/-- A class with a field, and with a literal in a method that is not moved. -/
def withLiterals : Text :=
  "/** @constructor */\na.B = function(x) \x7b\n  this.x = 'x';\n\x7d;\n\n" ++
    "/** @private */\na.B.prototype.y_ = \"y\";\n\n" ++
    "a.B.prototype.f = function() \x7b\n    return `a\n    b`;\n\x7d;\n"

/-- The class as it is found. -/
def withLiteralsClass : Definition where
  constructor := ⟨"a.B", "(x) \x7b\n  this.x = 'x';\n\x7d", (0, 58), ⟨[["@constructor"]]⟩, []⟩
  members :=
    [⟨"y_", " = \"y\";", (60, 99), ⟨[["@private"]]⟩, "goog"⟩,
      ⟨"f", " = function() \x7b\n    return `a\n    b`;\n\x7d;", (101, 156), ⟨[]⟩, "goog"⟩]
  superclass := none
  inheritsSpan := none

theorem withoutParentCalls_withLiterals : WithoutParentCalls "goog" withLiteralsClass where
  ofConstructor := by decide +kernel
  ofMethods := by decide +kernel

set_option maxRecDepth 4000 in
/-- The theorem for that class: its constructor gets the literal of the field in front. -/
theorem render_literals_withLiterals :
    collect "goog" withLiterals = .ok [withLiteralsClass] ∧
      ∃ statement, render "goog" withLiteralsClass = .ok statement ∧
        (∀ m ∈ withLiteralsClass.members, m.kind = .method → ∃ x y, IsSplit m.function x y ∧
          Carries statement (m.doc.render ++ (m.name ++ "(" ++ x.trim ++ ")")) (bodyText y) ∧
          KeepsLiterals [] y (bodyText y)) ∧
        ∃ x y, IsSplit withLiteralsClass.constructor.definition x y ∧
          (constructorText "goog" withLiteralsClass = .ok [] ∧
              initializers withLiteralsClass = [] ∧ literals y = [] ∨
            ∃ b, Carries statement ((withLiteralsClass.constructor.doc.only ["param"]).render ++
                ("constructor(" ++ x.trim ++ ")")) b ∧
              KeepsLiterals ((initializers withLiteralsClass).flatMap literals) y b) := by
  have found : collect "goog" withLiterals = .ok [withLiteralsClass] := by decide +kernel
  have front : FieldsInFront withLiteralsClass := by decide +kernel
  exact ⟨found, _, rfl, render_literals found List.mem_cons_self withoutParentCalls_withLiterals
    front rfl⟩

/-- A class with a method that returns a literal of two lines. -/
def withLines : Text :=
  "/** @constructor */\na.B = function() \x7b\x7d;\n" ++
    "a.B.prototype.f = function() \x7b\n  return `a\n  b`;\n\x7d;\n"

/-- The method as it is found. -/
def withLinesMethod : Member :=
  ⟨"f", " = function() \x7b\n  return `a\n  b`;\n\x7d;", (41, 92), ⟨[]⟩, "goog"⟩

/-- The class as it is found. -/
def withLinesClass : Definition where
  constructor := ⟨"a.B", "() \x7b\x7d", (0, 40), ⟨[["@constructor"]]⟩, []⟩
  members := [withLinesMethod]
  superclass := none
  inheritsSpan := none

set_option maxRecDepth 4000 in
/-- A literal of two lines is moved: its second line gets two more spaces. -/
theorem literals_moved : collect "goog" withLines = .ok [withLinesClass] ∧
    WithoutParentCalls "goog" withLinesClass ∧ withLinesMethod.kind = .method ∧
    ∃ y statement, IsSplit withLinesMethod.function [] y ∧
      render "goog" withLinesClass = .ok statement ∧ Carries statement "f()" (bodyText y) ∧
      literals y = ["`a\n  b`"] ∧ literals (writtenBody (bodyText y)) = ["`a\n    b`"] := by
  have split : IsSplit withLinesMethod.function [] "\n  return `a\n  b`;\n" :=
    ⟨[], ')', [' '], "\x7d;", rfl, by simp, by decide, ⟨⟨')', _, rfl, rfl⟩, rfl⟩,
      ⟨⟨'}', [';'], rfl, rfl⟩, rfl⟩⟩
  have free : WithoutParentCalls "goog" withLinesClass := ⟨by decide +kernel, by decide +kernel⟩
  have carried : Carries "a.B = class \x7b\n  f() \x7b\n    return `a\n    b`;\n  \x7d\n\x7d;" "f()"
      (bodyText "\n  return `a\n  b`;\n") := ⟨"a.B = class \x7b\n", "\n\x7d;", rfl⟩
  exact ⟨by decide +kernel, free, rfl, _, _, split, rfl, carried, by decide +kernel,
    by decide +kernel⟩

end Modulize.Class
