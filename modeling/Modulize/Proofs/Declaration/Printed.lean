import Modulize.Proofs.Declaration.Merging

/-!
# Printed requires are read back

A require is printed as one statement (`PrintedRequire.statement`): a word that declares a variable
and what it binds, if it binds anything, then the call below the root. What it binds is one name, or
names in braces. Between such statements stand lines that do not begin like one (`PrintedLine`).

`requires` reads such a text back (`requires_printed`): it gives the declarations of the printed
statements in order (`PrintedRequire.declaration`), unless one of them takes several members apart;
then the first of these is refused.
-/

namespace Modulize.Declaration

open Pattern Qualified

/-! ## Printing requires -/

/-- A name without dots. -/
abbrev Identifier := {s : Text // IsIdentifier s}

/-- A member of a namespace, and the other name under which it is taken, if there is one. -/
structure PrintedMember where
  external : Identifier
  internal? : Option Identifier

namespace PrintedMember

/-- The member within the braces: its name, and the other name behind a colon. -/
def text (m : PrintedMember) : Text :=
  match m.internal? with
  | none => m.external
  | some name => m.external.1 ++ ':' :: ' ' :: name

/-- The names of the member there and here. -/
def entry (m : PrintedMember) : ExportEntry :=
  ⟨m.external, (m.internal?.getD m.external).1⟩

end PrintedMember

/-- What a require binds: one name, or one or more members. -/
inductive PrintedTarget
  | alias (name : Identifier)
  | members (first : PrintedMember) (others : List PrintedMember)

namespace PrintedTarget

/-- The names as they are printed. -/
def text : PrintedTarget → Text
  | .alias name => name
  | .members first others =>
    '{' :: (Text.joinWith ", " ((first :: others).map PrintedMember.text) ++ ['}'])

/-- What the names bind. -/
def binding : PrintedTarget → Binding
  | .alias name => .alias name
  | .members first others => .members ((first :: others).map PrintedMember.entry)

/-- Several members are taken apart. -/
def takesSeveral : PrintedTarget → Bool
  | .alias _ => false
  | .members _ others => !others.isEmpty

end PrintedTarget

/-- A require: what it binds, with the word that declares it, the keyword, and the namespace. -/
structure PrintedRequire where
  opening? : Option ({word : Text // word ∈ declarationWords} × PrintedTarget)
  keyword : {keyword : Text // keyword ∈ requireWords}
  name : {name : Text // IsDottedName name}

namespace PrintedRequire

/-- What the require binds, as it is printed. -/
def target? (r : PrintedRequire) : Option Text := r.opening?.map fun (_, target) => target.text

/-- What stands before the call. -/
def openingText (r : PrintedRequire) : Text :=
  match r.opening? with
  | none => []
  | some (word, target) => word.1 ++ ([' '] ++ (target.text ++ " = "))

/-- The statement, with its semicolon. -/
def statement (root : Text) (r : PrintedRequire) : Text :=
  r.openingText ++ callLine root r.keyword r.name

/-- What the require binds. -/
def binding (r : PrintedRequire) : Binding :=
  match r.opening? with
  | none => .plain
  | some (_, target) => target.binding

/-- A forward declaration is of its own kind; the other keywords require. -/
def kind (r : PrintedRequire) : RequireKind :=
  if r.keyword.1 = "forwardDeclare" then .forward else .explicit

/-- The dependency that the statement declares. -/
def declaration (root : Text) (r : PrintedRequire) : Require :=
  ⟨r.name, r.kind, r.binding, some (r.statement root)⟩

/-- The require takes several members apart. -/
def takesSeveral (r : PrintedRequire) : Bool :=
  r.opening?.any fun (_, target) => target.takesSeveral

end PrintedRequire

/-- A printed require, or one line that begins neither with the root nor with a word that declares
a variable. -/
inductive PrintedLine (root : Text)
  | require (r : PrintedRequire)
  | other (line : Text) (single : '\n' ∉ line) (hroot : ¬ OpensRoot root line)
      (hwords : ∀ word ∈ declarationWords, ¬ word <+: line)

namespace PrintedLine

variable {root : Text}

/-- The text of the line. -/
def text : PrintedLine root → Text
  | .require r => r.statement root
  | .other line _ _ _ => line

/-- The require on the line. -/
def require? : PrintedLine root → Option PrintedRequire
  | .require r => some r
  | .other .. => none

end PrintedLine

/-! ## Reading what a require binds -/

/-- The text begins and ends with a character of an identifier. -/
def IsFramed (t : Text) : Prop :=
  (∃ a r, t = a :: r ∧ isIdent a = true) ∧ ∃ r a, t = r ++ [a] ∧ isIdent a = true

namespace IsFramed

variable {s t : Text}

theorem between (hs : IsFramed s) (ht : IsFramed t) (m : Text) : IsFramed (s ++ m ++ t) := by
  obtain ⟨⟨a, r, rfl, ha⟩, -⟩ := hs
  obtain ⟨-, r', b, rfl, hb⟩ := ht
  exact ⟨⟨a, _, rfl, ha⟩, a :: r ++ m ++ r', b, by simp, hb⟩

theorem joinWith {ts : List Text} (h : ∀ t ∈ ts, IsFramed t) (hne : ts ≠ []) (glue : Text) :
    IsFramed (Text.joinWith glue ts) := by
  fun_induction Text.joinWith glue ts with
  | case1 => exact absurd rfl hne
  | case2 t => exact h t (by simp)
  | case3 t ts more ih =>
    exact (h t (by simp)).between (ih (fun t' ht' => h t' (by simp [ht'])) more) glue

/-- There is nothing to take away at the ends of a framed text. -/
theorem dropEndWhile_eq (h : IsFramed t) {p : Char → Bool}
    (hp : ∀ a, isIdent a = true → p a = false) : Text.dropEndWhile p t = t := by
  obtain ⟨-, r, a, rfl, ha⟩ := h
  exact Text.dropEndWhile_concat (hp a ha)

theorem trim_eq (h : IsFramed t) : t.trim = t := by
  obtain ⟨⟨a, r, rfl, ha⟩, s, b, e, hb⟩ := h
  refine Text.dropEndWhile_dropWhile_eq_self ?_ ?_
  · simpa using isBlank_eq_false_of_isIdent ha
  · simpa [e] using isBlank_eq_false_of_isIdent hb

end IsFramed

theorem isFramed_of_isIdentifier {s : Text} (h : IsIdentifier s) : IsFramed s :=
  ⟨h.exists_cons, h.exists_concat⟩

theorem isIdentifier_eq_true {s : Text} (h : IsIdentifier s) : isIdentifier s = true := by
  simpa [isIdentifier, IsIdentifier] using h

namespace PrintedMember

theorem isFramed_text (m : PrintedMember) : IsFramed m.text := by
  obtain ⟨external, internal?⟩ := m
  have framed := isFramed_of_isIdentifier external.2
  cases internal? with
  | none => exact framed
  | some name =>
    have framed := framed.between (isFramed_of_isIdentifier name.2) ": "
    rwa [List.append_assoc] at framed

theorem not_mem_text (m : PrintedMember) {a : Char} (ha : isIdent a = false)
    (other : a ∉ (": " : Text)) : a ∉ m.text := by
  obtain ⟨external, internal?⟩ := m
  have first := external.2.not_mem ha
  cases internal? with
  | none => exact first
  | some name =>
    have second := name.2.not_mem ha
    simp_all [text]

/-- **A printed member is read as its entry.** -/
theorem readEntry_text (m : PrintedMember) : readEntry m.text = .ok m.entry := by
  obtain ⟨external, internal?⟩ := m
  have colon : ':' ∉ external.1 := external.2.not_mem (by decide)
  have trimmed := (isFramed_of_isIdentifier external.2).trim_eq
  have fits := isIdentifier_eq_true external.2
  cases internal? with
  | none => simp [readEntry, text, entry, Text.cut?_eq_none colon, trimmed, fits]
  | some name =>
    have behind : Text.trim (' ' :: name.1) = name.1 := (isFramed_of_isIdentifier name.2).trim_eq
    simp [readEntry, text, entry, Text.cut?_append_cons colon, trimmed, behind, fits,
      isIdentifier_eq_true name.2]

end PrintedMember

/-- What stands between the braces. -/
def printedMembers (ms : List PrintedMember) : Text :=
  Text.joinWith ", " (ms.map PrintedMember.text)

theorem isFramed_printedMembers {ms : List PrintedMember} (hne : ms ≠ []) :
    IsFramed (printedMembers ms) := by
  refine IsFramed.joinWith (fun t ht => ?_) (by simpa using hne) ", "
  obtain ⟨m, -, rfl⟩ := List.mem_map.1 ht
  exact m.isFramed_text

theorem not_mem_printedMembers (ms : List PrintedMember) {a : Char} (ha : isIdent a = false)
    (other : a ∉ (": , " : Text)) : a ∉ printedMembers ms := by
  refine Text.not_mem_joinWith (fun mem => other (by simp_all)) fun t ht => ?_
  obtain ⟨m, -, rfl⟩ := List.mem_map.1 ht
  exact m.not_mem_text ha fun mem => other (by simp_all)

/-- Only several members are printed with a comma. -/
theorem comma_mem_printedMembers (first : PrintedMember) (others : List PrintedMember) :
    ',' ∈ printedMembers (first :: others) ↔ others ≠ [] := by
  cases others with
  | nil => simpa [printedMembers, Text.joinWith] using first.not_mem_text (by decide) (by decide)
  | cons m ms => simp [printedMembers, Text.joinWith]

namespace PrintedTarget

theorem isTarget_text (target : PrintedTarget) : IsTarget target.text := by
  match target with
  | .alias name => exact Or.inr name.2
  | .members first others => exact Or.inl ⟨_, not_mem_printedMembers _ (by decide) (by decide), rfl⟩

theorem newline_not_mem_text (target : PrintedTarget) : '\n' ∉ target.text := by
  match target with
  | .alias name => exact name.2.not_mem (by decide)
  | .members first others =>
    have inner := not_mem_printedMembers (a := '\n') (first :: others) (by decide) (by decide)
    simpa [text, printedMembers] using inner

/-- **What a printed require binds is read back**, unless it takes several members apart. -/
theorem readBinding_text (target : PrintedTarget) (statement : Text) :
    readBinding (some target.text) statement =
      if target.takesSeveral then .error (.severalMembers statement) else .ok target.binding := by
  match target with
  | .alias name =>
    obtain ⟨a, r, e, ha⟩ := name.2.exists_cons
    have brace : a ≠ '{' := by
      rintro rfl
      exact absurd ha (by decide)
    have plain : readBinding (some name.1) statement = .ok (.alias name.1) := by
      rw [e, readBinding]
      rintro r' ⟨rfl, -⟩
      exact brace rfl
    exact plain
  | .members first others =>
    have framed := isFramed_printedMembers (List.cons_ne_nil first others)
    have commas : Text.dropEndWhile (· == ',') (printedMembers (first :: others)) = _ :=
      framed.dropEndWhile_eq fun a ha => by
        rw [beq_eq_false_iff_ne]
        rintro rfl
        exact absurd ha (by decide)
    have inner : (text (.members first others)) =
        '{' :: (printedMembers (first :: others) ++ ['}']) := rfl
    rw [inner, readBinding, List.dropLast_concat, framed.trim_eq, commas, framed.trim_eq]
    simp only [comma_mem_printedMembers]
    cases others with
    | nil =>
      have single : printedMembers [first] = first.text := rfl
      simp [single, first.readEntry_text, takesSeveral, binding, Except.map]
    | cons m ms => simp [takesSeveral]

end PrintedTarget

/-! ## Reading printed statements -/

namespace PrintedRequire

variable (r : PrintedRequire)

/-- The statement is a require with its semicolon. -/
theorem exists_isRequire (root : Text) :
    ∃ s, IsRequire root r.target? r.keyword r.name s ∧ r.statement root = s ++ [';'] := by
  obtain ⟨opening?, keyword, name⟩ := r
  have call := isCall_usual root keyword.1 name.2
  cases opening? with
  | none => exact ⟨_, ⟨[], _, rfl, keyword.2, call, rfl⟩, rfl⟩
  | some opening =>
    obtain ⟨word, target⟩ := opening
    have binder : IsBinder target.text (word.1 ++ ([' '] ++ (target.text ++ " = "))) :=
      ⟨target.isTarget_text, word.1, [' '], [' '], [' '], word.2, by decide, by decide, by decide,
        by decide, rfl⟩
    exact ⟨_, ⟨_, _, binder, keyword.2, call, rfl⟩, by simp [statement, openingText, callLine]⟩

/-- What a header pattern reads of the statement. -/
def reading (root : Text) (r : PrintedRequire) : Reading :=
  ⟨r.statement root, requireNotes r.target? r.keyword r.name⟩

theorem lineReading_statement {root : Text} (hroot : IsNamespace root) :
    (requireHeader root).StandsAlone (r.statement root) ∧
      (requireHeader root).lineReading (r.statement root) = some (r.reading root) := by
  obtain ⟨s, h, e⟩ := r.exists_isRequire root
  have alone := standsAlone_of_isRequire (b := []) (w := []) hroot h rfl
  rw [reading, e]
  exact alone

theorem group?_reading (root : Text) : (reading root r).group? 1 = r.target? := by
  rw [reading, Reading.group?, requireNotes]
  cases r.target? <;> rfl

/-- What the statement binds is read back, unless it takes several members apart. -/
theorem readBinding_target? (s : Text) :
    readBinding r.target? s =
      if r.takesSeveral then .error (.severalMembers s) else .ok r.binding := by
  obtain ⟨opening?, keyword, name⟩ := r
  cases opening? with
  | none => rfl
  | some opening => exact opening.2.readBinding_text s

/-- **A printed require is read as its declaration**, unless it takes several members apart. -/
theorem requireOf_reading (root : Text) :
    requireOf (reading root r) =
      if r.takesSeveral then .error (.severalMembers (r.statement root))
      else .ok (r.declaration root) := by
  have keyword : (reading root r).groupText 2 = r.keyword := rfl
  have name : requiredName (reading root r) = r.name := rfl
  have text : (reading root r).text = r.statement root := rfl
  rw [requireOf, group?_reading, text, keyword, name, readBinding_target?]
  cases r.takesSeveral <;> rfl

theorem newline_not_mem_statement {root : Text} (hroot : '\n' ∉ root) :
    '\n' ∉ r.statement root := by
  obtain ⟨opening?, keyword, name⟩ := r
  have keywords : ∀ keyword ∈ requireWords, '\n' ∉ keyword := by decide
  have words : ∀ word ∈ declarationWords, '\n' ∉ word := by decide
  have dotted : '\n' ∉ name.1 := not_mem_of_all name.2.2 (by decide)
  have call : '\n' ∉ callLine root keyword name := by
    simp [callLine, hroot, keywords keyword.1 keyword.2, dotted]
  cases opening? with
  | none => exact call
  | some opening =>
    obtain ⟨word, target⟩ := opening
    simp [statement, openingText, words word.1 word.2, target.newline_not_mem_text, call]

end PrintedRequire

namespace PrintedLine

variable {root : Text}

theorem newline_not_mem_text (hroot : '\n' ∉ root) (l : PrintedLine root) : '\n' ∉ l.text := by
  cases l with
  | require r => exact r.newline_not_mem_statement hroot
  | other line single _ _ => exact single

/-- A line is read as its require, whatever follows it. -/
theorem lineReading_text (hroot : IsNamespace root) (l : PrintedLine root) :
    (requireHeader root).StandsAlone l.text ∧
      (requireHeader root).lineReading l.text = l.require?.map (·.reading root) := by
  cases l with
  | require r => exact r.lineReading_statement hroot
  | other line _ hline hwords => exact not_require_of_other hline hwords

end PrintedLine

/-- The text of some lines. -/
def printedText {root : Text} (ls : List (PrintedLine root)) : Text :=
  Text.ofLines (ls.map PrintedLine.text)

/-- The requires on some lines. -/
def printedRequires {root : Text} (ls : List (PrintedLine root)) : List PrintedRequire :=
  ls.filterMap PrintedLine.require?

theorem newline_not_mem_of_isNamespace {root : Text} (hroot : IsNamespace root) : '\n' ∉ root := by
  have joined := joinWith_splitOn '.' root
  rw [← joined]
  exact Text.not_mem_joinWith (by decide) fun s hs => (hroot s hs).not_mem (by decide)

section

variable {root : Text}

/-- **The readings in a printed text** are those of its requires. -/
theorem map_reading_printedText (hroot : IsNamespace root) (ls : List (PrintedLine root)) :
    ((requireHeader root).allMatches (printedText ls)).map Match.reading =
      (printedRequires ls).map (PrintedRequire.reading root) := by
  have newline := newline_not_mem_of_isNamespace hroot
  -- the empty text has one line
  have lines : ∃ ls' : List (PrintedLine root), (printedText ls).lines = ls'.map PrintedLine.text ∧
      printedRequires ls' = printedRequires ls := by
    by_cases empty : ls = []
    · subst empty
      exact ⟨[.other [] (by simp) (not_opensRoot_nil hroot) (by decide)], rfl, rfl⟩
    · refine ⟨ls, Text.lines_ofLines (fun t ht => ?_) (by simpa using empty), rfl⟩
      obtain ⟨l, -, rfl⟩ := List.mem_map.1 ht
      exact l.newline_not_mem_text newline
  obtain ⟨ls', lines, same⟩ := lines
  rw [map_reading_allMatches anchored_requireHeader consumes_requireHeader, lines, ← same]
  · rw [List.filterMap_map, printedRequires, List.map_filterMap]
    exact congrArg (List.filterMap · ls') (funext fun l => (l.lineReading_text hroot).2)
  · intro t ht
    rw [lines] at ht
    obtain ⟨l, -, rfl⟩ := List.mem_map.1 ht
    exact (l.lineReading_text hroot).1

/-- **Reading inverts printing.** The requires of a printed text are the declarations of its
statements, in order, unless some statement takes several members apart; then reading fails with
the first of these. -/
theorem requires_printedText (hroot : IsNamespace root) (ls : List (PrintedLine root)) :
    requires root (printedText ls) =
      match (printedRequires ls).find? PrintedRequire.takesSeveral with
      | some r => .error (.severalMembers (r.statement root))
      | none => .ok ((printedRequires ls).map (PrintedRequire.declaration root)) := by
  rw [requires_eq, map_reading_printedText hroot, List.mapM_map,
    mapM_eq_of_ite (f := requireOf ∘ PrintedRequire.reading root)
      fun r => r.requireOf_reading root]
  cases (printedRequires ls).find? PrintedRequire.takesSeveral <;> rfl

end

/-! ## A file of requires -/

/-- A member taken under another name, a comment, a forward declaration, and an alias. -/
def linesWithAlias : List (PrintedLine "goog") :=
  [.require ⟨some (⟨"const", by decide⟩, .members ⟨⟨"A", by decide⟩, some ⟨"B", by decide⟩⟩ []),
      ⟨"require", by decide⟩, ⟨"a.b", by decide⟩⟩,
    .other " // goog.require('x');" (by decide) (by rw [opensRoot_iff (by decide)]; decide)
      (by decide),
    .require ⟨none, ⟨"forwardDeclare", by decide⟩, ⟨"c.C", by decide⟩⟩,
    .require ⟨some (⟨"var", by decide⟩, .alias ⟨"$D", by decide⟩), ⟨"requireType", by decide⟩,
      ⟨"d.D", by decide⟩⟩]

/-- The same lines with a statement that takes two members apart. -/
def linesWithSeveral : List (PrintedLine "goog") :=
  linesWithAlias ++
    [.require ⟨some (⟨"let", by decide⟩, .members ⟨⟨"x", by decide⟩, none⟩
      [⟨⟨"y", by decide⟩, some ⟨"z", by decide⟩⟩]), ⟨"require", by decide⟩, ⟨"e", by decide⟩⟩]

/-- The two files read. -/
theorem requires_printedText_files :
    printedText linesWithAlias =
        ("const {A: B} = goog.require('a.b');\n // goog.require('x');\n" ++
          "goog.forwardDeclare('c.C');\nvar $D = goog.requireType('d.D');" : String).toList ∧
      requires "goog" (printedText linesWithAlias) = .ok
        [⟨"a.b", .explicit, .members [⟨"A", "B"⟩],
            some ("const {A: B} = goog.require('a.b');" : Text)⟩,
          ⟨"c.C", .forward, .plain, some ("goog.forwardDeclare('c.C');" : Text)⟩,
          ⟨"d.D", .explicit, .alias "$D", some ("var $D = goog.requireType('d.D');" : Text)⟩] ∧
      requires "goog" (printedText linesWithSeveral) =
        .error (.severalMembers "let {x, y: z} = goog.require('e');") := by
  refine ⟨by decide +kernel, ?_, ?_⟩
  · exact (requires_printedText (by decide) linesWithAlias).trans (by rfl)
  · exact (requires_printedText (by decide) linesWithSeveral).trans (by rfl)

/-- **A root may be spelled over two lines.** Neither of the lines begins with the root, but together
they are a require. -/
theorem requires_reads_spelling :
    (∀ l ∈ [("goog" : Text), ".x.require('b.B');", ""],
        ¬ ("goog.x" : Text) <+: l ∧ ∀ word ∈ declarationWords, ¬ word <+: l) ∧
      Text.ofLines [("goog" : Text), ".x.require('b.B');", ""] =
        ("goog\n.x.require('b.B');\n" : Text) ∧
      requires "goog.x" ("goog\n.x.require('b.B');\n" : Text) =
        .ok [⟨"b.B", .explicit, .plain, some ("goog\n.x.require('b.B');" : Text)⟩] :=
  ⟨by decide, by decide, by rfl⟩

end Modulize.Declaration
