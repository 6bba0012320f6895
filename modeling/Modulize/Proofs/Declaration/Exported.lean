import Modulize.Proofs.Declaration.Assignments
import Modulize.Proofs.Declaration.Listing

/-!
# The exports of a module

A module is a text with assignments to `exports` in it (`Assigns`). Each is found, and nothing else
is (`Assigns.membersFound_eq`, `Assigns.wholesRead`), so that the exports of the module are those
that it writes (`moduleExports_of_assigns`). They are in the order in which they are written if no
assignment to a member is behind one to `exports`.
-/

namespace Modulize.Declaration

open Pattern Qualified Script

/-! ## Assignments -/

/-- What an assignment exports, and whether it is to a member. -/
structure Assignment where
  toMember : Bool
  entries : List ExportEntry

/-- **What is assigned to `exports`**, and the entries that it lists: a list in braces, or a name up
to the semicolon behind it. -/
inductive IsAssigned : Text → List ExportEntry → Prop
  | list {body : Text} {entries : List ExportEntry} (listing : IsListing body entries) :
      IsAssigned ('{' :: (body ++ ['}'])) entries
  | name {n b : Text} (isName : IsIdentifier n) (blank : b.all isBlank = true) :
      IsAssigned (n ++ (b ++ [';'])) [⟨n, n⟩]

/-- **The text of an assignment**, before `t`: of anything to a member, up to the equals sign, or of
a list or a name to `exports`. -/
inductive IsAssignment : Text → Text → Assignment → Prop
  | member {w n b t : Text} (gap : w.all isSpaceOrTab = true) (isName : IsIdentifier n)
      (blank : b.all isBlank = true) (plain : ∀ a ∈ t.head?, a ≠ '=') :
      IsAssignment (w ++ ("exports." ++ (n ++ (b ++ ['='])))) t ⟨true, [⟨n, n⟩]⟩
  | whole {w b b' v t : Text} {entries : List ExportEntry} (gap : w.all isSpaceOrTab = true)
      (blank : b.all isBlank = true) (blank' : b'.all isBlank = true)
      (assigned : IsAssigned v entries) :
      IsAssignment (w ++ ("exports" ++ (b ++ '=' :: (b' ++ v)))) t ⟨false, entries⟩

/-- **A module and its assignments to `exports`**, from a place on. -/
inductive Assigns : Text → Text → List Assignment → Prop
  | done {before o : Text} (quiet : Quiet before o []) : Assigns before o []
  | assignment {before o x t : Text} {e : Assignment} {es : List Assignment}
      (quiet : Quiet before o (x ++ t)) (start : AtBreak (o.reverse ++ before))
      (written : IsAssignment x t e)
      (alone : ∀ a y, x = a :: y → Quiet (a :: (o.reverse ++ before)) y t)
      (later : Assigns (x.reverse ++ (o.reverse ++ before)) t es) :
      Assigns before (o ++ (x ++ t)) (e :: es)

/-! ## What is assigned -/

namespace IsAssigned

variable {v u t : Text} {entries : List ExportEntry} {m : Match}

/-- **A list is read** where it is assigned. -/
theorem wholeEntries_list {body : Text} (listing : IsListing body entries)
    (offset : m.stop.offset = u.length) (rest : m.stop.rest = '{' :: (body ++ '}' :: t)) :
    ∃ e, wholeEntries (u ++ '{' :: (body ++ '}' :: t)) m = .ok (entries, e) := by
  obtain ⟨items, _, _, uncommented, _⟩ := id listing
  refine ⟨afterSemicolon (u ++ '{' :: (body ++ '}' :: t)) (u.length + 1 + body.length + 1), ?_⟩
  simp only [wholeEntries, offset, rest, uncommented.groupEnd_eq]
  change (readEntries (Text.slice _ _ _) >>= _) = _
  rw [Text.slice_bracket, readEntries_of_isListing listing]
  rfl

/-- **A name is read** where it is assigned. -/
theorem wholeEntries_name {n b : Text} (isName : IsIdentifier n) (blank : b.all isBlank = true)
    (offset : m.stop.offset = u.length) (rest : m.stop.rest = n ++ b ++ ';' :: t) :
    ∃ e, wholeEntries (u ++ (n ++ b ++ ';' :: t)) m = .ok ([⟨n, n⟩], e) := by
  have single : (n ++ b).all isSingle = true := by
    rw [List.all_append, Bool.and_eq_true_iff, List.all_eq_true, List.all_eq_true]
    exact ⟨fun a ha => isSingle_of_isIdent (List.all_eq_true.1 isName.2 a ha),
      fun a ha => isSingle_of_isBlank (List.all_eq_true.1 blank a ha)⟩
  have uncommented := IsUncommented.append single .done
  rw [List.append_nil] at uncommented
  have item : IsItem (n ++ b) [⟨n, n⟩] := .name (b := []) rfl isName blank
  obtain ⟨-, none⟩ | ⟨-, e, one, read⟩ := item.readEntry_eq
  · cases none
  cases one
  refine ⟨u.length + (n ++ b).length + 1, ?_⟩
  rw [wholeEntries]
  split
  · rename_i brace
    obtain ⟨a, n, rfl, ident⟩ := isName.exists_cons
    rw [rest] at brace
    obtain ⟨rfl, -⟩ := List.cons.inj brace
    cases ident
  · rw [offset, uncommented.statementEnd_eq]
    change (readEntry (Text.slice _ _ _) >>= _) = _
    rw [Nat.add_sub_cancel, Text.slice_append, read]
    rfl

/-- **What is assigned is read.** -/
theorem wholeEntries_eq (h : IsAssigned v entries) (offset : m.stop.offset = u.length)
    (rest : m.stop.rest = v ++ t) : ∃ e, wholeEntries (u ++ (v ++ t)) m = .ok (entries, e) := by
  cases h with
  | list listing => simpa using wholeEntries_list (t := t) listing offset (by simp [rest])
  | name isName blank => simpa using wholeEntries_name (t := t) isName blank offset (by simp [rest])

/-- It begins with a brace or with a name. -/
theorem head?_append (h : IsAssigned v entries) (t : Text) :
    ∀ a ∈ (v ++ t).head?, isBlank a = false ∧ a ≠ '=' := by
  cases h with
  | list _ =>
    rintro _ ⟨⟩
    decide
  | name isName _ =>
    obtain ⟨a, n, rfl, ident⟩ := isName.exists_cons
    rintro _ ⟨⟩
    exact ⟨isBlank_eq_false_of_isIdent ident, fun e => by cases e ▸ ident⟩

end IsAssigned

/-! ## One assignment -/

/-- What an export is besides its text. -/
def ModuleExport.kind (x : ModuleExport) : ExportEntry × Bool := (x.entry, x.isInline)

/-- What an assignment writes: entries, and whether they are assigned one by one. -/
def Assignment.exported (e : Assignment) : List (ExportEntry × Bool) :=
  e.entries.map (·, e.toMember)

/-- What the assignments one by one are found to export. -/
def membersFound (ms : List Match) : List (ExportEntry × Bool) :=
  ms.map fun m => (⟨m.groupText 1, m.groupText 1⟩, true)

/-- What the assignments to `exports` are found to export. -/
def WholesRead (t : Text) (ms : List Match) (found : List (ExportEntry × Bool)) : Prop :=
  ∃ whole, ms.mapM (wholeExports t) = .ok whole ∧ whole.flatten.map ModuleExport.kind = found

theorem WholesRead.cons {t : Text} {m : Match} {ms : List Match} {entries : List ExportEntry}
    {found : List (ExportEntry × Bool)} (here : ∃ e, wholeEntries t m = .ok (entries, e))
    (later : WholesRead t ms found) :
    WholesRead t (m :: ms) (entries.map (·, false) ++ found) := by
  obtain ⟨e, here⟩ := here
  obtain ⟨whole, read, rfl⟩ := later
  have first : wholeExports t m = .ok (entries.map fun entry =>
      ⟨entry, false, (t.slice m.start.offset e).dropWhile isSpaceOrTab⟩) := by
    rw [wholeExports, here]
    rfl
  refine ⟨_, mapM_cons_of_eq_ok first read, ?_⟩
  rw [List.flatten_cons, List.map_append, List.map_map]
  rfl

namespace IsAssignment

variable {past x t : Text} {e : Assignment}

theorem exists_cons (h : IsAssignment x t e) : ∃ a y, x = a :: y := by
  refine List.exists_cons_of_ne_nil fun none => ?_
  cases h <;> simp at none

/-- The beginning of an assignment is followed by no other one in it. -/
theorem quiet_of_append {p q : Text} (alone : ∀ a y, p ++ q = a :: y → Quiet (a :: past) y t)
    (filled : p ≠ []) : Quiet (p.reverse ++ past) q t := by
  obtain ⟨a, p, rfl⟩ := List.exists_cons_of_ne_nil filled
  simpa using (alone a (p ++ q) rfl).of_append

theorem membersFound_eq (h : IsAssignment x t e) (start : AtBreak past)
    (alone : ∀ a y, x = a :: y → Quiet (a :: past) y t) (offset : Nat) :
    membersFound (memberExport.matchesFrom 0 past offset (x ++ t)) =
      e.exported.filter (·.2) ++
        membersFound (memberExport.matchesFrom 0 (x.reverse ++ past) (offset + x.length) t) := by
  obtain ⟨a, y, cons⟩ := h.exists_cons
  cases h with
  | @member w n b t gap isName blank plain =>
    obtain ⟨d, ds, ends, reads, noted⟩ :=
      ends_memberExport_member offset start gap isName blank plain
    rw [matchesFrom_of_match consumes_memberExport ends reads, membersFound, List.map_cons,
      groupText_of_noted noted]
    rfl
  | @whole w b b' v t entries gap blank blank' assigned =>
    have cut : w ++ ("exports".toList ++ (b ++ '=' :: (b' ++ (v ++ t)))) = a :: y ++ t := by
      rw [← cons]
      simp
    have none : memberExport.ends ⟨past, offset, a :: y ++ t, []⟩ = [] := by
      rw [← cut]
      exact ends_memberExport_whole offset gap blank
    rw [cons, matchesFrom_of_unread (fun _ => beginsExport_of_member) none (alone a y cons)]
    simp [Assignment.exported]

theorem wholesRead (h : IsAssignment x t e) (start : AtBreak past)
    (alone : ∀ a y, x = a :: y → Quiet (a :: past) y t) {found : List (ExportEntry × Bool)}
    {whole : Text} (text : whole = past.reverse ++ (x ++ t))
    (later : WholesRead whole
      (wholeExport.matchesFrom 0 (x.reverse ++ past) (past.length + x.length) t) found) :
    WholesRead whole (wholeExport.matchesFrom 0 past past.length (x ++ t))
      (e.exported.filter (! ·.2) ++ found) := by
  obtain ⟨a, y, cons⟩ := h.exists_cons
  cases h with
  | @member w n b t gap isName blank plain =>
    have none : wholeExport.ends ⟨past, past.length, a :: y ++ t, []⟩ = [] := by
      rw [← cons]
      exact ends_wholeExport_member past.length gap
    rw [cons] at later ⊢
    rw [matchesFrom_of_unread (fun _ => beginsExport_of_whole) none (alone a y cons)]
    exact later
  | @whole w b b' v t entries gap blank blank' assigned =>
    have shows := assigned.head?_append t
    have plain : ∀ a ∈ (b' ++ (v ++ t)).head?, a ≠ '=' := by
      cases b' with
      | nil => exact fun a ha => (shows a ha).2
      | cons c b' =>
        rintro _ ⟨⟩ rfl
        cases (Bool.and_eq_true_iff.1 blank').1
    obtain ⟨d, ds, ends, reads⟩ := ends_wholeExport_whole past.length start gap blank blank'
      (fun a ha => (shows a ha).1) plain
    have cut : w ++ ("exports".toList ++ (b ++ '=' :: (b' ++ v))) =
        w ++ ("exports".toList ++ (b ++ '=' :: b')) ++ v := by simp
    rw [cut] at alone text later ⊢
    rw [List.append_assoc] at text ⊢
    have all : (Assignment.exported ⟨false, entries⟩).filter (! ·.2) = entries.map (·, false) := by
      simp [Assignment.exported]
    rw [matchesFrom_of_read consumes_wholeExport (fun _ => beginsExport_of_whole) ends reads
      (quiet_of_append alone (by simp)), all]
    refine WholesRead.cons ?_ later
    rw [text, ← List.append_assoc]
    have rest : d.rest = v ++ t := (List.append_cancel_left reads.rest).symm
    exact assigned.wholeEntries_eq (by simp [reads.offset]) rest

end IsAssignment

/-! ## A module -/

/-- What the assignments of a module write, in the order in which they are written. -/
def written (es : List Assignment) : List (ExportEntry × Bool) := es.flatMap Assignment.exported

theorem written_cons (e : Assignment) (es : List Assignment) :
    written (e :: es) = e.exported ++ written es := rfl

namespace Assigns

variable {before t : Text} {es : List Assignment}

theorem membersFound_eq (h : Assigns before t es) (offset : Nat) :
    membersFound (memberExport.matchesFrom 0 before offset t) = (written es).filter (·.2) := by
  induction h generalizing offset with
  | @done before o quiet =>
    have none := matchesFrom_of_quiet (fun _ => beginsExport_of_member) quiet offset
    rw [List.append_nil, matchesFrom_nil consumes_memberExport] at none
    rw [none]
    rfl
  | @assignment before o x t e es quiet start isAssignment alone _ ih =>
    rw [matchesFrom_of_quiet (fun _ => beginsExport_of_member) quiet,
      isAssignment.membersFound_eq start alone, ih, written_cons, List.filter_append]

theorem wholesRead (h : Assigns before t es) {whole : Text} (text : whole = before.reverse ++ t) :
    WholesRead whole (wholeExport.matchesFrom 0 before before.length t)
      ((written es).filter (! ·.2)) := by
  induction h with
  | @done before o quiet =>
    have none := matchesFrom_of_quiet (fun _ => beginsExport_of_whole) quiet before.length
    rw [List.append_nil, matchesFrom_nil consumes_wholeExport] at none
    rw [none]
    exact ⟨[], rfl, rfl⟩
  | @assignment before o x t e es quiet start isAssignment alone _ ih =>
    have length : before.length + o.length = (o.reverse ++ before).length := by
      simp [Nat.add_comm]
    have later := ih (by simp [text])
    rw [matchesFrom_of_quiet (fun _ => beginsExport_of_whole) quiet, length, written_cons,
      List.filter_append]
    refine isAssignment.wholesRead start alone (by simp [text]) ?_
    have place : (x.reverse ++ (o.reverse ++ before)).length =
        (o.reverse ++ before).length + x.length := by
      simp [Nat.add_comm]
    rwa [place] at later

end Assigns

/-- **The exports of a module are those that it writes**, the ones assigned one by one first. -/
theorem moduleExports_of_assigns {t : Text} {es : List Assignment} (h : Assigns [] t es) :
    ∃ exports, moduleExports t = .ok exports ∧
      exports.map ModuleExport.kind =
        (written es).filter (·.2) ++ (written es).filter (! ·.2) ∧
      (exports.map ModuleExport.kind = written es ↔
        (written es).Pairwise fun a b => b.2 = true → a.2 = true) := by
  have wholes : WholesRead t (wholeExport.allMatches t) ((written es).filter (! ·.2)) :=
    h.wholesRead rfl
  obtain ⟨whole, read, found⟩ := wholes
  have members : (memberExports t).map ModuleExport.kind = (written es).filter (·.2) := by
    rw [← h.membersFound_eq 0, memberExports, List.map_map]
    rfl
  have all : (memberExports t ++ whole.flatten).map ModuleExport.kind =
      (written es).filter (·.2) ++ (written es).filter (! ·.2) := by
    rw [List.map_append, members, found]
  refine ⟨memberExports t ++ whole.flatten, ?_, all, ?_⟩
  · rw [moduleExports, read]
    rfl
  · rw [all]
    exact filter_append_filter_eq_self_iff

/-- A list of exports with comments. -/
def commentedList : Text := "\n  a, // the \x7d first, one\n  /* b, : // \x7b */ b: inner,\n"

theorem isUncommented_commentedList :
    IsUncommented commentedList "\n  a, \n   b: inner,\n".toList := by
  have starless : '*' ∉ " b, : // \x7b ".toList := by decide
  have block : IsUncommented
      ('/' :: '*' :: (" b, : // \x7b ".toList ++ '*' :: '/' :: (" b: inner,\n".toList ++ [])))
      (" b: inner,\n".toList ++ []) :=
    .block (fun h => starless (h.subset List.mem_cons_self)) (.append rfl .done)
  have spaces : IsUncommented
      ("  ".toList ++
        '/' :: '*' :: (" b, : // \x7b ".toList ++ '*' :: '/' :: (" b: inner,\n".toList ++ [])))
      ("  ".toList ++ (" b: inner,\n".toList ++ [])) := .append rfl block
  have line : IsUncommented
      ('/' :: '/' :: (" the \x7d first, one".toList ++ '\n' :: ("  ".toList ++
        '/' :: '*' :: (" b, : // \x7b ".toList ++ '*' :: '/' :: (" b: inner,\n".toList ++ [])))))
      ('\n' :: ("  ".toList ++ (" b: inner,\n".toList ++ []))) :=
    .line (by decide) (by decide) (.of_not_mem (by decide)) spaces
  exact line.append (x := "\n  a, ".toList) rfl

theorem isListing_commentedList : IsListing commentedList [⟨"a", "a"⟩, ⟨"b", "inner"⟩] := by
  refine ⟨[("\n  a".toList, [⟨"a", "a"⟩]), (" \n   b: inner".toList, [⟨"b", "inner"⟩]),
    ("\n".toList, [])], by simp, ?_, isUncommented_commentedList, rfl⟩
  have first : IsItem ("\n  ".toList ++ ("a".toList ++ "".toList)) [⟨"a", "a"⟩] :=
    .name (by decide) (by decide) rfl
  have second : IsItem ((" \n   ".toList ++ ("b".toList ++ "".toList)) ++
      ':' :: (" ".toList ++ ("inner".toList ++ "".toList))) [⟨"b", "inner"⟩] :=
    .renamed (by decide) (by decide) rfl rfl (by decide) rfl
  have third : IsItem "\n".toList [] := .blank (by decide)
  simp only [List.forall_mem_cons]
  exact ⟨first, second, third, nofun⟩

/-- An assignment to a member of `exports`. -/
def memberText : Text := "exports.first ="

/-- An assignment of a list to `exports`. -/
def listText : Text := "exports = \x7b".toList ++ (commentedList ++ ['\x7d'])

/-- A module that exports a member and a list. -/
def mixedText : Text :=
  "goog.module('m');\n".toList ++ (memberText ++ (" 1;\n".toList ++ (listText ++ ";\n".toList)))

/-- What it exports. -/
def mixedAssignments : List Assignment :=
  [⟨true, [⟨"first", "first"⟩]⟩, ⟨false, [⟨"a", "a"⟩, ⟨"b", "inner"⟩]⟩]

theorem assigns_mixedText : Assigns [] mixedText mixedAssignments := by
  have member : IsAssignment memberText (" 1;\n".toList ++ (listText ++ ";\n".toList))
      ⟨true, [⟨"first", "first"⟩]⟩ := by
    have text : memberText =
        [] ++ ("exports.".toList ++ ("first".toList ++ (" ".toList ++ ['=']))) := by decide
    have plain : ∀ a ∈ (" 1;\n".toList ++ (listText ++ ";\n".toList)).head?, a ≠ '=' := by
      rintro _ ⟨⟩
      decide
    rw [text]
    exact .member rfl (by decide) rfl plain
  have list : IsAssignment listText ";\n".toList ⟨false, [⟨"a", "a"⟩, ⟨"b", "inner"⟩]⟩ := by
    have text : listText = [] ++ ("exports".toList ++ (" ".toList ++ '=' ::
        (" ".toList ++ '\x7b' :: (commentedList ++ ['\x7d'])))) := rfl
    rw [text]
    exact .whole rfl rfl rfl (.list isListing_commentedList)
  exact .assignment (quiet_of_isQuiet rfl) (by decide) member
    (alone_of_isQuiet rfl)
    (.assignment (quiet_of_isQuiet rfl) (by decide) list
      (alone_of_isQuiet rfl) (.done (quiet_of_isQuiet rfl)))

/-- The theorem for that module. -/
theorem moduleExports_mixedText : Assigns [] mixedText mixedAssignments ∧
    ∃ exports, moduleExports mixedText = .ok exports ∧
      exports.map ModuleExport.kind =
        [(⟨"first", "first"⟩, true), (⟨"a", "a"⟩, false), (⟨"b", "inner"⟩, false)] := by
  obtain ⟨exports, read, all, -⟩ := moduleExports_of_assigns assigns_mixedText
  exact ⟨assigns_mixedText, exports, read, all.trans rfl⟩

set_option maxRecDepth 4000 in
/-- A comment to the end of a line opens a comment that is closed behind the next entry, which is
lost. And an assignment to a member is put before a list that is written in front of it. -/
theorem moduleExports_lost_or_moved :
    (∃ exports, moduleExports ("goog.module('m');\n" ++
          "exports = \x7b\n  a, // see /* here\n  b, // and */ here\n  c,\n\x7d;\n") = .ok exports ∧
        exports.map ModuleExport.kind = [(⟨"a", "a"⟩, false), (⟨"c", "c"⟩, false)]) ∧
      ∃ exports, moduleExports "goog.module('m');\nexports = a;\nexports.b = 1;\n" = .ok exports ∧
        exports.map ModuleExport.kind = [(⟨"b", "b"⟩, true), (⟨"a", "a"⟩, false)] :=
  ⟨⟨_, rfl, rfl⟩, _, rfl, rfl⟩

end Modulize.Declaration
