import Modulize.Proofs.Class.Lossless

/-!
# What lies between the edits

The conversion of a text edits spans that were found in it, one behind the other: it writes a class
statement in place of a constructor and deletes members and inheriting calls. What lies between two
spans is kept as it is (`Written`), except that a deletion takes the spaces, tabs and line breaks
directly behind it along (`written_applyFrom`). The blank lines behind a deletion are looked for
when the later edits have been made. They do not reach into what a later edit has written, since a
class statement does not begin with a blank (`Written.of_gap_append`).

`convert_edits` puts this together: every span that is edited is that of a constructor, a member or
an inheriting call, not empty, and within the text (`spans_of_collect`).
-/

namespace Modulize.Class

open Pattern

/-! ## The spans of what is found -/

/-- A span that is not empty and lies within a text. -/
def IsSpan (t : Text) (s : Nat × Nat) : Prop := s.1 < s.2 ∧ s.2 ≤ t.length

theorem ConstructorAt.isSpan {t : Text} {s : Nat} {c : Constructor} (h : ConstructorAt t s c) :
    IsSpan t c.span := ⟨h.span_lt, (lt_statementEnd h.ends).2⟩

theorem isSpan_of_readMember {root t : Text} {m : Match} {member : Member}
    (hm : m ∈ memberHead.allMatches t) (h : readMember root t m = .ok member) :
    IsSpan t member.span := by
  cases memberAt_of_read hm h with
  | assigned _ _ _ _ start_le ends _ =>
    obtain ⟨lt, le⟩ := lt_statementEnd ends
    exact ⟨by omega, le⟩
  | bare body _ =>
    -- the mark itself is the semicolon: a definition begins with the text of its mark
    obtain ⟨isIn, -, hstop⟩ := mem_allMatches hm
    obtain ⟨mark, group, start_le, stop, text, form⟩ := group_memberHead hstop
    have group : m.group? 4 = some mark := group
    unfold readMember at h
    rw [group] at h
    obtain ⟨⟨body', behind⟩, -, h⟩ := bind_eq_ok h
    obtain rfl := Except.ok.inj h
    have one : body'.length = 1 := congrArg List.length body
    have nonempty : mark.text ≠ [] := by
      rcases form with e | ⟨b, b', -, -, e⟩ <;> simp [e]
    have inside : mark.start < t.length := by
      refine Nat.lt_of_not_le fun outside => nonempty ?_
      rw [← text t isIn, Text.slice, List.drop_eq_nil_of_le outside, List.take_nil]
    simp only [Option.getD_some, IsSpan, one]
    exact ⟨Nat.lt_succ_of_le start_le, inside⟩

theorem consumes_inheritsCall (root : Text) : (inheritsCall root).Consumes :=
  ((Consumes.seq_right _ (consumes_one _)).seq_left _).seq_left _

/-- **What is collected has spans in the text.** -/
theorem spans_of_collect {root t : Text} {ds : List Definition} (h : collect root t = .ok ds) :
    ∀ d ∈ ds, IsSpan t d.constructor.span ∧ (∀ m ∈ d.members, IsSpan t m.span) ∧
      ∀ s ∈ d.inheritsSpan, IsSpan t s := by
  intro d hd
  obtain ⟨s, constructor⟩ := (collect_sound h d hd).constructorAt
  refine ⟨constructor.isSpan, fun m hm => ?_, ?_⟩
  · obtain ⟨x, hx, read⟩ := exists_readMember h hd hm
    exact isSpan_of_readMember hx read
  · obtain ⟨cs, -, h⟩ := bind_eq_ok h
    cases cs with
    | nil =>
      obtain rfl := Except.ok.inj h
      cases hd
    | cons c cs =>
      obtain ⟨found, -, h⟩ := bind_eq_ok h
      obtain rfl := Except.ok.inj h
      obtain ⟨k, -, rfl⟩ := List.mem_map.1 hd
      intro s hs
      obtain ⟨call, hcall, rfl⟩ := Option.map_eq_some_iff.1 hs
      have mem := (List.mem_filter.1 (List.mem_of_mem_getLast? hcall)).1
      exact ⟨consumes_inheritsCall root _ _ (mem_allMatches mem).2.2,
        stop_le_of_mem_allMatches mem⟩

namespace Edit

/-! ## The gaps -/

theorem mem_of_mem_accepted {free : Nat} {es : List Edit} {e : Edit} (h : e ∈ accepted free es) :
    e ∈ es := by
  induction es generalizing free with
  | nil => cases h
  | cons a es ih =>
    rw [accepted_cons] at h
    split at h
    · exact List.mem_cons_of_mem _ (ih h)
    · rcases List.mem_cons.1 h with rfl | h
      · exact List.mem_cons_self
      · exact List.mem_cons_of_mem _ (ih h)

/-- The place where the next edit begins. -/
def gapEnd (t : Text) : List Edit → Nat
  | [] => t.length
  | e :: _ => e.start

/-- **What edits make of a text from the first of them on.** What a span is replaced by stands in
its place, and the gap behind it follows as it is; behind a span that is deleted, a run of spaces,
tabs and line breaks at the beginning of the gap is left out. -/
inductive Written (t : Text) : List Edit → Text → Prop
  | done : Written t [] []
  | replaced {e : Edit} {es : List Edit} {out : Text} (new : e.new ≠ [])
      (later : Written t es out) :
      Written t (e :: es) (e.new ++ (t.slice e.stop (gapEnd t es) ++ out))
  | deleted {e : Edit} {es : List Edit} {w k out : Text} (new : e.new = [])
      (gap : t.slice e.stop (gapEnd t es) = w ++ k) (blank : w.all isGap = true)
      (later : Written t es out) : Written t (e :: es) (k ++ out)

/-- The new text of the edit, if it has one, does not begin like a blank line. -/
def Shows (e : Edit) : Prop := ∀ a ∈ e.new.head?, isGap a = false

section

variable {t : Text} {es : List Edit} {e : Edit} {w out r : Text}

/-- A run of blanks at the beginning of what edits have made is part of the gaps. -/
theorem Written.of_blank_append (h : Written t es out) (shows : ∀ e ∈ es, e.Shows)
    (blank : w.all isGap = true) (split : out = w ++ r) : Written t es r := by
  induction h generalizing w r with
  | done =>
    obtain ⟨-, rfl⟩ := List.append_eq_nil_iff.1 split.symm
    exact .done
  | @replaced e es out new later ih =>
    obtain ⟨a, s, head⟩ := List.exists_cons_of_ne_nil new
    cases w with
    | nil =>
      obtain rfl : _ = r := split
      exact .replaced new later
    | cons b w =>
      rw [head, List.cons_append, List.cons_append] at split
      obtain ⟨rfl, -⟩ := List.cons.inj split
      have first := shows e List.mem_cons_self a (by rw [head]; rfl)
      rw [List.all_cons, first] at blank
      cases blank
  | @deleted e es v kept out new gap blank' later ih =>
    have shows := fun e he => shows e (List.mem_cons_of_mem _ he)
    rcases List.append_eq_append_iff.1 split with ⟨w', rfl, rfl⟩ | ⟨kept', rfl, rfl⟩
    · -- the run goes on behind the gap
      obtain ⟨within, beyond⟩ := Bool.and_eq_true_iff.1 (List.all_append.symm.trans blank)
      have whole : (v ++ kept).all isGap = true := by rw [List.all_append, blank', within]; rfl
      exact .deleted (k := []) new (by rw [gap, List.append_nil]) whole (ih shows beyond rfl)
    · refine .deleted (w := v ++ w) new (by rw [gap, List.append_assoc]) ?_ later
      rw [List.all_append, blank', blank]
      rfl

/-- The blanks that a deletion takes along are those of the gap behind it and of later gaps. -/
theorem Written.of_gap_append (h : Written t es out) (shows : ∀ e ∈ es, e.Shows)
    (blank : w.all isGap = true) (split : t.slice e.stop (gapEnd t es) ++ out = w ++ r)
    (new : e.new = []) : Written t (e :: es) r := by
  rcases List.append_eq_append_iff.1 split with ⟨w', rfl, rfl⟩ | ⟨kept, gap, rfl⟩
  · obtain ⟨within, beyond⟩ := Bool.and_eq_true_iff.1 (List.all_append.symm.trans blank)
    exact .deleted (k := []) new (List.append_nil _).symm within
      (h.of_blank_append shows beyond rfl)
  · exact .deleted new gap blank h

/-- **What edits that follow each other make of a text.** -/
theorem written_applyFrom (sorted : es.Pairwise fun a b => a.stop ≤ b.start)
    (spans : ∀ e ∈ es, e.start ≤ e.stop) (shows : ∀ e ∈ es, e.Shows) {offset : Nat}
    (first : ∀ e ∈ es, offset ≤ e.start) :
    ∃ out, applyFrom offset (t.drop offset) es = t.slice offset (gapEnd t es) ++ out ∧
      Written t es out := by
  induction es generalizing offset with
  | nil =>
    refine ⟨[], ?_, .done⟩
    rw [applyFrom, gapEnd, Text.slice, List.append_nil, List.take_of_length_le (by simp)]
  | cons e es ih =>
    obtain ⟨behind, sorted⟩ := List.pairwise_cons.1 sorted
    obtain ⟨span, spans⟩ := List.forall_mem_cons.1 spans
    have begins := first e List.mem_cons_self
    obtain ⟨out, after, written⟩ := ih sorted spans
      (fun e he => shows e (List.mem_cons_of_mem _ he)) behind
    have rest : (t.drop offset).drop (e.stop - offset) = t.drop e.stop := by
      rw [List.drop_drop]
      congr 1
      omega
    have front : (t.drop offset).take (e.start - offset) = t.slice offset (gapEnd t (e :: es)) :=
      rfl
    rw [applyFrom]
    simp only [rest, after, front]
    split
    · rename_i empty
      obtain ⟨w, split, blank⟩ := exists_dropBlankLines (t.slice e.stop (gapEnd t es) ++ out)
      exact ⟨_, rfl, written.of_gap_append (fun e he => shows e (List.mem_cons_of_mem _ he)) blank
        split (List.isEmpty_iff.1 empty)⟩
    · rename_i nonempty
      exact ⟨_, rfl, .replaced (mt List.isEmpty_iff.2 nonempty) written⟩

end

end Edit

/-! ## The conversion -/

/-- The edit is one of those for a collected class: it writes the class statement in place of the
constructor, or deletes a member or the call that makes the class inherit. -/
inductive IsEditFor (root : Text) (d : Definition) (e : Edit) : Prop
  | statement (statement : Text) (rendered : render root d = .ok statement)
      (nonempty : statement ≠ []) (edit : e = statementEdit d statement)
  | member (m : Member) (mem : m ∈ d.members) (edit : e = ⟨m.span.1, m.span.2, []⟩)
  | inherits (s : Nat × Nat) (mem : s ∈ d.inheritsSpan) (edit : e = ⟨s.1, s.2, []⟩)

theorem mem_edits_iff {root t : Text} {s : Nat} {d : Definition} {es : List Edit} {e : Edit}
    (found : ConstructorAt t s d.constructor) (h : edits root d = .ok es) :
    e ∈ es ↔ IsEditFor root d e := by
  obtain ⟨statement, rendered, h⟩ := bind_eq_ok h
  obtain rfl := Except.ok.inj h
  obtain ⟨a, r, head, -⟩ := head_render found rendered
  simp only [List.cons_append, List.mem_cons, List.mem_append, List.mem_map, Option.mem_toList]
  constructor
  · rintro (rfl | ⟨m, hm, rfl⟩ | ⟨s, hs, rfl⟩)
    · exact .statement statement rendered (by simp [head]) rfl
    · exact .member m hm rfl
    · exact .inherits s hs rfl
  · rintro (⟨statement', rendered', -, rfl⟩ | ⟨m, hm, rfl⟩ | ⟨s, hs, rfl⟩)
    · obtain rfl := Except.ok.inj (rendered'.symm.trans rendered)
      exact Or.inl rfl
    · exact Or.inr (Or.inl ⟨m, hm, rfl⟩)
    · exact Or.inr (Or.inr ⟨s, hs, rfl⟩)

/-- What an edit for a collected class writes, and where. -/
theorem IsEditFor.isSpan_shows {root t : Text} {ds : List Definition} {d : Definition} {e : Edit}
    (h : IsEditFor root d e) (hds : collect root t = .ok ds) (hd : d ∈ ds) :
    IsSpan t (e.start, e.stop) ∧ e.Shows := by
  obtain ⟨constructor, members, inherits⟩ := spans_of_collect hds d hd
  cases h with
  | statement statement rendered _ edit =>
    subst edit
    obtain ⟨s, found⟩ := (collect_sound hds d hd).constructorAt
    obtain ⟨a, r, head, ha⟩ := head_render found rendered
    refine ⟨constructor, fun b hb => ?_⟩
    obtain rfl : a = b := by simpa [statementEdit, head] using hb
    exact Bool.eq_false_iff.2 fun gap => Bool.eq_false_iff.1 ha (Edit.isBlank_of_isGap gap)
  | member m hm edit =>
    subst edit
    exact ⟨members m hm, nofun⟩
  | inherits s hs edit =>
    subst edit
    exact ⟨inherits s hs, nofun⟩

/-- **The conversion edits nothing but what it has collected.** Its edits follow each other, each at
the span of a constructor, a member or an inheriting call; a span of these is edited unless one that
is edited covers its beginning. The text in front of the first edit is kept as it is, and what
follows is written by the edits with the gaps between them. -/
theorem convert_edits {root t out : Text} (h : convert root t = .ok out) :
    ∃ ds es later, collect root t = .ok ds ∧
      (∀ e ∈ es, IsSpan t (e.start, e.stop) ∧ ∃ d ∈ ds, IsEditFor root d e) ∧
      (∀ d ∈ ds, ∀ e, IsEditFor root d e → e ∈ es ∨ ∃ a ∈ es, a.covers e.start) ∧
      es.Pairwise (fun a b => a.stop ≤ b.start) ∧
      out = t.slice 0 (Edit.gapEnd t es) ++ later ∧ Edit.Written t es later := by
  obtain ⟨ds, hds, h⟩ := bind_eq_ok h
  obtain ⟨all, hall, h⟩ := bind_eq_ok h
  obtain rfl := Except.ok.inj h
  have mem_iff (e : Edit) :
      e ∈ sortBy Edit.precedes all.flatten ↔ ∃ d ∈ ds, IsEditFor root d e := by
    rw [mem_sortBy, List.mem_flatten]
    constructor
    · rintro ⟨group, hgroup, he⟩
      obtain ⟨d, hd, hedits⟩ := exists_of_mem_mapM hall hgroup
      obtain ⟨s, found⟩ := (collect_sound hds d hd).constructorAt
      exact ⟨d, hd, (mem_edits_iff found hedits).1 he⟩
    · rintro ⟨d, hd, he⟩
      obtain ⟨group, hgroup, hedits⟩ := exists_mem_of_mapM hall hd
      obtain ⟨s, found⟩ := (collect_sound hds d hd).constructorAt
      exact ⟨group, hgroup, (mem_edits_iff found hedits).2 he⟩
  have proper {e : Edit} (he : e ∈ sortBy Edit.precedes all.flatten) :
      IsSpan t (e.start, e.stop) ∧ e.Shows := by
    obtain ⟨d, hd, he⟩ := (mem_iff e).1 he
    exact he.isSpan_shows hds hd
  have applied {e : Edit} (he : e ∈ Edit.accepted 0 (sortBy Edit.precedes all.flatten)) :=
    Edit.mem_of_mem_accepted he
  have sorted : (Edit.accepted 0 (sortBy Edit.precedes all.flatten)).Pairwise
      fun a b => a.stop ≤ b.start :=
    Edit.accepted_pairwise fun e (he : e ∈ sortBy Edit.precedes all.flatten) =>
      Nat.le_of_lt (proper he).1.1
  obtain ⟨later, whole, written⟩ := Edit.written_applyFrom (t := t) sorted
    (fun e he => Nat.le_of_lt (proper (applied he)).1.1) (fun e he => (proper (applied he)).2)
    fun e _ => Nat.zero_le e.start
  refine ⟨ds, _, later, hds, fun e he => ⟨(proper (applied he)).1, (mem_iff e).1 (applied he)⟩,
    fun d hd e he => ?_, sorted, whole, written⟩
  refine Classical.or_iff_not_imp_left.2 fun out => ?_
  exact Edit.exists_covers_of_not_mem ((mem_iff e).2 ⟨d, hd, he⟩) (Edit.sorted_starts _)
    (Nat.zero_le _) out

/-- A class with a method and a parent, and code behind it. -/
def inheriting : Text :=
  "/** @constructor */\na.B = function() \x7b\x7d;\n\n" ++
    "a.B.prototype.f = function() \x7b\x7d;\n\n\n" ++ "goog.inherits(a.B, a.A);\n  \nvar x;\n"

set_option maxRecDepth 8000 in
theorem convert_edits_inheriting :
    ∃ ds es later, collect "goog" inheriting = .ok ds ∧
      (∀ e ∈ es, IsSpan inheriting (e.start, e.stop) ∧ ∃ d ∈ ds, IsEditFor "goog" d e) ∧
      (∀ d ∈ ds, ∀ e, IsEditFor "goog" d e → e ∈ es ∨ ∃ a ∈ es, a.covers e.start) ∧
      es.Pairwise (fun a b => a.stop ≤ b.start) ∧
      ("a.B = class extends a.A \x7b\n  constructor() \x7b\n    super();\n  \x7d\n\n" ++
        "  f() \x7b\x7d\n\x7d;\n\nvar x;\n").toList =
          inheriting.slice 0 (Edit.gapEnd inheriting es) ++ later ∧
      Edit.Written inheriting es later :=
  convert_edits (by rfl)

end Modulize.Class
