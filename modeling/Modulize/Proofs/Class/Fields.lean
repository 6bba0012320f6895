import Modulize.Proofs.Class.Collected
import Modulize.Proofs.Class.Parts
import Modulize.Proofs.Doc.Closed
import Modulize.Proofs.Script.Literals

/-!
# The statements that initialise fields

A member that is read in a text has an identifier for its name, a comment that is closed at its end
only, and stands behind a character behind which an operand may begin (`FieldSource`). So what is
written for a field is a statement, whatever its value is: the scan is in code again behind it
(`isStatement_fieldStatement`).
-/

namespace Modulize.Class

open Pattern Script

/-! ## What the head of a member reads -/

theorem mem_stops_commentText {groups : List (Nat × Capture)} {past rest : Text} {offset : Nat}
    {d : Cursor}
    (h : d ∈ Cursor.stops (fun a r => !(a == '*' && r.head? == some '/')) groups past offset rest) :
    ∃ piece rest', rest = piece ++ rest' ∧ ¬ Doc.Comment.closing <:+: piece ∧
      d = (⟨past, offset, rest, groups⟩ : Cursor).after piece rest' := by
  induction rest generalizing past offset with
  | nil =>
    obtain rfl := List.mem_singleton.1 h
    exact ⟨[], [], rfl, by decide, rfl⟩
  | cons a r ih =>
    rcases List.mem_cons.1 h with rfl | h
    · exact ⟨[], a :: r, rfl, by decide, rfl⟩
    · split at h
      · rename_i goesOn
        obtain ⟨piece, rest', rfl, once, rfl⟩ := ih h
        refine ⟨a :: piece, rest', rfl, fun mem => ?_, by
          simp [Cursor.after, Nat.add_assoc, Nat.add_comm 1]⟩
        rcases List.infix_cons_iff.1 mem with begins | mem
        · obtain ⟨rfl, v, rfl⟩ := List.cons_prefix_cons.1 begins
          cases goesOn
        · exact once mem
      · cases h

theorem gives_commentText (greedy : Bool) : (commentText greedy).Gives fun _ piece notes =>
    ¬ Doc.Comment.closing <:+: piece ∧ notes = [] := by
  intro c d hd
  have hd : d ∈ Cursor.stops (fun a r => !(a == '*' && r.head? == some '/')) c.groups c.past
      c.offset c.rest := by
    unfold commentText ends at hd
    cases greedy with
    | true => exact List.mem_reverse.1 hd
    | false => exact hd
  obtain ⟨piece, rest, hc, once, rfl⟩ := mem_stops_commentText hd
  exact ⟨piece, [], ⟨once, rfl⟩, Cursor.reads_after hc, rfl⟩

/-- The comment in front of a member. -/
def IsMemberComment (c : Text) : Prop :=
  ∃ w g, c = "/**" ++ (w ++ (Doc.Comment.closing ++ g)) ∧ ¬ Doc.Comment.closing <:+: w ∧
    g.all isBlank = true

/-- The semicolon or the equals sign behind the name of a member. -/
def IsMemberMark (mark : Text) : Prop :=
  mark = [';'] ∨ ∃ b b', mark = b ++ '=' :: b' ∧ b'.all isBlank = true

theorem gives_memberComment : (literal "/**" ++ commentText true ++ literal "*/" ++ spacesOrTabs ++
    one (· == '\n')).Gives fun _ piece notes => IsMemberComment piece ∧ notes = [] := by
  have parts := ((((describes_literal "/**").gives.seq (gives_commentText true)).seq
    (describes_literal "*/").gives).seq (describes_run isSpaceOrTab).gives).seq
    (describes_one (· == '\n')).gives
  refine Gives.imp parts ?_
  rintro _ _ _ ⟨_, _, _, _, ⟨_, _, g, _, ⟨_, _, _, _,
    ⟨_, _, w, _, ⟨rfl, rfl⟩, ⟨once, rfl⟩, rfl, rfl⟩,
    ⟨rfl, rfl⟩, rfl, rfl⟩, ⟨gap, rfl⟩, rfl, rfl⟩, ⟨⟨a, ha, rfl⟩, rfl⟩, rfl, rfl⟩
  obtain rfl := eq_of_beq ha
  refine ⟨⟨w, g ++ ['\n'], by simp [Doc.Comment.closing], once, ?_⟩, rfl⟩
  rw [List.all_append, isBlank_of_gap gap]
  rfl

theorem gives_memberMark : (one (· == ';') <|>
    (blanks ++ one (· == '=') ++ notBefore (· == '=') ++ blanks)).Gives fun _ piece notes =>
      IsMemberMark piece ∧ notes = [] := by
  have parts := (describes_one (· == ';')).gives.alt
    ((((describes_run isBlank).seq (describes_one (· == '='))).gives.seq
      (gives_notBefore (· == '='))).seq (describes_run isBlank).gives)
  refine Gives.imp parts ?_
  rintro _ _ _ (⟨⟨a, ha, rfl⟩, rfl⟩ | ⟨_, _, b', _, ⟨_, _, _, _,
    ⟨⟨b, _, -, ⟨a, ha, rfl⟩, rfl⟩, rfl⟩, ⟨rfl, rfl⟩, rfl, rfl⟩, ⟨blank, rfl⟩, rfl, rfl⟩)
  · exact ⟨Or.inl (by rw [eq_of_beq ha]), rfl⟩
  · exact ⟨Or.inr ⟨b, b', by simp [eq_of_beq ha], blank⟩, rfl⟩

/-- The comment, the name and the mark that the head of a member remembers. -/
theorem gives_memberHead : memberHead.Gives fun _ piece notes =>
    ∃ first owner name mark front, notes = (4, mark) :: (3, name) :: (2, owner) :: first ∧
      (first = [] ∨ ∃ c, first = [(1, c)] ∧ IsMemberComment c) ∧ name.all isIdent = true ∧
      IsMemberMark mark ∧ piece = front ++ mark := by
  have begun := (gives_memberComment.group 1).alt describes_nothing.gives
  have whole := ((((gives_lineStart.seq begun).seq ((describes_run1 isDotted).gives.group 2)).seq
    (describes_literal ".prototype.").gives).seq ((describes_run1 isIdent).gives.group 3)).seq
    (gives_memberMark.group 4)
  refine Gives.imp whole ?_
  rintro _ _ _ ⟨_, _, mark, _, ⟨_, _, _, _, ⟨_, _, _, _,
    ⟨_, _, owner, _, ⟨_, _, c, first, ⟨-, rfl, rfl⟩,
    hc, rfl, rfl⟩, ⟨_, ⟨-, rfl⟩, rfl⟩, rfl, rfl⟩, ⟨rfl, rfl⟩, rfl, rfl⟩,
    ⟨_, ⟨⟨a, r, ha, hr, rfl⟩, rfl⟩, rfl⟩, rfl, rfl⟩, ⟨_, ⟨hmark, rfl⟩, rfl⟩, rfl, rfl⟩
  refine ⟨first, owner, a :: r, mark, _, by simp, ?_, by simp [ha, hr], hmark, rfl⟩
  rcases hc with ⟨_, ⟨hc, rfl⟩, rfl⟩ | ⟨-, rfl⟩
  · exact Or.inr ⟨_, rfl, hc⟩
  · exact Or.inl rfl

/-- Behind its mark an operand may begin. -/
theorem IsMemberMark.endsOpen {mark : Text} (h : IsMemberMark mark) (before : Text) :
    EndsOpen (mark.reverse ++ before) := by
  rcases h with rfl | ⟨b, b', rfl, blank⟩
  · rintro _ ⟨⟩
    decide
  · have cut : (b ++ '=' :: b').reverse ++ before = b'.reverse ++ '=' :: (b.reverse ++ before) := by
      simp
    rw [cut]
    refine EndsOpen.blank_append (by rwa [List.all_reverse]) ?_
    rintro _ ⟨⟩
    decide

/-- **Where a field comes from**: its name is an identifier, its comment is closed once, and the
scan of its value begins where an operand may begin. -/
structure FieldSource (t : Text) (s : Nat) (m : Member) : Prop where
  memberAt : MemberAt t s m
  opens : EndsOpen (t.take s).reverse
  name : m.name.all isIdent = true
  doc : m.doc.IsUnbroken

theorem fieldSource_of_readMember {root t : Text} {x : Match} {m : Member}
    (hx : x ∈ memberHead.allMatches t) (h : readMember root t x = .ok m) :
    FieldSource t x.stop.offset m := by
  obtain ⟨_, _, ⟨first, owner, name, mark, front, rfl, comment, ident, isMark, text⟩, noted⟩ :=
    gives_memberHead.of_mem_allMatches hx
  have nameText : x.groupText 3 = name := groupText_of_noted noted 3
  have docText : x.groupText 1 = (lookup? 1 first).getD [] := groupText_of_noted noted 1
  have memberAt := memberAt_of_read hx h
  obtain ⟨⟨body, behind⟩, -, h⟩ := bind_eq_ok h
  obtain rfl := Except.ok.inj h
  refine ⟨memberAt, ?_, by rw [nameText]; exact ident, ?_⟩
  · obtain ⟨isIn, -, hstop⟩ := mem_allMatches hx
    obtain ⟨piece, reads⟩ := reads_of_mem_ends hstop
    have stop := reads.isIn isIn
    have past :
        (t.take x.stop.offset).reverse = mark.reverse ++ (front.reverse ++ x.start.past) := by
      rw [stop.text, stop.offset, List.take_left' (List.length_reverse), List.reverse_reverse,
        reads.past, ← reads.textTo, ← Match.text, text, List.reverse_append, List.append_assoc]
    rw [past]
    exact isMark.endsOpen _
  · simp only [docText]
    rcases comment with rfl | ⟨_, rfl, w, g, rfl, once, blank⟩
    · exact Doc.Comment.isUnbroken_parse_nil
    · exact Doc.Comment.isUnbroken_parse once blank

/-! ## Statements that are written -/

/-- Where an operand may begin, the scan goes through the text from code to code. -/
def RunsThrough (s : Text) : Prop :=
  ∀ before, EndsOpen before → ∀ d rest,
    ∃ d', (⟨.code, false, d⟩ : Scan).run before s rest = ⟨.code, false, d'⟩

theorem runsThrough_of_isSingle {s : Text} (single : s.all isSingle = true) : RunsThrough s :=
  fun before _ d rest => ⟨d, Scan.run_of_isSingle d before single rest⟩

theorem RunsThrough.semicolon {s : Text} (h : RunsThrough s) : RunsThrough (s ++ [';']) := by
  intro before opens d rest
  obtain ⟨d', run⟩ := h before opens d (';' :: rest)
  exact ⟨d', by rw [Scan.run_concat, run]; rfl⟩

/-- A comment that is closed at its end. -/
theorem run_blockComment {body : Text} (once : ¬ Doc.Comment.closing <:+: body) (d : Int)
    (before rest : Text) :
    (⟨.code, false, d⟩ : Scan).run before ('/' :: '*' :: (body ++ Doc.Comment.closing)) rest =
      ⟨.code, false, d⟩ := by
  have inside (before : Text) : (⟨.blockComment, false, d⟩ : Scan).run before
      (body ++ Doc.Comment.closing) rest = ⟨.code, false, d⟩ := by
    induction body generalizing before with
    | nil => rfl
    | cons a body ih =>
      have goesOn : ¬ (a = '*' ∧ ((body ++ Doc.Comment.closing) ++ rest).head? = some '/') := by
        rintro ⟨rfl, slash⟩
        cases body with
        | nil => cases slash
        | cons b body =>
          obtain rfl : b = '/' := Option.some.inj slash
          exact once ⟨[], body, rfl⟩
      have next : (⟨.blockComment, false, d⟩ : Scan).next before a
          ((body ++ Doc.Comment.closing) ++ rest) = ⟨.blockComment, false, d⟩ := by
        simp only [Scan.next, Context.step, goesOn, if_false, Bool.false_eq_true]
      rw [List.cons_append, Scan.run, next]
      exact ih (fun mem => once (mem.trans (List.suffix_cons a body).isInfix)) _
  exact inside _

/-- Up to a mark it makes no difference where the text stands. -/
theorem runsThrough_of_mark {p before rest : Text} {c : Char} {d d' : Int} (mark : IsEndMark c)
    (opens : EndsOpen before)
    (run : (⟨.code, false, d⟩ : Scan).run before (p ++ [c]) rest = ⟨.code, false, d'⟩) :
    RunsThrough (p ++ [c]) := by
  intro before' opens' k rest'
  have alike := opens'.looksAlike.trans opens.looksAlike.symm
  obtain ⟨same, -⟩ := Scan.literals_congr_mark mark alike ⟨.code, false, k⟩ p rest' rest
  have agrees : (⟨.code, false, k⟩ : Scan).Agrees ⟨.code, false, d⟩ := ⟨rfl, rfl⟩
  rw [same]
  exact (run ▸ (agrees.literals before (p ++ [c]) rest).1).exists_code

/-- A statement that has been found in a text is gone through anywhere. -/
theorem runsThrough_of_statementEnd {t : Text} {s e : Nat} (opens : EndsOpen (t.take s).reverse)
    (ends : statementEnd t s = .ok e) :
    ∃ p c, t.slice s e = p ++ [c] ∧ IsEndMark c ∧ RunsThrough (p ++ [c]) := by
  obtain ⟨p, c, r, split, rfl, last⟩ := Scan.exists_of_statementEnd? (statementEnd_eq_ok.1 ends)
  have text : t.slice s (s + p.length + 1) = p ++ [c] := by
    have cut : p ++ c :: r = (p ++ [c]) ++ r := by simp
    rw [Text.slice, split, cut]
    exact List.take_left' (by simp; omega)
  refine ⟨p, c, text, ?_⟩
  have code : ∃ d', Scan.outside.run (t.take s).reverse (p ++ [c]) r = ⟨.code, false, d'⟩ ∧
      IsEndMark c := by
    rw [Scan.run_concat]
    rcases Scan.endsStatement_iff.1 last with ⟨state, rfl⟩ | ⟨state, rfl, -⟩
    · exact ⟨0, by rw [state]; rfl, Or.inl rfl⟩
    · exact ⟨0, by rw [state]; rfl, Or.inr rfl⟩
  obtain ⟨d', run, mark⟩ := code
  exact ⟨mark, runsThrough_of_mark mark opens run⟩

/-- Blanks in front make no difference. -/
theorem RunsThrough.of_blank_append {w p : Text} {c : Char} (mark : IsEndMark c)
    (blank : w.all isBlank = true) (h : RunsThrough (w ++ (p ++ [c]))) :
    RunsThrough (p ++ [c]) := by
  obtain ⟨d, run⟩ := h ['{'] endsOpen_brace 1 []
  rw [Scan.run_append, Scan.run_of_blank 1 _ blank] at run
  exact runsThrough_of_mark mark (endsOpen_brace.blank_append (by rwa [List.all_reverse])) run

theorem RunsThrough.blank_append {w p : Text} (blank : w.all isBlank = true) (h : RunsThrough p) :
    RunsThrough (w ++ p) := by
  intro before opens d rest
  have opens' := opens.blank_append (w := w.reverse) (by rwa [List.all_reverse])
  obtain ⟨d', run⟩ := h _ opens' d rest
  exact ⟨d', by rw [Scan.run_append, Scan.run_of_blank d _ blank, run]⟩

/-- The equals sign of an assignment, with the blanks around it. -/
theorem gives_assignment : (textStart ++ blanks ++ one (· == '=') ++ blanks).Gives
    fun _ piece _ =>
      ∃ b w, piece = b ++ '=' :: w ∧ b.all isBlank = true ∧ w.all isBlank = true := by
  have parts := (((gives_place fun before _ => before.isNone).seq (describes_run isBlank).gives).seq
    (describes_one (· == '=')).gives).seq (describes_run isBlank).gives
  refine Gives.imp parts ?_
  rintro _ _ _ ⟨_, _, w, _, ⟨_, _, _, _, ⟨_, _, b, _, ⟨rfl, rfl⟩, ⟨blank, rfl⟩, rfl, rfl⟩,
    ⟨⟨a, ha, rfl⟩, rfl⟩, rfl, rfl⟩, ⟨blank', rfl⟩, rfl, rfl⟩
  exact ⟨_, w, by simp [eq_of_beq ha], blank, blank'⟩

/-- What is left of an assignment without its equals sign is what is assigned, but for blanks in
front of it. -/
theorem exists_assigned {b : Text} (blank : b.all isBlank = true) (v : Text) :
    ∃ w, w.all isBlank = true ∧
      v = w ++ (textStart ++ blanks ++ one (· == '=') ++ blanks).replaceFirst (fun _ => [])
        (b ++ '=' :: v) := by
  have read : (textStart ++ blanks ++ one (· == '=') ++ blanks).ends
      (Cursor.start (b ++ '=' :: v)) ≠ [] := by
    have first : (Cursor.start (b ++ '=' :: v)) ∈ textStart.ends (Cursor.start (b ++ '=' :: v)) :=
      mem_ends_place.2 ⟨rfl, rfl⟩
    have gap := (describes_run isBlank (Cursor.start (b ++ '=' :: v)) _).2
      ⟨b, '=' :: v, rfl, blank, rfl⟩
    have equals :=
      (describes_one (· == '=') ((Cursor.start (b ++ '=' :: v)).after b ('=' :: v)) _).2
        ⟨['='], v, rfl, ⟨'=', rfl, rfl⟩, rfl⟩
    have behind := (describes_run isBlank
      (((Cursor.start (b ++ '=' :: v)).after b ('=' :: v)).after ['='] v) _).2
      ⟨[], v, rfl, rfl, rfl⟩
    exact List.ne_nil_of_mem (mem_ends_seq.2 ⟨_, mem_ends_seq.2 ⟨_, mem_ends_seq.2
      ⟨_, first, gap⟩, equals⟩, behind⟩)
  obtain ⟨d, ds, ends⟩ := List.exists_cons_of_ne_nil read
  have found : (textStart ++ blanks ++ one (· == '=') ++ blanks).matchAt?
      (Cursor.start (b ++ '=' :: v)) = some ⟨Cursor.start (b ++ '=' :: v), d⟩ := by
    rw [matchAt?_eq_head?, ends]
    rfl
  obtain ⟨_, ⟨c, w, rfl, blank', blank''⟩, split⟩ :=
    gives_assignment.of_mem_ends (ends ▸ List.mem_cons_self)
  have equals : ∀ a r, a ∈ ('=' :: r : Text).head? → isBlank a = false := by
    rintro a r h
    obtain rfl := Option.some.inj h
    decide
  rw [List.append_assoc] at split
  obtain ⟨-, tail⟩ :=
    append_inj_of_all blank blank' (fun a => equals a _) (fun a => equals a _) split
  refine ⟨w, blank'', ?_⟩
  rw [replaceFirst_nothing found]
  exact (List.cons.inj tail).2

/-- What a field is given has been scanned to its end. -/
theorem runsThrough_fieldValue {t : Text} {s : Nat} {m : Member} (h : FieldSource t s m)
    (assigned : m.body ≠ ";") : RunsThrough (fieldValue m) := by
  cases h.memberAt with
  | bare body _ => exact absurd body assigned
  | assigned b b' hb hb' _ ends body =>
    obtain ⟨p, c, text, mark, through⟩ := runsThrough_of_statementEnd h.opens ends
    obtain ⟨w, blank, split⟩ := exists_assigned hb (b' ++ t.slice s m.span.2)
    rw [← body, text] at split
    have shows : isBlank c = false := mark.isStop.blank
    -- what is left ends as the statement does
    have value : ∃ z, (textStart ++ blanks ++ one (· == '=') ++ blanks).replaceFirst (fun _ => [])
        m.body = z ++ [c] ∧ RunsThrough (z ++ [c]) := by
      generalize (textStart ++ blanks ++ one (· == '=') ++ blanks).replaceFirst (fun _ => [])
        m.body = v at split
      rcases List.append_eq_append_iff.1 split with ⟨u, rfl, tail⟩ | ⟨u, rfl, rfl⟩
      · obtain ⟨-, blank⟩ := Bool.and_eq_true_iff.1 (List.all_append ▸ blank)
        rcases List.eq_nil_or_concat v with rfl | ⟨z, a, rfl⟩
        · rw [List.append_nil] at tail
          rw [← tail, List.all_append, Bool.and_eq_true] at blank
          simp [shows] at blank
        · rw [List.concat_eq_append, ← List.append_assoc] at tail
          obtain ⟨rfl, last⟩ := List.append_inj' tail rfl
          obtain rfl := (List.cons.inj last).1
          rw [List.append_assoc] at through
          exact ⟨z, by simp, through.of_blank_append mark blank⟩
      · rw [List.all_append, Bool.and_eq_true] at hb'
        exact ⟨u ++ p, by simp, by
          rw [List.append_assoc]
          exact through.blank_append hb'.2⟩
    obtain ⟨z, value, through⟩ := value
    have trimmed : Text.trimEnd (z ++ [c]) = z ++ [c] := Text.dropEndWhile_concat shows
    rw [fieldValue, value, trimmed]
    split
    · exact through
    · exact through.semicolon

/-- **What is written for a field is a statement.** -/
theorem isStatement_fieldStatement {t : Text} {s : Nat} {m : Member} (h : FieldSource t s m)
    (isField : m.kind.isMethod = false) : IsStatement (fieldStatement m) := by
  refine ⟨exists_fieldStatement m, ?_⟩
  have split := Doc.Comment.isUnbroken_splitVisibilityTypes h.doc
  obtain ⟨doc, value, e, unbroken, through⟩ : ∃ (doc : Doc.Comment) (value : Text),
      fieldStatement m = doc.render ++ "this." ++ m.name ++ " = " ++ value ∧ doc.IsUnbroken ∧
        RunsThrough value := by
    unfold fieldStatement
    simp only
    split
    · split
      · have word : RunsThrough "undefined".toList := runsThrough_of_isSingle (by decide)
        exact ⟨_, _, rfl, split, word.semicolon⟩
      · have word : RunsThrough "null".toList := runsThrough_of_isSingle (by decide)
        exact ⟨_, _, rfl, Doc.Comment.isUnbroken_nullablePrimitiveType split, word.semicolon⟩
    · rename_i initialized
      refine ⟨_, _, rfl, split, runsThrough_fieldValue h fun bare => ?_⟩
      rw [Member.kind, if_pos bare] at initialized isField
      split at isField
      · cases isField
      · rename_i field
        exact initialized (if_neg field)
  have head : ("this." ++ m.name ++ " = ".toList).all isSingle = true := by
    rw [List.all_append, List.all_append, List.all_eq_true.2 fun c hc =>
      isSingle_of_isIdent (List.all_eq_true.1 h.name c hc)]
    decide
  have whole : fieldStatement m = doc.render ++ (("this." ++ m.name ++ " = ".toList) ++ value) := by
    rw [e]
    simp
  -- behind the comment and the name the scan is in code, and the equals sign opens an operand
  have front (rest : Text) : Scan.inside.run ['{'] doc.render rest = .inside := by
    rcases unbroken.exists_render with none | ⟨body, e, once⟩
    · rw [none]
      rfl
    · rw [e, Scan.run_append, Scan.inside, run_blockComment once]
      rfl
  have opens : EndsOpen (("this." ++ m.name ++ " = ".toList).reverse ++
      (doc.render.reverse ++ ['{'])) := by
    rw [List.reverse_append]
    rintro _ ⟨⟩
    decide
  obtain ⟨d, run⟩ := through _ opens 1 ['}']
  refine ⟨d, ?_⟩
  rw [whole, Scan.run_append, front, Scan.run_append, Scan.inside,
    Scan.run_of_isSingle 1 _ head, run]

end Modulize.Class
