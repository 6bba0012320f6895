import Modulize.Doc.Comment
import Modulize.Proofs.Pattern.Lines
import Modulize.Proofs.Text

/-!
# Documentation comments that are read are in normal form

What reading leaves of a line has no blank at its end, and it is read again from the line that
`render` writes for it (`undecorate_written`). So a comment that has been read comes back when it is
written and read again (`parse_render`).

A mark that closes a comment lies within one line, and writing puts none into a line. If only
blanks follow such a mark in a text, the comment that is written for it is closed at its end and
nowhere before (`parse_render_parse`).
-/

namespace Modulize.Doc.Comment

open Text

/-! ## Lines -/

theorem trimEnd_eq_self {t : Text} (h : ∀ a ∈ t.getLast?, isBlank a = false) : t.trimEnd = t := by
  by_cases empty : t = []
  · subst empty
    rfl
  · rw [← List.dropLast_concat_getLast empty]
    exact dropEndWhile_concat (h _ (List.getLast?_eq_some_getLast empty))

theorem getLast?_trimEnd (t : Text) : ∀ a ∈ t.trimEnd.getLast?, isBlank a = false := by
  intro a ha
  obtain ⟨r, e⟩ := List.getLast?_eq_some_iff.1 ha
  exact last_dropEndWhile e

/-- What reading leaves of a line does not end with a blank. -/
theorem getLast?_undecorate (line : Text) :
    ∀ a ∈ (undecorate line).getLast?, isBlank a = false := by
  unfold undecorate
  split
  · exact getLast?_trimEnd _
  · exact getLast?_trimEnd _
  · exact getLast?_trimEnd _

/-- The line that is written for a line of content. -/
def written (line : Text) : Text := trimEnd (" * " ++ line)

theorem written_eq {line : Text} (h : ∀ a ∈ line.getLast?, isBlank a = false) (hne : line ≠ []) :
    written line = ' ' :: '*' :: ' ' :: line := by
  refine trimEnd_eq_self (t := " * " ++ line) fun a ha => h a ?_
  rwa [getLast?_append_right _ hne] at ha

/-- **A line that has been read is read again** from the line that is written for it. -/
theorem undecorate_written {line : Text} (h : ∀ a ∈ line.getLast?, isBlank a = false) :
    undecorate (written line) = line := by
  by_cases empty : line = []
  · subst empty
    rfl
  · have start : trimStart (' ' :: '*' :: ' ' :: line) = '*' :: ' ' :: line := rfl
    have whole : ∀ a ∈ ('*' :: ' ' :: line : Text).getLast?, isBlank a = false := by
      intro a ha
      have tail : ('*' :: ' ' :: line : Text).getLast? = line.getLast? :=
        getLast?_append_right ['*', ' '] empty
      exact h a (tail ▸ ha)
    rw [written_eq h empty, undecorate, trim, start, trimEnd_eq_self whole]
    exact trimEnd_eq_self h

/-- Reading a line takes characters away at its ends only. -/
theorem isInfix_undecorate (line : Text) : undecorate line <:+: line := by
  have isInfix_trimEnd (t : Text) : t.trimEnd <:+: t := by
    obtain ⟨w, e, -⟩ := exists_dropEndWhile isBlank t
    exact ⟨[], w, e.symm⟩
  have trimmed : line.trim <:+: line :=
    (isInfix_trimEnd _).trans (List.dropWhile_suffix _).isInfix
  unfold undecorate
  split
  · rename_i r e
    exact ((isInfix_trimEnd r).trans (e ▸ ⟨['*', ' '], [], by simp⟩)).trans trimmed
  · rename_i r _ e
    exact ((isInfix_trimEnd r).trans (e ▸ ⟨['*'], [], by simp⟩)).trans trimmed
  · exact trimmed

/-! ## Blank lines at the ends -/

section

variable {ls : List Text}

theorem trimLines_tight (ls : List Text) : (∀ l ∈ (trimLines ls).head?, l.allBlank = false) ∧
    ∀ l ∈ (trimLines ls).getLast?, l.allBlank = false := by
  have first (ls : List Text) : ∀ l ∈ (ls.dropWhile allBlank).head?, l.allBlank = false := by
    intro l hl
    have := List.head?_dropWhile_not allBlank ls
    rw [hl] at this
    simpa using this
  refine ⟨fun l hl => ?_, fun l hl => ?_⟩
  · have e : ∃ w, ls.dropWhile allBlank = trimLines ls ++ w := by
      refine ⟨((ls.dropWhile allBlank).reverse.takeWhile allBlank).reverse, ?_⟩
      rw [trimLines, ← List.reverse_append, List.takeWhile_append_dropWhile, List.reverse_reverse]
    obtain ⟨w, e⟩ := e
    refine first ls l ?_
    rw [e, Option.mem_def, List.head?_append, hl, Option.some_or]
  · rw [trimLines, List.getLast?_reverse] at hl
    exact first _ l hl

theorem mem_of_mem_trimLines {l : Text} (h : l ∈ trimLines ls) : l ∈ ls := by
  have h : l ∈ (ls.dropWhile allBlank).reverse.dropWhile allBlank := List.mem_reverse.1 h
  exact (List.dropWhile_sublist _).subset (List.mem_reverse.1 ((List.dropWhile_sublist _).subset h))

/-- Empty lines around lines that neither begin nor end with a blank one are taken away. -/
theorem trimLines_around (first : ∀ l ∈ ls.head?, l.allBlank = false)
    (last : ∀ l ∈ ls.getLast?, l.allBlank = false) : trimLines ([] :: (ls ++ [[]])) = ls := by
  have empty : allBlank [] = true := rfl
  unfold trimLines
  rw [List.dropWhile_cons_of_pos empty]
  cases ls with
  | nil => rfl
  | cons l ls =>
    have start : (l :: ls ++ [[]]).dropWhile allBlank = l :: ls ++ [[]] :=
      List.dropWhile_cons_of_neg (by simp [first l rfl])
    rw [start, List.reverse_append, List.reverse_singleton, List.singleton_append,
      List.dropWhile_cons_of_pos empty]
    obtain ⟨r, l', e⟩ := (List.eq_nil_or_concat (l :: ls)).resolve_left (List.cons_ne_nil l ls)
    rw [e, List.concat_eq_append, List.reverse_append, List.reverse_singleton,
      List.singleton_append,
      List.dropWhile_cons_of_neg (by simp [last l' (by simp [e])]), List.reverse_cons,
      List.reverse_reverse]

end

/-! ## Blocks -/

theorem flatten_groupLines (ls : List Text) : (groupLines ls).flatten = ls := by
  fun_induction groupLines ls with
  | case1 => rfl
  | case2 line rest none ih => rw [none] at ih; simpa using ih
  | case3 line rest block blocks e tag some ih => rw [e] at ih; simpa using ih
  | case4 line rest block blocks e none ih => rw [e] at ih; simpa using ih

/-- The content lines of a text. -/
def contentLines (t : Text) : List Text := trimLines ((splitOn '\n' (inner t)).map undecorate)

theorem parse_eq (t : Text) : parse t = ⟨groupLines (contentLines t)⟩ := by
  unfold parse
  split
  · rename_i empty
    obtain rfl := List.isEmpty_iff.1 empty
    rfl
  · rfl

theorem lines_parse (t : Text) : (parse t).lines = contentLines t := by
  rw [parse_eq, Comment.lines, flatten_groupLines]

/-! ## Writing -/

/-- The text between the marks of a comment that is written. -/
def writtenLines (ls : List Text) : Text := ls.flatMap fun line => written line ++ ['\n']

theorem render_eq {c : Comment} (h : c.isEmpty = false) :
    c.render = "/**\n" ++ writtenLines c.lines ++ " */\n" := by
  rw [render, h]
  rfl

theorem splitOn_writtenLines {ls : List Text} (h : ∀ l ∈ ls, '\n' ∉ l) (r : Text) :
    Text.lines (writtenLines ls ++ r) = ls.map written ++ Text.lines r := by
  induction ls with
  | nil => rfl
  | cons l ls ih =>
    obtain ⟨here, h⟩ := List.forall_mem_cons.1 h
    have free : '\n' ∉ written l := by
      intro mem
      obtain ⟨w, e, -⟩ := exists_dropEndWhile isBlank (" * " ++ l)
      have mem : '\n' ∈ (" * ".toList ++ l) := e ▸ List.mem_append_left w mem
      rcases List.mem_append.1 mem with mem | mem
      · revert mem
        decide
      · exact here mem
    have cut : writtenLines (l :: ls) ++ r = written l ++ '\n' :: (writtenLines ls ++ r) := by
      simp [writtenLines]
    rw [cut, lines_append, ih h, lines_eq_singleton free]
    rfl

/-- Writing puts the marks of a comment around its lines. -/
theorem trim_render {c : Comment} (h : c.isEmpty = false) :
    c.render.trim = "/**\n" ++ (writtenLines c.lines ++ " */".toList) := by
  have tight : IsTight isBlank ("/**\n".toList ++ (writtenLines c.lines ++ " */".toList)) := by
    constructor
    · rintro _ ⟨⟩
      decide
    · intro a ha
      rw [getLast?_append_right _ (by simp), getLast?_append_right _ (by decide)] at ha
      obtain rfl : '/' = a := Option.some.inj ha
      decide
  have around : c.render =
      [] ++ (("/**\n".toList ++ (writtenLines c.lines ++ " */".toList)) ++ ['\n']) := by
    rw [render_eq h]
    simp
  rw [around]
  exact strip_append rfl rfl tight

theorem inner_render {c : Comment} (h : c.isEmpty = false) :
    inner c.render = '\n' :: (writtenLines c.lines ++ [' ']) := by
  have marks : writtenLines c.lines ++ " */".toList =
      (writtenLines c.lines ++ [' ']) ++ ['*', '/'] := by simp
  have opened : startsWith "/**" ("/**\n" ++ (writtenLines c.lines ++ " */".toList)) = true := rfl
  have rest : ("/**\n".toList ++ (writtenLines c.lines ++ " */".toList)).drop 3 =
      ('\n' :: (writtenLines c.lines ++ [' '])) ++ ['*', '/'] := by
    rw [marks]
    rfl
  have closed : endsWith "*/" (('\n' :: (writtenLines c.lines ++ [' '])) ++ ['*', '/']) = true :=
    List.isSuffixOf_iff_suffix.2 (List.suffix_append _ _)
  unfold inner
  simp only [trim_render h, opened, if_true, rest, closed]
  exact List.take_left' (by simp)

/-! ## Reading again -/

theorem newline_not_mem_contentLines {t l : Text} (h : l ∈ contentLines t) : '\n' ∉ l := by
  obtain ⟨raw, mem, rfl⟩ := List.mem_map.1 (mem_of_mem_trimLines h)
  exact fun newline => not_mem_of_mem_lines mem ((isInfix_undecorate raw).subset newline)

theorem getLast?_of_mem_contentLines {t l : Text} (h : l ∈ contentLines t) :
    ∀ a ∈ l.getLast?, isBlank a = false := by
  obtain ⟨raw, -, rfl⟩ := List.mem_map.1 (mem_of_mem_trimLines h)
  exact getLast?_undecorate raw

/-- **The content lines of a comment that has been read** are those of the comment that is written
for it. -/
theorem contentLines_render {t : Text} (h : (parse t).isEmpty = false) :
    contentLines (parse t).render = contentLines t := by
  have same : ∀ l ∈ contentLines t, (undecorate ∘ written) l = id l :=
    fun l hl => undecorate_written (getLast?_of_mem_contentLines hl)
  have read : (contentLines t).map (undecorate ∘ written) = contentLines t := by
    rw [List.map_congr_left same, List.map_id]
  have cut : splitOn '\n' (inner (parse t).render) =
      [] :: ((contentLines t).map written ++ [[' ']]) := by
    have first (x : Text) : Text.lines ('\n' :: x) = [] :: Text.lines x := lines_append [] x
    have free : ∀ l ∈ contentLines t, '\n' ∉ l := fun l hl => newline_not_mem_contentLines hl
    have last : Text.lines [' '] = [[' ']] := rfl
    rw [inner_render h, lines_parse]
    refine (first _).trans ?_
    rw [splitOn_writtenLines free, last]
  rw [contentLines, cut, List.map_cons, List.map_append, List.map_map, read]
  exact trimLines_around (trimLines_tight _).1 (trimLines_tight _).2

/-- **A comment that has been read** comes back when it is written and read again. -/
theorem parse_render (t : Text) : parse (parse t).render = parse t := by
  cases h : (parse t).isEmpty with
  | false => rw [parse_eq, contentLines_render h, ← parse_eq]
  | true =>
    -- a comment without content has no line at all: its first line would not be blank
    have none : contentLines t = [] := by
      have blank : (contentLines t).all allBlank = true := lines_parse t ▸ h
      cases e : contentLines t with
      | nil => rfl
      | cons l ls =>
        have first := (trimLines_tight ((splitOn '\n' (inner t)).map undecorate)).1 l
          (by rw [← contentLines, e]; rfl)
        rw [e, List.all_cons, first] at blank
        cases blank
    rw [render, h, if_pos rfl, parse_eq t, none]
    rfl

/-! ## The mark that closes a comment -/

/-- The mark that closes a comment. -/
def closing : Text := ['*', '/']

/-- In a text that is closed by the mark at its end, the mark does not occur before that. -/
theorem not_closing_infix_inner {t : Text}
    (h : ∀ u v : Text, t = u ++ (closing ++ v) → v.allBlank = true) : ¬ closing <:+: inner t := by
  obtain ⟨w, w', around, -, -⟩ := exists_strip isBlank t
  change t = w ++ (t.trim ++ w') at around
  -- the text behind the mark that opens the comment
  obtain ⟨z, s, trimmed, hs⟩ : ∃ z s, t.trim = z ++ s ∧
      inner t = if endsWith "*/" s then s.take (s.length - 2) else s := by
    by_cases opened : startsWith "/**" t.trim = true
    · exact ⟨t.trim.take 3, t.trim.drop 3, (List.take_append_drop 3 _).symm,
        by rw [inner]; simp only [opened, if_true]⟩
    · exact ⟨[], t.trim, rfl, by rw [inner]; simp only [opened, Bool.false_eq_true, if_false]⟩
  rw [hs]
  rintro ⟨u, v, split⟩
  split at split
  · rename_i ends
    obtain ⟨x, rfl⟩ := List.isSuffixOf_iff_suffix.1 ends
    have cut : (x ++ "*/".toList).take ((x ++ "*/".toList).length - 2) = x :=
      List.take_left' (by simp)
    rw [cut] at split
    have blank := h (w ++ (z ++ u)) (v ++ (closing ++ w')) (by
      rw [around, trimmed, ← split]
      simp [closing])
    rw [allBlank, List.all_append, Bool.and_eq_true] at blank
    cases blank.2
  · rename_i goesOn
    have blank := h (w ++ (z ++ u)) (v ++ w') (by
      rw [around, trimmed, ← split]
      simp [closing])
    cases v.eq_nil_or_concat with
    | inl none =>
      subst none
      refine goesOn (List.isSuffixOf_iff_suffix.2 ⟨u, ?_⟩)
      rw [← split, List.append_nil]
      rfl
    | inr last =>
      obtain ⟨v, a, rfl⟩ := last
      have shows := (isTight_strip isBlank t).2 a (by
        change a ∈ t.trim.getLast?
        rw [trimmed, ← split]
        simp)
      rw [allBlank, List.all_append, Bool.and_eq_true] at blank
      simp [shows] at blank

theorem not_closing_infix_written {l : Text} (h : ¬ closing <:+: l) : ¬ closing <:+: written l := by
  intro mem
  obtain ⟨w, e, -⟩ := exists_dropEndWhile isBlank (" * ".toList ++ l)
  have mem : closing <:+: ' ' :: '*' :: ' ' :: l := mem.trans ⟨[], w, e.symm⟩
  rcases List.infix_cons_iff.1 mem with mem | mem
  · cases (List.cons_prefix_cons.1 mem).1
  · rcases List.infix_cons_iff.1 mem with mem | mem
    · cases (List.cons_prefix_cons.1 (List.cons_prefix_cons.1 mem).2).1
    · rcases List.infix_cons_iff.1 mem with mem | mem
      · cases (List.cons_prefix_cons.1 mem).1
      · exact h mem

theorem not_closing_infix_writtenLines {ls : List Text} {r : Text}
    (h : ∀ l ∈ ls, ¬ closing <:+: l) (hr : ¬ closing <:+: r) :
    ¬ closing <:+: writtenLines ls ++ r := by
  induction ls with
  | nil => exact hr
  | cons l ls ih =>
    obtain ⟨here, h⟩ := List.forall_mem_cons.1 h
    have cut : writtenLines (l :: ls) ++ r = written l ++ '\n' :: (writtenLines ls ++ r) := by
      simp [writtenLines]
    rw [cut]
    intro mem
    rcases infix_of_append_cons (by decide) mem with mem | mem
    · exact not_closing_infix_written here mem
    · exact ih h mem

/-- A mark in front of which there is none, and behind which there is none, is the only one. -/
theorem eq_of_append_closing {x u v v' : Text} (before : ¬ closing <:+: x)
    (behind : ¬ closing <:+: '/' :: v') (e : x ++ (closing ++ v') = u ++ (closing ++ v)) :
    v = v' := by
  rcases List.append_eq_append_iff.1 e with ⟨w, rfl, tail⟩ | ⟨w, rfl, tail⟩
  · cases w with
    | nil => exact (List.append_cancel_left tail).symm
    | cons a w =>
      have inner : '/' :: v' = w ++ (closing ++ v) := (List.cons.inj tail).2
      exact absurd ⟨w, v, (List.append_assoc w closing v).trans inner.symm⟩ behind
  · cases w with
    | nil => exact List.append_cancel_left tail
    | cons a w =>
      obtain ⟨first, inner⟩ : '*' = a ∧ '/' :: v = w ++ (closing ++ v') := List.cons.inj tail
      cases w with
      | nil => cases (List.cons.inj inner).1
      | cons b w =>
        have second : '/' = b := (List.cons.inj inner).1
        exact absurd ⟨u, w, by simp [closing, ← first, ← second]⟩ before

/-- A comment with no closing mark in its lines is closed at its end and nowhere before. -/
theorem eq_of_render_split {c : Comment} (h : ∀ l ∈ c.lines, ¬ closing <:+: l) {u v : Text}
    (split : c.render = u ++ (closing ++ v)) : v = "\n" := by
  cases empty : c.isEmpty with
  | true =>
    rw [render, empty, if_pos rfl] at split
    have := congrArg List.length split
    simp [closing] at this
  | false =>
    have front : ¬ closing <:+: "/**".toList ++ '\n' :: (writtenLines c.lines ++ [' ']) := by
      intro mem
      rcases infix_of_append_cons (by decide) mem with mem | mem
      · revert mem
        decide
      · exact not_closing_infix_writtenLines h (by decide) mem
    have whole : ("/**".toList ++ '\n' :: (writtenLines c.lines ++ [' '])) ++ (closing ++ "\n") =
        u ++ (closing ++ v) := by
      rw [← split, render_eq empty]
      simp [closing]
    exact eq_of_append_closing front (by decide) whole

/-- **Reading a comment that has been written** gives the comment that it was written for, so
writing again changes nothing. If the mark that closes a comment is followed by blanks only wherever
it occurs in a text, it occurs at the end of the written comment and nowhere else. -/
theorem parse_render_parse (t : Text) :
    parse (parse t).render = parse t ∧
      (parse (parse t).render).render = (parse t).render ∧
      ((∀ u v : Text, t = u ++ (closing ++ v) → v.allBlank = true) →
        ∀ u v : Text, (parse t).render = u ++ (closing ++ v) → v = "\n") := by
  refine ⟨parse_render t, congrArg render (parse_render t), fun h u v split => ?_⟩
  refine eq_of_render_split (fun l hl mem => ?_) split
  rw [lines_parse] at hl
  obtain ⟨raw, hraw, rfl⟩ := List.mem_map.1 (mem_of_mem_trimLines hl)
  refine not_closing_infix_inner h ((mem.trans (isInfix_undecorate raw)).trans ?_)
  exact infix_of_mem_lines hraw

/-- A comment with a line that begins with a star of its own, and a slash. -/
def starred : Text := "/**\n  * Does x.\n **  b / c\n   @param a \n */"

/-- The theorem for that comment. -/
theorem parse_render_parse_starred :
    (parse starred).render = "/**\n * Does x.\n * *  b / c\n * @param a\n */\n" ∧
      (∀ u v : Text, starred = u ++ (closing ++ v) → v.allBlank = true) ∧
      ∀ u v : Text, (parse starred).render = u ++ (closing ++ v) → v = "\n" := by
  have once (u v : Text) (e : starred = u ++ (closing ++ v)) : v.allBlank = true := by
    have front : ¬ closing <:+: starred.take 41 := by decide +kernel
    have split : starred = starred.take 41 ++ (closing ++ []) := by decide +kernel
    have empty : v = [] := eq_of_append_closing front (by decide) (split.symm.trans e)
    rw [empty]
    rfl
  exact ⟨by decide +kernel, once, (parse_render_parse starred).2.2 once⟩

end Modulize.Doc.Comment
