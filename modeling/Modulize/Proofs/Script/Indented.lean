import Modulize.Proofs.Pattern.Lines
import Modulize.Proofs.Script.Relaid

/-!
# Indentation

Indenting a text and taking the common indentation away both lay the text out otherwise, and do
nothing else (`relaid_indent`, `relaid_dedent`).

A text that begins with a character that shows and has no lines of spaces and tabs only (`IsEven`)
comes back when it is indented and the indentation is taken away again (`dedent_indent`). What is
left of a text without its common indentation and without the blanks at its ends is of that kind
(`isEven_trim_dedent`).
-/

namespace Modulize.Text

open Script

/-! ## Lines -/

/-- A line of spaces and tabs only is empty. -/
def IsLevel (l : Text) : Prop := l.all isSpaceOrTab = true → l = []

/-- The text begins with a character that shows and has no line of spaces and tabs only. -/
structure IsEven (t : Text) : Prop where
  head : ∀ a ∈ t.head?, isBlank a = false
  lines : ∀ l ∈ t.lines, IsLevel l

/-! ## Laying out -/

theorem relaid_append {y y' : Text} (h : Relaid true y y') (fresh : Bool) (u : Text) :
    Relaid fresh (u ++ '\n' :: y) (u ++ '\n' :: y') := by
  induction u generalizing fresh with
  | nil => exact .cons fresh '\n' h
  | cons a u ih => exact .cons fresh a (ih _)

theorem relaid_gap_append {w x x' : Text} (gap : w.all isSpaceOrTab = true)
    (h : Relaid true x x') : Relaid true (w ++ x) x' := by
  induction w with
  | nil => exact h
  | cons a w ih =>
    obtain ⟨here, gap⟩ := Bool.and_eq_true_iff.1 gap
    exact .left here (ih gap)

/-- **Indenting only lays a text out.** -/
theorem relaid_indent {lead : Text} (gap : lead.all isSpaceOrTab = true) (fresh : Bool)
    (t : Text) : Relaid fresh (indentFrom lead fresh t) t := by
  induction t generalizing fresh with
  | nil => exact .nil fresh
  | cons a t ih =>
    rw [indentFrom]
    split
    · rename_i newline
      exact .cons fresh a (by simpa [newline] using ih true)
    · rename_i other
      have later : Relaid fresh (a :: indentFrom lead false t) (a :: t) :=
        .cons fresh a (beq_false_of_ne other ▸ ih false)
      split
      · rename_i begins
        obtain rfl : fresh = true := begins
        exact relaid_gap_append gap later
      · exact later

/-- Texts that meet at a line break are indented apart. -/
theorem indentFrom_append_newline (lead : Text) (fresh : Bool) (t r : Text) :
    indentFrom lead fresh (t ++ '\n' :: r) =
      indentFrom lead fresh t ++ '\n' :: indentFrom lead true r := by
  induction t generalizing fresh with
  | nil => rfl
  | cons a t ih =>
    simp only [List.cons_append, indentFrom, ih]
    split
    · rfl
    · split <;> simp

/-- Texts that meet within a line are indented apart. -/
theorem indentFrom_append_cons {a : Char} (other : a ≠ '\n') (lead : Text) (fresh : Bool)
    (t r : Text) : indentFrom lead fresh (t ++ a :: r) =
      indentFrom lead fresh (t ++ [a]) ++ indentFrom lead false r := by
  induction t generalizing fresh with
  | nil => cases fresh <;> simp [indentFrom, other]
  | cons b t ih =>
    simp only [List.cons_append, indentFrom, ih]
    split
    · rfl
    · split <;> simp

theorem getLast?_indentFrom (lead : Text) (fresh : Bool) (t : Text) :
    (indentFrom lead fresh t).getLast? = t.getLast? := by
  induction t generalizing fresh with
  | nil => rfl
  | cons a t ih =>
    have later (b : Bool) : (a :: indentFrom lead b t).getLast? = (a :: t).getLast? := by
      rw [List.getLast?_cons, ih, List.getLast?_cons]
    rw [indentFrom]
    split
    · exact later true
    · split
      · rw [getLast?_append_right _ (by simp), later false]
      · exact later false

/-- Texts are laid out alike if they are so line by line. -/
theorem relaid_ofLines {ls : List Text} {f : Text → Text}
    (h : ∀ l ∈ ls, ∃ w, l = w ++ f l ∧ w.all isSpaceOrTab = true) :
    Relaid true (ofLines ls) (ofLines (ls.map f)) := by
  induction ls with
  | nil => exact .nil true
  | cons l ls ih =>
    obtain ⟨⟨w, split, gap⟩, h⟩ := List.forall_mem_cons.1 h
    cases ls with
    | nil =>
      rw [List.map_singleton, ofLines_singleton, ofLines_singleton, split]
      refine relaid_gap_append gap ?_
      rw [← split]
      exact .refl _ _
    | cons l₂ ls =>
      have cut : ofLines (l :: l₂ :: ls) = w ++ (f l ++ '\n' :: ofLines (l₂ :: ls)) := by
        rw [ofLines_cons_cons, ← List.append_assoc, ← split]
      have cut' : ofLines ((l :: l₂ :: ls).map f) = f l ++ '\n' :: ofLines ((l₂ :: ls).map f) :=
        ofLines_cons_cons ..
      rw [cut, cut']
      exact relaid_gap_append gap (relaid_append (ih h) true (f l))

/-! ## The common indentation -/

theorem commonStart_isPrefix (s t : Text) : commonStart s t <+: s ∧ commonStart s t <+: t := by
  fun_induction commonStart s t with
  | case1 a r s ih =>
    exact ⟨List.cons_prefix_cons.2 ⟨rfl, ih.1⟩, List.cons_prefix_cons.2 ⟨rfl, ih.2⟩⟩
  | case2 => exact ⟨List.nil_prefix, List.nil_prefix⟩
  | case3 => exact ⟨List.nil_prefix, List.nil_prefix⟩

theorem commonStartAll_prefix {ts : List Text} {t : Text} (h : t ∈ ts) :
    commonStartAll ts <+: t := by
  fun_induction commonStartAll ts with
  | case1 => cases h
  | case2 t' => exact List.mem_singleton.1 h ▸ List.prefix_rfl
  | case3 t' ts hne ih =>
    rcases List.mem_cons.1 h with rfl | h
    · exact (commonStart_isPrefix _ _).1
    · exact (commonStart_isPrefix _ _).2.trans (ih h)

theorem commonStartAll_map_append (lead : Text) {ts : List Text} (h : ts ≠ []) :
    commonStartAll (ts.map (lead ++ ·)) = lead ++ commonStartAll ts := by
  have common (s t : Text) : commonStart (lead ++ s) (lead ++ t) = lead ++ commonStart s t := by
    induction lead with
    | nil => rfl
    | cons a lead ih => simp [commonStart, ih]
  induction ts with
  | nil => exact absurd rfl h
  | cons t ts ih =>
    cases ts with
    | nil => rfl
    | cons t' ts =>
      calc commonStartAll ((t :: t' :: ts).map (lead ++ ·))
          = commonStart (lead ++ t) (commonStartAll ((t' :: ts).map (lead ++ ·))) := rfl
        _ = lead ++ commonStart t (commonStartAll (t' :: ts)) := by rw [ih (by simp), common]

theorem commonStartAll_nil_cons (ts : List Text) : commonStartAll ([] :: ts) = [] := by
  cases ts <;> simp [commonStartAll, commonStart]

/-- A line, empty if it has nothing but spaces and tabs. -/
def leveled (l : Text) : Text := if l.all isSpaceOrTab then [] else l

theorem leveled_eq_self {l : Text} (h : IsLevel l) : leveled l = l := by
  rw [leveled]
  split
  · rename_i gap
    exact (h gap).symm
  · rfl

/-- The common beginning of the indentations of some lines. -/
def margin (ls : List Text) : Text :=
  commonStartAll ((ls.filter (· ≠ [])).map (·.takeWhile isSpaceOrTab))

theorem dedent_eq (t : Text) : dedent t =
    ofLines (((lines t).map leveled).map (·.drop (margin ((lines t).map leveled)).length)) := rfl

/-- The lines with something else than spaces and tabs begin with the margin. -/
theorem margin_prefix {ls : List Text} {l : Text} (h : leveled l ∈ ls)
    (shows : ¬ l.all isSpaceOrTab = true) : margin ls <+: l.takeWhile isSpaceOrTab := by
  have same : leveled l = l := if_neg shows
  rw [same] at h
  have inked : l ≠ [] := fun e => shows (e ▸ rfl)
  exact commonStartAll_prefix (List.mem_map_of_mem (List.mem_filter.2 ⟨h, by simpa using inked⟩))

/-- What is taken away from a line is spaces and tabs, and something is left of it. -/
theorem exists_drop_margin {ls : List Text} {l : Text} (h : leveled l ∈ ls) :
    (∃ w, l = w ++ (leveled l).drop (margin ls).length ∧ w.all isSpaceOrTab = true) ∧
      IsLevel ((leveled l).drop (margin ls).length) := by
  by_cases gap : l.all isSpaceOrTab = true
  · have empty : leveled l = [] := if_pos gap
    rw [empty, List.drop_nil]
    exact ⟨⟨l, (List.append_nil l).symm, gap⟩, fun _ => rfl⟩
  · obtain ⟨v, split⟩ := margin_prefix h gap
    have same : leveled l = l := if_neg gap
    rw [same]
    have cut : l = margin ls ++ (v ++ l.dropWhile isSpaceOrTab) := by
      rw [← List.append_assoc, split, List.takeWhile_append_dropWhile]
    have blank : (margin ls).all isSpaceOrTab = true := by
      have all : (l.takeWhile isSpaceOrTab).all isSpaceOrTab = true := List.all_takeWhile
      rw [← split, List.all_append, Bool.and_eq_true] at all
      exact all.1
    have rest : l.drop (margin ls).length = v ++ l.dropWhile isSpaceOrTab := by
      nth_rewrite 1 [cut]
      exact List.drop_left
    rw [rest]
    refine ⟨⟨margin ls, cut, blank⟩, fun left => absurd ?_ gap⟩
    rw [cut, List.all_append, blank, left]
    rfl

/-- **Taking the common indentation away only lays a text out.** -/
theorem relaid_dedent (t : Text) : Relaid true t (dedent t) := by
  have laid := relaid_ofLines (f := fun l =>
    (leveled l).drop (margin ((lines t).map leveled)).length) fun l (hl : l ∈ lines t) =>
      (exists_drop_margin (List.mem_map_of_mem hl)).1
  rw [ofLines_lines] at laid
  rw [dedent_eq, List.map_map]
  exact laid

theorem lines_dedent (t : Text) : lines (dedent t) =
    ((lines t).map leveled).map (·.drop (margin ((lines t).map leveled)).length) := by
  rw [dedent_eq]
  refine lines_ofLines (fun l hl => ?_) (by simp [lines_ne_nil])
  rw [List.map_map] at hl
  obtain ⟨l', hl', rfl⟩ := List.mem_map.1 hl
  obtain ⟨⟨w, split, -⟩, -⟩ := exists_drop_margin (List.mem_map_of_mem (f := leveled) hl')
  intro newline
  exact not_mem_of_mem_lines hl' (split ▸ List.mem_append_right w newline)

theorem isLevel_of_mem_lines_dedent {t l : Text} (h : l ∈ lines (dedent t)) : IsLevel l := by
  rw [lines_dedent, List.map_map] at h
  obtain ⟨l', hl', rfl⟩ := List.mem_map.1 h
  exact (exists_drop_margin (List.mem_map_of_mem hl')).2

/-- The lines of a part of a text that begins and ends with characters that show. -/
theorem isEven_of_infix {t b u v : Text} (h : ∀ l ∈ lines t, IsLevel l) (split : t = u ++ (b ++ v))
    (tight : IsTight isBlank b) : IsEven b := by
  refine ⟨tight.1, fun l hl gap => ?_⟩
  have newline := not_mem_of_mem_lines hl
  obtain ⟨ls, ls', around⟩ := List.append_of_mem hl
  have whole : b = ofLines (ls ++ l :: ls') := by rw [← around, ofLines_lines]
  by_contra inked
  have first : ls ≠ [] := by
    rintro rfl
    obtain ⟨a, r, rfl⟩ := List.exists_cons_of_ne_nil inked
    have head : b.head? = some a := by
      rw [whole]
      cases ls' <;> simp
    have shows := tight.1 a head
    rw [isBlank_of_isSpaceOrTab (Bool.and_eq_true_iff.1 gap).1] at shows
    cases shows
  have last : ls' ≠ [] := by
    rintro rfl
    have last : b.getLast? = l.getLast? := by
      rw [whole, ofLines_append first (by simp), ofLines_singleton, List.append_cons,
        getLast?_append_right _ inked]
    obtain ⟨r, a, rfl⟩ := List.eq_nil_or_concat l |>.resolve_left inked
    have shows := tight.2 a (by simp [last])
    rw [isBlank_of_isSpaceOrTab (List.all_eq_true.1 gap a (by simp))] at shows
    cases shows
  have cut : b = ofLines ls ++ '\n' :: (l ++ '\n' :: ofLines ls') := by
    rw [whole, ofLines_append first (by simp), ofLines_cons last]
  have mem : l ∈ lines t := by
    have cut : t = (u ++ ofLines ls) ++ '\n' :: (l ++ '\n' :: (ofLines ls' ++ v)) := by
      rw [split, cut]
      simp
    rw [cut, lines_append, lines_append, lines_eq_singleton newline]
    simp
  exact inked (h l mem gap)

/-- What is left of a text without its common indentation and without the blanks at its ends. -/
theorem isEven_trim_dedent (t : Text) : IsEven (dedent t).trim := by
  obtain ⟨w, w', split, -, -⟩ := exists_strip isBlank (dedent t)
  exact isEven_of_infix (fun _ => isLevel_of_mem_lines_dedent) split
    (isTight_strip isBlank _)

/-! ## Indenting and back -/

/-- A line, with something before it unless it is empty. -/
def led (lead l : Text) : Text := if l = [] then [] else lead ++ l

theorem lines_cons_of_ne {a : Char} (h : a ≠ '\n') {t l : Text} {ls : List Text}
    (e : lines t = l :: ls) : lines (a :: t) = (a :: l) :: ls := by
  rw [lines] at e ⊢
  simp [splitOn, e, h]

/-- The lines of a text that is indented. -/
theorem lines_indentFrom {lead : Text} (h : '\n' ∉ lead) (t : Text) :
    lines (indentFrom lead true t) = (lines t).map (led lead) ∧
      ∃ l ls, lines t = l :: ls ∧ lines (indentFrom lead false t) = l :: ls.map (led lead) := by
  induction t with
  | nil => exact ⟨rfl, [], [], rfl, rfl⟩
  | cons a t ih =>
    obtain ⟨fresh, l, ls, first, later⟩ := ih
    by_cases newline : a = '\n'
    · subst newline
      have begins (u : Text) : lines ('\n' :: u) = [] :: lines u := lines_append [] u
      have here (b : Bool) : indentFrom lead b ('\n' :: t) = '\n' :: indentFrom lead true t := by
        rw [indentFrom, if_pos rfl]
      rw [here, here, begins, begins, fresh]
      exact ⟨rfl, [], lines t, rfl, rfl⟩
    · have cut : lines (a :: t) = (a :: l) :: ls := lines_cons_of_ne newline first
      have goes : lines (a :: indentFrom lead false t) = (a :: l) :: ls.map (led lead) :=
        lines_cons_of_ne newline later
      have begins (u : Text) (hu : '\n' ∉ u) :
          lines (u ++ a :: indentFrom lead false t) = (u ++ a :: l) :: ls.map (led lead) := by
        induction u with
        | nil => exact goes
        | cons b u ih =>
          obtain ⟨hb, hu⟩ := not_or.1 (mt List.mem_cons.2 hu)
          exact lines_cons_of_ne (Ne.symm hb) (ih hu)
      refine ⟨?_, a :: l, ls, cut, ?_⟩
      · rw [indentFrom, if_neg newline, if_pos rfl, begins lead h, cut]
        rfl
      · rw [indentFrom, if_neg newline, if_neg Bool.false_ne_true, goes]

/-- What the lines of a text have in common when it is indented, if the text begins with a character
that shows. -/
theorem margin_indent {lead l : Text} {a : Char} (gap : lead.all isSpaceOrTab = true)
    (shows : isSpaceOrTab a = false) (ls : List Text) :
    margin (((a :: l) :: ls).map (led lead)) = lead := by
  have kept : (((a :: l) :: ls).map (led lead)).filter (· ≠ []) =
      ((a :: l) :: ls.filter (· ≠ [])).map (lead ++ ·) := by
    have first : led lead (a :: l) = lead ++ a :: l := if_neg (by simp)
    rw [List.map_cons, List.map_cons, first, List.filter_cons_of_pos (by simp)]
    congr 1
    induction ls with
    | nil => rfl
    | cons l ls ih =>
      by_cases empty : l = []
      · simpa [led, empty] using ih
      · simpa [led, empty] using ih
  have indented (l : Text) : (lead ++ l).takeWhile isSpaceOrTab =
      lead ++ l.takeWhile isSpaceOrTab :=
    List.takeWhile_append_of_pos (by simpa using gap)
  have starts : (((a :: l) :: ls.filter (· ≠ [])).map (lead ++ ·)).map
        (·.takeWhile isSpaceOrTab) =
      (([] : Text) :: (ls.filter (· ≠ [])).map (·.takeWhile isSpaceOrTab)).map (lead ++ ·) := by
    simp [indented, shows]
  rw [margin, kept, starts, commonStartAll_map_append lead (by simp), commonStartAll_nil_cons,
    List.append_nil]

/-- **A text that is even comes back** when it is indented and the indentation is taken away. -/
theorem dedent_indent {t lead : Text} (even : IsEven t) (gap : lead.all isSpaceOrTab = true) :
    dedent (t.indent lead) = t := by
  cases t with
  | nil => rfl
  | cons a r =>
    have newline : '\n' ∉ lead := fun mem => by
      cases List.all_eq_true.1 gap _ mem
    have blank := even.head a rfl
    have shows : isSpaceOrTab a = false := Bool.eq_false_iff.2 fun e => by
      rw [isBlank_of_isSpaceOrTab e] at blank
      cases blank
    have other : a ≠ '\n' := by
      rintro rfl
      cases blank
    obtain ⟨l, ls, split⟩ := List.exists_cons_of_ne_nil (lines_ne_nil r)
    have cut := lines_cons_of_ne other split
    have same : (lines (indent (a :: r) lead)).map leveled = (lines (a :: r)).map (led lead) := by
      rw [indent, (lines_indentFrom newline _).1, List.map_map]
      refine List.map_congr_left fun l hl => leveled_eq_self fun all => ?_
      rw [led] at all ⊢
      split at all
      · rename_i empty
        exact if_pos empty
      · rw [List.all_append, Bool.and_eq_true] at all
        exact if_pos (even.lines l hl all.2)
    have back (l : Text) : ((·.drop lead.length) ∘ led lead) l = l := by
      by_cases e : l = [] <;> simp [led, e]
    rw [dedent_eq, same, cut, margin_indent gap shows, ← cut, List.map_map,
      List.map_congr_left fun l _ => back l, List.map_id', ofLines_lines]

end Modulize.Text
