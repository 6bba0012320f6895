import Mathlib.Data.List.TakeWhile
import Modulize.Proofs.Script.Indented

/-!
# Other beginnings of lines

A text may be laid out otherwise by a rule that puts something else in place of the spaces and tabs
at the beginning of every line (`Releaded`). Taking the common indentation away (`releaded_dedent`)
and indenting (`releaded_indent`) are of that kind. What a rule makes of a text that begins within a
line is told line by line (`Releaded.eq_mapLater`), and one rule behind another is a rule again
(`mapLater_mapLater`).
-/

namespace Modulize.Script

/-! ## Rules for the beginnings of lines -/

/-- The text goes on within its line. -/
def inked (x : Text) : Bool := x.head?.any (· != '\n')

/-- A line with something else in place of the spaces and tabs at its beginning; whether anything
stands behind them may count. -/
def relead (f : Text → Bool → Text) (l : Text) : Text :=
  f (l.takeWhile isSpaceOrTab) (inked (l.dropWhile isSpaceOrTab)) ++ l.dropWhile isSpaceOrTab

/-- **The same text with something else in place of the spaces and tabs at the beginnings of its
lines**; the flag says that a line begins here. -/
inductive Releaded (f : Text → Bool → Text) : Bool → Text → Text → Prop
  | nil : Releaded f false [] []
  | cons (a : Char) {x x' : Text} (rest : Releaded f (a == '\n') x x') :
      Releaded f false (a :: x) (a :: x')
  | lead {w x x' : Text} (gap : w.all isSpaceOrTab = true)
      (shows : ∀ a ∈ x.head?, isSpaceOrTab a = false) (rest : Releaded f false x x') :
      Releaded f true (w ++ x) (f w (inked x) ++ x')

/-- Spaces and tabs only are put at the beginnings of lines, and nothing in an empty line. -/
structure IsGapRule (f : Text → Bool → Text) : Prop where
  gap : ∀ w b, w.all isSpaceOrTab = true → (f w b).all isSpaceOrTab = true
  empty : f [] false = []

/-- The text with every line but the first changed. -/
def mapLater (g : Text → Text) (t : Text) : Text :=
  Text.ofLines ((Text.lines t).take 1 ++ ((Text.lines t).drop 1).map g)

namespace Releaded

variable {f : Text → Bool → Text} {fresh : Bool} {x x' r r' before before' : Text} {σ : Scan}

/-- Such a rule only lays a text out. -/
theorem relaid (rule : IsGapRule f) (h : Releaded f fresh x x') : Relaid fresh x x' := by
  induction h with
  | nil => exact .nil false
  | cons a _ ih => exact .cons false a ih
  | @lead w x x' gap _ _ ih =>
    refine Text.relaid_gap_append gap ?_
    have put : (f w (inked x)).all isSpaceOrTab = true := rule.gap w _ gap
    generalize f w (inked x) = v at put
    induction v with
    | nil => exact ih.at_line
    | cons a v ih' =>
      obtain ⟨here, put⟩ := Bool.and_eq_true_iff.1 put
      exact .right here (ih' put)

theorem empty (rule : IsGapRule f) (fresh : Bool) : Releaded f fresh [] [] := by
  cases fresh with
  | false => exact .nil
  | true => simpa [inked, rule.empty] using lead (f := f) (w := []) rfl (by simp) .nil

/-! ### Lines -/

theorem head?_of_lines {x l : Text} {ls : List Text} (e : Text.lines x = l :: ls) :
    l.head? = x.head?.filter (· != '\n') := by
  cases x with
  | nil =>
    obtain ⟨rfl, -⟩ := List.cons.inj (e : [[]] = l :: ls)
    rfl
  | cons a x =>
    by_cases newline : a = '\n'
    · subst newline
      obtain ⟨rfl, -⟩ := List.cons.inj ((Text.lines_append [] x).symm.trans e)
      rfl
    · obtain ⟨k, ks, split⟩ := List.exists_cons_of_ne_nil (Text.lines_ne_nil x)
      obtain ⟨rfl, -⟩ := List.cons.inj ((Text.lines_cons_of_ne newline split).symm.trans e)
      exact (Option.filter_some_pos (by simpa using newline)).symm

theorem lines_gap_append {w x l : Text} {ls : List Text} (gap : w.all isSpaceOrTab = true)
    (e : Text.lines x = l :: ls) : Text.lines (w ++ x) = (w ++ l) :: ls := by
  induction w with
  | nil => exact e
  | cons a w ih =>
    obtain ⟨here, gap⟩ := Bool.and_eq_true_iff.1 gap
    exact Text.lines_cons_of_ne (fun newline => by subst newline; cases here) (ih gap)

theorem relead_append {w l : Text} (gap : w.all isSpaceOrTab = true)
    (shows : ∀ a ∈ l.head?, isSpaceOrTab a = false) : relead f (w ++ l) = f w (inked l) ++ l := by
  rw [relead, takeWhile_append_of_all gap shows, dropWhile_append_of_all gap shows]

/-- The lines of a text with other beginnings of lines. -/
theorem exists_lines (rule : IsGapRule f) (h : Releaded f fresh x x') :
    ∃ l ls, Text.lines x = l :: ls ∧
      Text.lines x' = (if fresh then relead f l else l) :: ls.map (relead f) := by
  induction h with
  | nil => exact ⟨[], [], rfl, rfl⟩
  | @cons a x x' _ ih =>
    obtain ⟨l, ls, split, split'⟩ := ih
    by_cases newline : a = '\n'
    · subst newline
      have begins (u : Text) : Text.lines ('\n' :: u) = [] :: Text.lines u := Text.lines_append [] u
      refine ⟨[], l :: ls, by rw [begins, split], ?_⟩
      rw [begins, split']
      rfl
    · rw [beq_false_of_ne newline] at split'
      exact ⟨a :: l, ls, Text.lines_cons_of_ne newline split, Text.lines_cons_of_ne newline split'⟩
  | @lead w x x' gap shows _ ih =>
    obtain ⟨l, ls, split, split'⟩ := ih
    refine ⟨w ++ l, ls, lines_gap_append gap split, ?_⟩
    rw [lines_gap_append (rule.gap _ _ gap) split']
    have head := head?_of_lines split
    have same : inked l = inked x := by
      rw [inked, inked, head]
      cases x.head? with
      | none => rfl
      | some a => by_cases newline : a = '\n' <;> simp [newline]
    have shows' : ∀ a ∈ l.head?, isSpaceOrTab a = false := fun a ha => shows a (by
      rw [head] at ha
      exact (Option.filter_eq_some_iff.1 ha).1)
    rw [if_neg Bool.false_ne_true, if_pos rfl, ← same, relead_append gap shows']

/-- A rule takes every text to one text only. -/
theorem eq_mapLater (rule : IsGapRule f) (h : Releaded f false x x') :
    x' = mapLater (relead f) x := by
  obtain ⟨l, ls, split, split'⟩ := h.exists_lines rule
  rw [mapLater, split, ← Text.ofLines_lines x', split']
  rfl

theorem append_left {k : Text} (line : '\n' ∉ k) (h : Releaded f false x x') :
    Releaded f false (k ++ x) (k ++ x') := by
  induction k with
  | nil => exact h
  | cons a k ih =>
    obtain ⟨here, line⟩ := not_or.1 (mt List.mem_cons.2 line)
    refine .cons a ?_
    rw [beq_false_of_ne (Ne.symm here)]
    exact ih line

theorem line_append {l : Text} (line : '\n' ∉ l) (h : Releaded f false x x')
    (ends : ∀ a ∈ x.head?, a = '\n') : Releaded f true (l ++ x) (relead f l ++ x') := by
  have parts := List.takeWhile_append_dropWhile (p := isSpaceOrTab) (l := l)
  generalize hk : l.dropWhile isSpaceOrTab = k at parts
  have gap : (l.takeWhile isSpaceOrTab).all isSpaceOrTab = true := List.all_takeWhile
  have first : ∀ a ∈ k.head?, isSpaceOrTab a = false := fun a ha => by
    have := List.head?_dropWhile_not isSpaceOrTab l
    rw [hk, ha] at this
    simpa using this
  have same : inked (k ++ x) = inked k := by
    cases k with
    | nil =>
      cases x with
      | nil => rfl
      | cons a x => simp [inked, ends a rfl]
    | cons a k => rfl
  have shows : ∀ a ∈ (k ++ x).head?, isSpaceOrTab a = false := by
    cases k with
    | nil => exact fun a ha => by rw [ends a ha]; rfl
    | cons a k => exact first
  have inLine : '\n' ∉ k := fun mem => line (parts ▸ List.mem_append_right _ mem)
  have whole := Releaded.lead (f := f) gap shows (append_left inLine h)
  rw [same, ← List.append_assoc, parts, ← List.append_assoc] at whole
  rw [relead, hk]
  exact whole

/-- A rule makes a new text of every text. -/
theorem ofLines_map (rule : IsGapRule f) (x : Text) :
    Releaded f true x (Text.ofLines ((Text.lines x).map (relead f))) := by
  suffices h : ∀ ls : List Text, (∀ l ∈ ls, '\n' ∉ l) →
      Releaded f true (Text.ofLines ls) (Text.ofLines (ls.map (relead f))) by
    have := h (Text.lines x) fun l hl => Text.not_mem_of_mem_lines hl
    rwa [Text.ofLines_lines] at this
  intro ls hls
  induction ls with
  | nil => exact empty rule true
  | cons l ls ih =>
    obtain ⟨line, hls⟩ := List.forall_mem_cons.1 hls
    cases ls with
    | nil => simpa using line_append line (.nil (f := f)) (by simp)
    | cons l' ls =>
      have later : Releaded f false ('\n' :: Text.ofLines (l' :: ls))
          ('\n' :: Text.ofLines ((l' :: ls).map (relead f))) := .cons '\n' (ih hls)
      have whole := line_append line later (by simp)
      have more : (l' :: ls).map (relead f) ≠ [] := List.cons_ne_nil _ _
      rw [List.map_cons, Text.ofLines_cons (List.cons_ne_nil l' ls), Text.ofLines_cons more]
      exact whole

end Releaded

/-! ## Indentation -/

/-- Take `m` characters away from the beginning of a line; nothing is left of a line of spaces and
tabs only. -/
def dedented (m : Nat) (w : Text) (inked : Bool) : Text := if inked then w.drop m else []

/-- Put a text before every line that is not empty. -/
def indented (lead w : Text) (inked : Bool) : Text :=
  if inked || !w.isEmpty then lead ++ w else []

theorem isGapRule_dedented (m : Nat) : IsGapRule (dedented m) where
  gap w b gap := by
    cases b with
    | false => rfl
    | true =>
      exact List.all_eq_true.2 fun a ha => List.all_eq_true.1 gap a (List.mem_of_mem_drop ha)
  empty := rfl

theorem isGapRule_indented {lead : Text} (h : lead.all isSpaceOrTab = true) :
    IsGapRule (indented lead) where
  gap w b gap := by
    rw [indented]
    split
    · rw [List.all_append, h, gap]
      rfl
    · rfl
  empty := rfl

/-- The length of the margin of a text. -/
def marginLength (t : Text) : Nat := (Text.margin ((Text.lines t).map Text.leveled)).length

/-- **Taking the common indentation away** takes it away at the beginning of every line. -/
theorem releaded_dedent (t : Text) :
    Releaded (dedented (marginLength t)) true t (Text.dedent t) := by
  have same : ∀ l ∈ Text.lines t, relead (dedented (marginLength t)) l =
      (Text.leveled l).drop (marginLength t) := by
    intro l hl
    have mem := List.mem_map_of_mem (f := Text.leveled) hl
    have parts := List.takeWhile_append_dropWhile (p := isSpaceOrTab) (l := l)
    by_cases gap : l.all isSpaceOrTab = true
    · have none : l.dropWhile isSpaceOrTab = [] :=
        List.dropWhile_eq_nil_iff.2 (List.all_eq_true.1 gap)
      rw [relead, none, Text.leveled, if_pos gap, List.drop_nil]
      rfl
    · have shows : inked (l.dropWhile isSpaceOrTab) = true := by
        cases e : l.dropWhile isSpaceOrTab with
        | nil => exact absurd (List.all_eq_true.2 (List.dropWhile_eq_nil_iff.1 e)) gap
        | cons a k =>
          have newline : a ≠ '\n' := fun h => Text.not_mem_of_mem_lines hl (by
            rw [← parts, e, h]
            simp)
          simp [inked, newline]
      have within : marginLength t ≤ (l.takeWhile isSpaceOrTab).length :=
        (Text.margin_prefix mem gap).length_le
      rw [relead, shows, dedented, if_pos rfl, Text.leveled, if_neg gap]
      nth_rewrite 3 [← parts]
      exact (List.drop_append_of_le_length within).symm
  have whole := Releaded.ofLines_map (isGapRule_dedented (marginLength t)) t
  rw [List.map_congr_left same] at whole
  rw [Text.dedent_eq, List.map_map]
  exact whole

/-- **Indenting** puts a text before every line that is not empty. -/
theorem releaded_indent {lead : Text} (gap : lead.all isSpaceOrTab = true) (t : Text) :
    Releaded (indented lead) true t (t.indent lead) := by
  have newline : '\n' ∉ lead := fun mem => by
    cases List.all_eq_true.1 gap _ mem
  have same : ∀ l ∈ Text.lines t, relead (indented lead) l = Text.led lead l := by
    intro l hl
    cases l with
    | nil => rfl
    | cons a l =>
      have other : a ≠ '\n' := fun e => Text.not_mem_of_mem_lines hl (e ▸ List.mem_cons_self)
      have parts := List.takeWhile_append_dropWhile (p := isSpaceOrTab) (l := a :: l)
      have put : (inked ((a :: l).dropWhile isSpaceOrTab) ||
          !((a :: l).takeWhile isSpaceOrTab).isEmpty) = true := by
        cases here : isSpaceOrTab a <;> simp [here, inked, other]
      rw [relead, indented, if_pos put, List.append_assoc, parts]
      rfl
  have whole := Releaded.ofLines_map (isGapRule_indented gap) t
  rw [List.map_congr_left same, ← (Text.lines_indentFrom newline t).1, Text.ofLines_lines] at whole
  exact whole

/-! ### One rule behind another -/

theorem relead_relead {f f' : Text → Bool → Text} (rule : IsGapRule f') (l : Text) :
    relead f (relead f' l) = relead (fun w b => f (f' w b) b) l := by
  have gap : (l.takeWhile isSpaceOrTab).all isSpaceOrTab = true := List.all_takeWhile
  have shows : ∀ a ∈ (l.dropWhile isSpaceOrTab).head?, isSpaceOrTab a = false := fun a ha => by
    have := List.head?_dropWhile_not isSpaceOrTab l
    rw [ha] at this
    simpa using this
  exact Releaded.relead_append (rule.gap _ _ gap) shows

theorem newline_not_mem_relead {f : Text → Bool → Text} (rule : IsGapRule f) {l : Text}
    (h : '\n' ∉ l) : '\n' ∉ relead f l := by
  have gap := rule.gap _ (inked (l.dropWhile isSpaceOrTab))
    (List.all_takeWhile (p := isSpaceOrTab) (l := l))
  intro mem
  rcases List.mem_append.1 mem with mem | mem
  · cases List.all_eq_true.1 gap _ mem
  · exact h ((List.dropWhile_sublist _).subset mem)

theorem mapLater_of_lines {t l : Text} {ls : List Text} (split : Text.lines t = l :: ls)
    (g : Text → Text) : mapLater g t = Text.ofLines (l :: ls.map g) := by
  rw [mapLater, split]
  rfl

theorem lines_mapLater {f : Text → Bool → Text} (rule : IsGapRule f) {t l : Text}
    {ls : List Text} (split : Text.lines t = l :: ls) :
    Text.lines (mapLater (relead f) t) = l :: ls.map (relead f) := by
  have line : ∀ k ∈ l :: ls, '\n' ∉ k := fun k hk => Text.not_mem_of_mem_lines (split ▸ hk)
  obtain ⟨first, later⟩ := List.forall_mem_cons.1 line
  rw [mapLater_of_lines split]
  refine Text.lines_ofLines (List.forall_mem_cons.2 ⟨first, fun k hk => ?_⟩)
    (List.cons_ne_nil _ _)
  obtain ⟨k', hk', rfl⟩ := List.mem_map.1 hk
  exact newline_not_mem_relead rule (later k' hk')

theorem mapLater_mapLater {f f' : Text → Bool → Text} (rule : IsGapRule f') (t : Text) :
    mapLater (relead f) (mapLater (relead f') t) =
      mapLater (relead fun w b => f (f' w b) b) t := by
  obtain ⟨l, ls, split⟩ := List.exists_cons_of_ne_nil (Text.lines_ne_nil t)
  have same : ls.map (relead f ∘ relead f') = ls.map (relead fun w b => f (f' w b) b) :=
    List.map_congr_left fun k _ => relead_relead rule k
  rw [mapLater_of_lines (lines_mapLater rule split), mapLater_of_lines split, List.map_map, same]

/-- A text is as it was exactly if its later lines are. -/
theorem mapLater_eq_self_iff {f : Text → Bool → Text} (rule : IsGapRule f) {t : Text} :
    mapLater (relead f) t = t ↔ ∀ l ∈ (Text.lines t).drop 1, relead f l = l := by
  obtain ⟨l, ls, split⟩ := List.exists_cons_of_ne_nil (Text.lines_ne_nil t)
  have new := lines_mapLater rule split
  have kept : (∀ k ∈ ls, relead f k = k) ↔ ls.map (relead f) = ls := by
    nth_rewrite 3 [← List.map_id ls]
    exact List.map_inj_left.symm
  rw [split, List.drop_succ_cons, List.drop_zero, kept]
  constructor
  · intro same
    rw [same, split] at new
    exact (List.cons.inj new).2.symm
  · intro same
    rw [same, ← split] at new
    rw [← Text.ofLines_lines (mapLater (relead f) t), new, Text.ofLines_lines]

end Modulize.Script
