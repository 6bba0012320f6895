import Modulize.Proofs.Pattern.Records
import Modulize.Text.Indent

/-!
# Patterns that are read line by line

A text is the list of its lines (`Text.lines`, `Text.ofLines`), and texts joined with an empty line
between them have the lines of the texts with empty lines between them (`Text.lines_joinWith`).

A pattern that can be read at the beginnings of lines only (`Anchored`) has one match at most in
each line that stands alone (`StandsAlone`): a line on which its preferred reading does not depend
on what follows the line. The matches in a text of such lines are the readings of its lines, each at
its offset (`map_found_allMatches`).
-/

namespace Modulize

namespace Text

theorem splitOn_eq_splitOn (mark : Char) (t : Text) : splitOn mark t = List.splitOn mark t := by
  induction t with
  | nil => rfl
  | cons a t ih =>
    rw [List.splitOn_cons_eq_if_modifyHead, ← ih, splitOn]
    cases e : splitOn mark t with
    | nil => exact absurd (ih.symm.trans e) (List.splitOn_ne_nil mark t)
    | cons piece pieces => simp [beq_iff_eq]

theorem joinWith_eq_intercalate (glue : Text) (pieces : List Text) :
    joinWith glue pieces = glue.intercalate pieces := by
  fun_induction joinWith glue pieces with
  | case1 => rfl
  | case2 => simp
  | case3 piece pieces hne ih =>
    obtain ⟨piece', pieces, rfl⟩ := List.exists_cons_of_ne_nil hne
    rw [ih]
    simp

/-- The text of some lines. -/
def ofLines (ls : List Text) : Text := joinWith ['\n'] ls

@[simp] theorem ofLines_nil : ofLines [] = [] := rfl

@[simp] theorem ofLines_singleton (l : Text) : ofLines [l] = l := rfl

@[simp] theorem ofLines_cons_cons (l l' : Text) (ls : List Text) :
    ofLines (l :: l' :: ls) = l ++ '\n' :: ofLines (l' :: ls) := by
  simp [ofLines, joinWith]

theorem lines_ne_nil (t : Text) : lines t ≠ [] := by
  rw [lines, splitOn_eq_splitOn]
  simp

theorem lines_ofLines {ls : List Text} (h : ∀ l ∈ ls, '\n' ∉ l) (hne : ls ≠ []) :
    lines (ofLines ls) = ls := by
  rw [lines, ofLines, splitOn_eq_splitOn, joinWith_eq_intercalate]
  exact List.splitOn_intercalate '\n' h hne

theorem ofLines_lines (t : Text) : ofLines (lines t) = t := by
  rw [lines, ofLines, splitOn_eq_splitOn, joinWith_eq_intercalate]
  exact List.intercalate_splitOn '\n'

theorem lines_append (a b : Text) : lines (a ++ '\n' :: b) = lines a ++ lines b := by
  simp only [lines, splitOn_eq_splitOn]
  exact List.splitOn_append_cons_self a b

theorem not_mem_of_mem_lines {t l : Text} (h : l ∈ lines t) : '\n' ∉ l := by
  induction t generalizing l with
  | nil =>
    obtain rfl := List.mem_singleton.1 h
    simp
  | cons a t ih =>
    obtain ⟨first, others, e⟩ := List.exists_cons_of_ne_nil (lines_ne_nil t)
    have mem_first : '\n' ∉ first := ih (e ▸ List.mem_cons_self)
    have mem_others : ∀ l ∈ others, '\n' ∉ l := fun l hl => ih (e ▸ List.mem_cons_of_mem _ hl)
    have step : lines (a :: t) =
        if a = '\n' then [] :: first :: others else (a :: first) :: others := by
      simp only [lines] at e
      simp only [lines, splitOn, e]
    rw [step] at h
    split at h
    · rcases List.mem_cons.1 h with rfl | h
      · simp
      · rcases List.mem_cons.1 h with rfl | h
        · exact mem_first
        · exact mem_others l h
    · rename_i ha
      rcases List.mem_cons.1 h with rfl | h
      · simp [mem_first, Ne.symm ha]
      · exact mem_others l h

theorem ofLines_cons {ls : List Text} (h : ls ≠ []) (l : Text) :
    ofLines (l :: ls) = l ++ '\n' :: ofLines ls := by
  obtain ⟨l', ls, rfl⟩ := List.exists_cons_of_ne_nil h
  rw [ofLines_cons_cons]

theorem ofLines_append {ls ls' : List Text} (h : ls ≠ []) (h' : ls' ≠ []) :
    ofLines (ls ++ ls') = ofLines ls ++ '\n' :: ofLines ls' := by
  induction ls with
  | nil => exact absurd rfl h
  | cons l ls ih =>
    cases ls with
    | nil => rw [List.singleton_append, ofLines_cons h', ofLines_singleton]
    | cons l₂ ls =>
      have cut : ofLines (l :: l₂ :: ls) = l ++ '\n' :: ofLines (l₂ :: ls) := ofLines_cons_cons ..
      rw [List.cons_append, ofLines_cons (by simp), ih (by simp), cut, List.append_assoc]
      rfl

theorem lines_eq_singleton {l : Text} (h : '\n' ∉ l) : lines l = [l] := by
  simpa using lines_ofLines (by simpa using h) (List.cons_ne_nil l [])

/-- A line is a piece of the text. -/
theorem infix_of_mem_lines {t l : Text} (h : l ∈ lines t) : l <:+: t := by
  obtain ⟨ls, ls', around⟩ := List.append_of_mem h
  have behind : l <:+: ofLines (l :: ls') := by
    cases ls' with
    | nil => exact List.infix_rfl
    | cons l' ls' => exact ofLines_cons_cons l l' ls' ▸ List.infix_append_left
  rw [← ofLines_lines t, around]
  cases ls with
  | nil => exact behind
  | cons l₁ ls =>
    rw [ofLines_append (List.cons_ne_nil l₁ ls) (List.cons_ne_nil l ls')]
    exact behind.trans ((List.suffix_cons _ _).isInfix.trans List.infix_append_right)

/-- Texts joined with an empty line between them. -/
theorem lines_joinWith {texts : List Text} (h : texts ≠ []) :
    lines (joinWith "\n\n" texts) = [([] : Text)].intercalate (texts.map lines) := by
  induction texts with
  | nil => exact absurd rfl h
  | cons t texts ih =>
    cases texts with
    | nil => simp [joinWith]
    | cons t' texts =>
      have glued : joinWith "\n\n" (t :: t' :: texts) =
          t ++ '\n' :: ([] ++ '\n' :: joinWith "\n\n" (t' :: texts)) := by
        simp [joinWith]
      have empty : lines [] = [[]] := rfl
      rw [glued, lines_append, lines_append, ih (by simp), empty]
      simp

end Text

namespace Pattern

/-- What a match has read: its text, and the texts that the groups remember, the latest first. -/
structure Reading where
  text : Text
  notes : List (Nat × Text)
  deriving DecidableEq, Repr

namespace Reading

/-- The text that group `i` has read, unless it took no part. -/
def group? (x : Reading) (i : Nat) : Option Text := lookup? i x.notes

/-- The text that group `i` has read, empty when it took no part. -/
def groupText (x : Reading) (i : Nat) : Text := (x.group? i).getD []

end Reading

/-- What a match has read. -/
def Match.reading (m : Match) : Reading := ⟨m.text, m.stop.noted⟩

/-- Where a match begins, and what it has read. -/
def Match.found (m : Match) : Nat × Reading := (m.start.offset, m.reading)

theorem Match.group?_reading (m : Match) (i : Nat) :
    m.reading.group? i = (m.group? i).map Capture.text := Cursor.lookup?_noted i m.stop.groups

theorem Match.groupText_reading (m : Match) (i : Nat) :
    m.reading.groupText i = m.groupText i := by
  rw [Reading.groupText, group?_reading, groupText]

/-- A match ends where its text does. -/
theorem stop_offset_of_mem_allMatches {r : Pattern} {t : Text} {m : Match}
    (h : m ∈ r.allMatches t) : m.stop.offset = m.start.offset + m.text.length := by
  obtain ⟨-, -, hm⟩ := mem_allMatches h
  obtain ⟨piece, reads⟩ := reads_of_mem_ends hm
  rw [Match.text, reads.textTo, reads.offset]

/-- What the pattern reads at the beginning of a text. -/
def lineReading (r : Pattern) (line : Text) : Option Reading :=
  (r.matchAt? (Cursor.start line)).map Match.reading

/-! ## Lines that stand alone -/

/-- The text is empty or begins with a line break: so do what precedes the beginning of a line (the
last character first) and what follows its end. -/
def AtBreak (t : Text) : Prop := ∀ a ∈ t.head?, a = '\n'

instance : (t : Text) → Decidable (AtBreak t)
  | [] => isTrue fun _ h => nomatch h
  | a :: _ => decidable_of_iff (a = '\n')
      ⟨fun h _ hb => Option.some.inj hb ▸ h, fun h => h a rfl⟩

theorem atBreak_nil : AtBreak [] := by simp [AtBreak]

theorem atBreak_newline (t : Text) : AtBreak ('\n' :: t) := by simp [AtBreak]

theorem AtBreak.of_append {x y : Text} (hxy : AtBreak (x ++ y)) : AtBreak x := by
  cases x with
  | nil => exact atBreak_nil
  | cons a x => exact hxy

theorem atBreak_reverse_append {x y : Text} (hne : y ≠ []) (hy : AtBreak y.reverse) :
    AtBreak (x ++ y).reverse := by
  obtain ⟨a, r, e⟩ := List.exists_cons_of_ne_nil (l := y.reverse) (by simpa using hne)
  rw [List.reverse_append, e]
  rw [e] at hy
  exact hy

/-- Texts that end with a line break. -/
theorem atBreak_reverse_iff {x : Text} : AtBreak x.reverse ↔ x = [] ∨ ∃ w, x = w ++ ['\n'] := by
  constructor
  · intro h
    cases e : x.reverse with
    | nil => exact Or.inl (by simpa using e)
    | cons a r =>
      rw [e] at h
      obtain rfl := h a rfl
      exact Or.inr ⟨r.reverse, by simpa using congrArg List.reverse e⟩
  · rintro (rfl | ⟨w, rfl⟩)
    · exact atBreak_nil
    · simp [AtBreak]

theorem not_atBreak_append {x t : Text} (hx : '\n' ∉ x) (hne : x ≠ []) : ¬ AtBreak (x ++ t) := by
  obtain ⟨a, x, rfl⟩ := List.exists_cons_of_ne_nil hne
  intro h
  exact hx (h a rfl ▸ List.mem_cons_self)

theorem mem_ends_lineStart {c d : Cursor} : d ∈ lineStart.ends c ↔ AtBreak c.past ∧ d = c := by
  rw [lineStart, mem_ends_place, Cursor.before, AtBreak]
  cases c.past <;> simp

theorem ends_lineStart {c : Cursor} (h : AtBreak c.past) : lineStart.ends c = [c] := by
  obtain ⟨past, offset, rest, groups⟩ := c
  cases past with
  | nil => rfl
  | cons a past =>
    obtain rfl := h a rfl
    rfl

/-- The pattern can be read at the beginnings of lines only. -/
def Anchored (r : Pattern) : Prop := ∀ c, r.ends c ≠ [] → AtBreak c.past

/-- What the pattern reads at the beginning of the line does not depend on what follows the line,
and lies within the line. -/
structure StandsAlone (r : Pattern) (line : Text) : Prop where
  same : ∀ c rest, AtBreak c.past → c.groups = [] → c.rest = line ++ rest → AtBreak rest →
    (r.matchAt? c).map Match.reading = r.lineReading line
  within : ∀ x, r.lineReading line = some x → x.text <+: line

/-- A line stands alone if the same is read at its beginning whatever follows it. -/
theorem standsAlone_of_forall {r : Pattern} {line : Text} {o : Option Reading}
    (h : ∀ c rest, AtBreak c.past → c.groups = [] → c.rest = line ++ rest → AtBreak rest →
      (r.matchAt? c).map Match.reading = o)
    (within : ∀ x, o = some x → x.text <+: line) :
    r.StandsAlone line ∧ r.lineReading line = o := by
  have reading : r.lineReading line = o :=
    h (Cursor.start line) [] atBreak_nil rfl (List.append_nil line).symm atBreak_nil
  refine ⟨⟨fun c rest start groups hc stop => ?_, fun x hx => within x (reading.symm.trans hx)⟩,
    reading⟩
  rw [reading]
  exact h c rest start groups hc stop

/-- A beginning of a line and what follows it lies within the line or goes beyond its end. -/
theorem prefix_or_of_prefix_append {x line rest : Text} (h : x <+: line ++ rest)
    (stop : AtBreak rest) : x <+: line ∨ line ++ ['\n'] <+: x := by
  rcases List.prefix_or_prefix_of_prefix h (List.prefix_append line rest) with h' | ⟨y, rfl⟩
  · exact Or.inl h'
  · cases y with
    | nil => exact Or.inl (by simp)
    | cons a y =>
      obtain ⟨z, hz⟩ := (List.prefix_append_right_inj line).1 h
      obtain rfl : a = '\n' := stop a (by rw [← hz]; rfl)
      exact Or.inr ⟨y, by simp⟩

/-- The readings of some lines, each with its offset, when the first one has offset `offset`. -/
def foundFrom (read : Text → Option Reading) (offset : Nat) : List Text → List (Nat × Reading)
  | [] => []
  | l :: ls => (read l).toList.map (offset, ·) ++ foundFrom read (offset + (l.length + 1)) ls

section Lines

variable {r : Pattern} {past rest line : Text} (offset : Nat)

theorem Anchored.ends_eq_nil (anchored : r.Anchored) {c : Cursor} (inside : ¬ AtBreak c.past) :
    r.ends c = [] := by
  cases h : r.ends c with
  | nil => rfl
  | cons d ds => exact absurd (anchored c (by simp [h])) inside

theorem StandsAlone.ends_eq_nil (alone : r.StandsAlone line) (none : r.lineReading line = none)
    (start : AtBreak past) (stop : AtBreak rest) :
    r.ends ⟨past, offset, line ++ rest, []⟩ = [] := by
  have same := alone.same ⟨past, offset, line ++ rest, []⟩ rest start rfl rfl stop
  rw [none, matchAt?_eq_head?] at same
  simpa using same

/-- Where a line that stands alone is read. -/
theorem StandsAlone.exists_ends (alone : r.StandsAlone line) {x : Reading}
    (some : r.lineReading line = some x) (start : AtBreak past) (stop : AtBreak rest) :
    ∃ w d ds, line = x.text ++ w ∧ r.ends ⟨past, offset, line ++ rest, []⟩ = d :: ds ∧
      Cursor.Reads ⟨past, offset, line ++ rest, []⟩ x.text d ∧
      (Match.mk ⟨past, offset, line ++ rest, []⟩ d).reading = x := by
  obtain ⟨w, hw⟩ := alone.within x some
  have same := alone.same ⟨past, offset, line ++ rest, []⟩ rest start rfl rfl stop
  rw [some, matchAt?_eq_head?, Option.map_map] at same
  cases hd : r.ends ⟨past, offset, line ++ rest, []⟩ with
  | nil => simp [hd] at same
  | cons d ds =>
    rw [hd] at same
    have reading : (Match.mk ⟨past, offset, line ++ rest, []⟩ d).reading = x := by
      simpa using same
    obtain ⟨piece, reads⟩ := reads_of_mem_ends (hd ▸ List.mem_cons_self : d ∈ r.ends _)
    obtain rfl : piece = x.text := reads.textTo.symm.trans (congrArg Reading.text reading)
    exact ⟨w, d, ds, hw.symm, rfl, reads, reading⟩

theorem StandsAlone.text_ne_nil (alone : r.StandsAlone line) (consumes : r.Consumes) {x : Reading}
    (some : r.lineReading line = some x) : x.text ≠ [] := by
  obtain ⟨w, d, ds, -, hd, reads, -⟩ :=
    alone.exists_ends 0 some atBreak_nil atBreak_nil
  intro empty
  have longer := consumes _ d (hd ▸ List.mem_cons_self)
  have offset := reads.offset
  simp only [empty, List.length_nil] at offset longer
  omega

/-- Within a line nothing is read. -/
theorem matchesFrom_inside (anchored : r.Anchored) {x : Text} (hx : '\n' ∉ x)
    (inside : ¬ AtBreak past) :
    r.matchesFrom 0 past offset (x ++ rest) =
      r.matchesFrom 0 (x.reverse ++ past) (offset + x.length) rest := by
  induction x generalizing past offset with
  | nil => rfl
  | cons a x ih =>
    obtain ⟨ha, hx⟩ := not_or.1 (mt List.mem_cons.2 hx)
    have inside' : ¬ AtBreak (a :: past) := fun h => ha (h a rfl).symm
    rw [List.cons_append, matchesFrom_of_none (anchored.ends_eq_nil inside), ih _ hx inside']
    simp [Nat.add_assoc, Nat.add_comm 1]

/-- The matches from the beginning of a line on: the reading of the line, and the matches behind
the line. -/
theorem map_found_matchesFrom_append (anchored : r.Anchored) (consumes : r.Consumes)
    (alone : r.StandsAlone line) (hline : '\n' ∉ line) (start : AtBreak past)
    (stop : AtBreak rest) :
    (r.matchesFrom 0 past offset (line ++ rest)).map Match.found =
      (r.lineReading line).toList.map (offset, ·) ++
        (r.matchesFrom 0 (line.reverse ++ past) (offset + line.length) rest).map Match.found := by
  cases hx : r.lineReading line with
  | none =>
    cases line with
    | nil => rfl
    | cons a line =>
      obtain ⟨ha, hline⟩ := not_or.1 (mt List.mem_cons.2 hline)
      have inside : ¬ AtBreak (a :: past) := fun h => ha (h a rfl).symm
      have nothing := alone.ends_eq_nil offset hx start stop
      rw [List.cons_append] at nothing
      rw [List.cons_append, matchesFrom_of_none nothing, matchesFrom_inside _ anchored hline inside]
      simp [Nat.add_assoc, Nat.add_comm 1]
  | some x =>
    have nonempty := alone.text_ne_nil consumes hx
    obtain ⟨w, d, ds, e, hd, reads, reading⟩ := alone.exists_ends offset hx start stop
    rw [e, List.append_assoc] at hd reads reading
    obtain ⟨hs, hw⟩ := not_or.1 (mt List.mem_append.2 (e ▸ hline))
    have inside : ¬ AtBreak (x.text.reverse ++ past) :=
      not_atBreak_append (by simpa using hs) (by simpa using nonempty)
    rw [e, List.append_assoc, matchesFrom_of_match consumes hd reads,
      matchesFrom_inside _ anchored hw inside]
    simp [Match.found, reading, Nat.add_assoc]

/-- **The matches in a text of lines that stand alone** are the readings of the lines. -/
theorem map_found_matchesFrom (anchored : r.Anchored) (consumes : r.Consumes) {ls : List Text}
    (alone : ∀ l ∈ ls, r.StandsAlone l) (hls : ∀ l ∈ ls, '\n' ∉ l) (start : AtBreak past) :
    (r.matchesFrom 0 past offset (Text.ofLines ls)).map Match.found =
      foundFrom r.lineReading offset ls := by
  fun_induction foundFrom r.lineReading offset ls generalizing past with
  | case1 => rw [Text.ofLines_nil, matchesFrom_nil consumes, List.map_nil]
  | case2 offset l ls ih =>
    have aloneFirst := alone l List.mem_cons_self
    have first := hls l List.mem_cons_self
    cases ls with
    | nil =>
      have h := map_found_matchesFrom_append offset anchored consumes aloneFirst first start
        atBreak_nil
      rw [List.append_nil, matchesFrom_nil consumes] at h
      exact h
    | cons l' ls =>
      have h := map_found_matchesFrom_append offset anchored consumes aloneFirst first start
        (atBreak_newline (Text.ofLines (l' :: ls)))
      have nothing : r.ends ⟨l.reverse ++ past, offset + l.length,
          '\n' :: Text.ofLines (l' :: ls), []⟩ = [] := by
        by_cases empty : l = []
        · subst empty
          have none : r.lineReading [] = none := by
            cases hx : r.lineReading [] with
            | none => rfl
            | some x =>
              have nonempty := aloneFirst.text_ne_nil consumes hx
              exact absurd (List.prefix_nil.1 (aloneFirst.within x hx)) nonempty
          exact aloneFirst.ends_eq_nil _ none start (atBreak_newline _)
        · refine anchored.ends_eq_nil ?_
          exact not_atBreak_append (by simpa using first) (by simpa using empty)
      rw [Text.ofLines_cons_cons, h, matchesFrom_of_none nothing, Nat.add_assoc]
      rw [ih (fun l hl => alone l (List.mem_cons_of_mem _ hl))
        (fun l hl => hls l (List.mem_cons_of_mem _ hl)) (atBreak_newline _)]

theorem map_found_allMatches (anchored : r.Anchored) (consumes : r.Consumes) {t : Text}
    (alone : ∀ l ∈ t.lines, r.StandsAlone l) :
    (r.allMatches t).map Match.found = foundFrom r.lineReading 0 t.lines := by
  have h := map_found_matchesFrom 0 anchored consumes alone
    (fun l => Text.not_mem_of_mem_lines) atBreak_nil
  rwa [Text.ofLines_lines] at h

end Lines

theorem map_snd_foundFrom (read : Text → Option Reading) (offset : Nat) (ls : List Text) :
    (foundFrom read offset ls).map Prod.snd = ls.filterMap read := by
  fun_induction foundFrom read offset ls with
  | case1 => rfl
  | case2 offset l ls ih =>
    rw [List.map_append, ih, List.filterMap_cons]
    cases read l <;> simp

/-- What the matches in a text of lines that stand alone have read. -/
theorem map_reading_allMatches {r : Pattern} (anchored : r.Anchored) (consumes : r.Consumes)
    {t : Text} (alone : ∀ l ∈ t.lines, r.StandsAlone l) :
    (r.allMatches t).map Match.reading = t.lines.filterMap r.lineReading := by
  rw [← map_snd_foundFrom _ 0, ← map_found_allMatches anchored consumes alone, List.map_map]
  rfl

end Pattern
end Modulize
