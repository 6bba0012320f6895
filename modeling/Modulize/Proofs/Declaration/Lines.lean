import Modulize.Proofs.Declaration.Headers

/-!
# Files of headers and other lines

In a file as it is usually written (`IsLine`), every line is a provide or a require with its
semicolon, or a line that does not begin like one: with the root, or with a word that declares a
variable. A root of several segments may be spelled with line breaks around its dots; there the
other lines must not break off within a spelling either (`OpensRoot`). For a root of one segment
that is no further condition (`opensRoot_iff`).

On such lines both header patterns stand alone (`IsLine.standsAlone_provide`,
`IsLine.standsAlone_require`), and what they read is what is written there
(`lineReading_require_of_isRequire`, `IsLine.exists_isRequire`).
-/

namespace Modulize.Declaration

open Pattern Qualified

/-- The line begins with the root in some spelling, or it ends within such a spelling. -/
def OpensRoot (root line : Text) : Prop :=
  ∃ path, Spells (segments root) path ∧ (path <+: line ∨ line ++ ['\n'] <+: path)

/-- A provide or a require with its semicolon and nothing else but spaces and tabs, or a line that
begins neither with the root nor with a word that declares a variable. -/
inductive IsLine (root : Text) : Text → Prop
  | provide {keyword name s b w : Text} (h : IsProvide root keyword name s)
      (hb : b.all isBlank = true) (hw : w.all isSpaceOrTab = true) :
      IsLine root (s ++ (b ++ ';' :: w))
  | require {target : Option Text} {keyword name s b w : Text}
      (h : IsRequire root target keyword name s) (hb : b.all isBlank = true)
      (hw : w.all isSpaceOrTab = true) : IsLine root (s ++ (b ++ ';' :: w))
  | other {line : Text} (hroot : ¬ OpensRoot root line)
      (hwords : ∀ word ∈ declarationWords, ¬ word <+: line) : IsLine root line

theorem opensRoot_iff {root line : Text} (h : IsIdentifier root) :
    OpensRoot root line ↔ root <+: line := by
  have dot : '.' ∉ root := h.not_mem (by decide)
  have newline : '\n' ∉ root := h.not_mem (by decide)
  have one : segments root = [root] := by
    rw [segments, Text.splitOn_eq_splitOn]
    exact List.splitOn_eq_singleton dot
  constructor
  · rintro ⟨path, hp, within⟩
    rw [one] at hp
    cases hp with
    | last => exact within.resolve_right fun beyond => newline (beyond.subset (by simp))
  · intro h
    exact ⟨root, by rw [one]; exact .last root, Or.inl h⟩

section

variable {root : Text}

theorem isLine_provide {keyword name : Text} (hk : keyword ∈ provideWords)
    (hname : IsDottedName name) : IsLine root (callLine root keyword name) :=
  .provide (b := []) (w := []) ⟨hk, isCall_usual root keyword hname⟩ rfl rfl

theorem isLine_require {keyword name : Text} (hk : keyword ∈ requireWords)
    (hname : IsDottedName name) : IsLine root (callLine root keyword name) :=
  have plain : IsRequire root none keyword name _ :=
    ⟨[], _, rfl, hk, isCall_usual root keyword hname, rfl⟩
  .require (b := []) (w := []) plain rfl rfl

theorem isLine_alias {bound keyword name : Text} (hbound : IsIdentifier bound)
    (hk : keyword ∈ requireWords) (hname : IsDottedName name) :
    IsLine root ("const" ++ ([' '] ++ (bound ++ " = ")) ++ callLine root keyword name) := by
  have binder : IsBinder bound ("const" ++ ([' '] ++ (bound ++ " = "))) :=
    ⟨Or.inr hbound, "const", [' '], [' '], [' '], by decide, by decide, by decide, by decide,
      by decide, rfl⟩
  have require : IsRequire root (some bound) keyword name _ :=
    ⟨_, _, binder, hk, isCall_usual root keyword hname, rfl⟩
  have line := IsLine.require (b := []) (w := []) require rfl rfl
  simpa [callLine] using line

/-- The empty line does not begin like a header. -/
theorem not_opensRoot_nil (hroot : IsNamespace root) : ¬ OpensRoot root [] := by
  have newline : isIdent '\n' = false := by decide
  rintro ⟨path, hp, within⟩
  obtain ⟨a, r, rfl, ha⟩ := hp.exists_cons (segments_ne_nil root) hroot
  rcases within with within | beyond
  · simp at within
  · obtain ⟨z, hz⟩ := beyond
    obtain ⟨rfl, -⟩ := List.cons.inj hz
    simp [newline] at ha

theorem isLine_nil (hroot : IsNamespace root) : IsLine root [] :=
  .other (not_opensRoot_nil hroot) (by decide)

/-! ## The header patterns on a line -/

theorem anchored_provideHeader : (provideHeader root).Anchored := by
  intro c h
  obtain ⟨d, hd⟩ := List.exists_mem_of_ne_nil _ h
  simp only [provideHeader, mem_ends_seq, mem_ends_lineStart] at hd
  obtain ⟨_, ⟨_, ⟨_, ⟨_, ⟨start, rfl⟩, _⟩, _⟩, _⟩, _⟩ := hd
  exact start

theorem anchored_requireHeader : (requireHeader root).Anchored := by
  intro c h
  obtain ⟨d, hd⟩ := List.exists_mem_of_ne_nil _ h
  simp only [requireHeader, mem_ends_seq, mem_ends_lineStart] at hd
  obtain ⟨_, ⟨_, ⟨_, ⟨_, ⟨_, ⟨start, rfl⟩, _⟩, _⟩, _⟩, _⟩, _⟩ := hd
  exact start

theorem IsCall.ne_nil {keyword name s : Text} (h : IsCall root keyword name s) : s ≠ [] := by
  obtain ⟨first, gap, rest, -, hg, rfl⟩ := h.exists_head
  simp [hg.ne_nil]

/-- **Every reading of a provide header is a provide** with its tail. -/
theorem exists_isProvide {c d : Cursor} (hd : d ∈ (provideHeader root).ends c) :
    ∃ keyword name s tail, IsProvide root keyword name s ∧ IsTail tail ∧ c.Reads (s ++ tail) d ∧
      d.noted = provideNotes keyword name ++ c.noted := by
  have start := anchored_provideHeader c (List.ne_nil_of_mem hd)
  rw [ends_provideHeader start] at hd
  obtain ⟨s, _, ⟨s, tail, ⟨keyword, name, h, rfl⟩, htail, rfl⟩, reads, noted⟩ :=
    ((records_provideFront root).seq_describes describes_statementTail).sound c d hd
  exact ⟨keyword, name, s, tail, h, htail, reads, noted⟩

/-- **Every reading of a require header is a require** with its tail. -/
theorem exists_isRequire {c d : Cursor} (hd : d ∈ (requireHeader root).ends c) :
    ∃ target keyword name s tail, IsRequire root target keyword name s ∧ IsTail tail ∧
      c.Reads (s ++ tail) d ∧ d.noted = requireNotes target keyword name ++ c.noted := by
  have start := anchored_requireHeader c (List.ne_nil_of_mem hd)
  rw [ends_requireHeader start] at hd
  obtain ⟨s, _, ⟨s, tail, ⟨target, keyword, name, h, rfl⟩, htail, rfl⟩, reads, noted⟩ :=
    ((records_requireFront root).seq_describes describes_statementTail).sound c d hd
  exact ⟨target, keyword, name, s, tail, h, htail, reads, noted⟩

theorem IsRequire.ne_nil {target : Option Text} {keyword name s : Text}
    (h : IsRequire root target keyword name s) : s ≠ [] := by
  obtain ⟨opening, call, -, -, h, rfl⟩ := h
  simp [h.ne_nil]

theorem consumes_provideHeader : (provideHeader root).Consumes := by
  intro c d hd
  obtain ⟨keyword, name, s, tail, h, -, reads, -⟩ := exists_isProvide hd
  have := List.length_pos_iff.2 h.2.ne_nil
  rw [reads.offset, List.length_append]
  omega

theorem consumes_requireHeader : (requireHeader root).Consumes := by
  intro c d hd
  obtain ⟨target, keyword, name, s, tail, h, -, reads, -⟩ := exists_isRequire hd
  have := List.length_pos_iff.2 h.ne_nil
  rw [reads.offset, List.length_append]
  omega

/-! ## Readings of lines -/

theorem reading_of_head? {r : Pattern} {c d : Cursor} {s : Text} {notes : List (Nat × Text)}
    (groups : c.groups = []) (hd : (r.ends c).head? = some d) (reads : c.Reads s d)
    (noted : d.noted = notes ++ c.noted) :
    (r.matchAt? c).map Match.reading = some ⟨s, notes⟩ := by
  have none : c.noted = [] := by rw [Cursor.noted, groups, List.map_nil]
  rw [matchAt?_eq_head?, hd]
  simp [Match.reading, Match.text, reads.textTo, noted, none]

theorem reading_eq_none {r : Pattern} {c : Cursor} (h : ∀ d, d ∉ r.ends c) :
    (r.matchAt? c).map Match.reading = none := by
  rw [matchAt?_eq_head?, List.eq_nil_iff_forall_not_mem.2 h]
  rfl

section

variable {target : Option Text} {keyword name s b w : Text}

theorem statement_prefix (s b w : Text) : s ++ (b ++ [';']) <+: s ++ (b ++ ';' :: w) :=
  ⟨w, by simp⟩

/-- A provide with its semicolon is read as such, whatever follows its line. -/
theorem standsAlone_of_isProvide (hroot : IsNamespace root) (h : IsProvide root keyword name s)
    (hb : b.all isBlank = true) :
    (provideHeader root).StandsAlone (s ++ (b ++ ';' :: w)) ∧
      (provideHeader root).lineReading (s ++ (b ++ ';' :: w)) =
        some ⟨s ++ (b ++ [';']), provideNotes keyword name⟩ := by
  refine standsAlone_of_forall (fun c rest start groups hc stop => ?_) ?_
  · have hc' : c.rest = s ++ (b ++ ';' :: (w ++ rest)) := by simpa using hc
    obtain ⟨d, hd, reads, noted⟩ := head?_ends_provide hroot h hb start hc'
    exact reading_of_head? groups hd reads noted
  · rintro x ⟨⟩
    exact statement_prefix s b w

/-- A require with its semicolon is read as such, whatever follows its line. -/
theorem standsAlone_of_isRequire (hroot : IsNamespace root)
    (h : IsRequire root target keyword name s) (hb : b.all isBlank = true) :
    (requireHeader root).StandsAlone (s ++ (b ++ ';' :: w)) ∧
      (requireHeader root).lineReading (s ++ (b ++ ';' :: w)) =
        some ⟨s ++ (b ++ [';']), requireNotes target keyword name⟩ := by
  refine standsAlone_of_forall (fun c rest start groups hc stop => ?_) ?_
  · have hc' : c.rest = s ++ (b ++ ';' :: (w ++ rest)) := by simpa using hc
    obtain ⟨d, hd, reads, noted⟩ := head?_ends_require hroot h hb start hc'
    exact reading_of_head? groups hd reads noted
  · rintro x ⟨⟩
    exact statement_prefix s b w

/-- A provide is not read as a require. -/
theorem not_require_of_isProvide (hroot : IsNamespace root) (h : IsProvide root keyword name s)
    (u : Text) :
    (requireHeader root).StandsAlone (s ++ u) ∧
      (requireHeader root).lineReading (s ++ u) = none := by
  refine standsAlone_of_forall (fun c rest start groups hc stop => ?_) (by simp)
  refine reading_eq_none fun d hd => ?_
  obtain ⟨target', keyword', name', s', tail, h', -, reads, -⟩ := exists_isRequire hd
  have same := hc.symm.trans reads.rest
  rw [List.append_assoc, List.append_assoc] at same
  exact h.not_isRequire hroot h' same

/-- A require is not read as a provide. -/
theorem not_provide_of_isRequire (hroot : IsNamespace root)
    (h : IsRequire root target keyword name s) (u : Text) :
    (provideHeader root).StandsAlone (s ++ u) ∧
      (provideHeader root).lineReading (s ++ u) = none := by
  refine standsAlone_of_forall (fun c rest start groups hc stop => ?_) (by simp)
  refine reading_eq_none fun d hd => ?_
  obtain ⟨keyword', name', s', tail, h', -, reads, -⟩ := exists_isProvide hd
  have same := reads.rest.symm.trans hc
  rw [List.append_assoc, List.append_assoc] at same
  exact h'.not_isRequire hroot h same

end

/-- A line on which a call stands opens with the root. -/
theorem IsCall.opensRoot {keyword name s t line rest : Text} (h : IsCall root keyword name s)
    (e : line ++ rest = s ++ t) (stop : AtBreak rest) : OpensRoot root line := by
  obtain ⟨path, gap, argument, hp, -, -, rfl⟩ := h
  have front : path <+: line ++ rest := ⟨gap ++ (keyword ++ argument) ++ t, by simp [e]⟩
  exact ⟨path, hp, prefix_or_of_prefix_append front stop⟩

/-- A line on which a declaration stands begins with a word that declares a variable. -/
theorem IsBinder.exists_word {target s t line rest : Text} (h : IsBinder target s)
    (e : line ++ rest = s ++ t) (stop : AtBreak rest) :
    ∃ word ∈ declarationWords, word <+: line := by
  obtain ⟨-, word, b₁, b₂, b₃, hw, -, -, -, -, rfl⟩ := h
  have newline : ∀ word ∈ declarationWords, '\n' ∉ word := by decide
  have front : word <+: line ++ rest := ⟨b₁ ++ (target ++ (b₂ ++ '=' :: b₃)) ++ t, by simp [e]⟩
  refine ⟨word, hw, (prefix_or_of_prefix_append front stop).resolve_right fun beyond => ?_⟩
  exact newline word hw (beyond.subset (by simp))

section

variable {line : Text}

theorem not_provide_of_other (hline : ¬ OpensRoot root line) :
    (provideHeader root).StandsAlone line ∧ (provideHeader root).lineReading line = none := by
  refine standsAlone_of_forall (fun c rest start groups hc stop => ?_) (by simp)
  refine reading_eq_none fun d hd => ?_
  obtain ⟨keyword, name, s, tail, h, -, reads, -⟩ := exists_isProvide hd
  have same := hc.symm.trans reads.rest
  rw [List.append_assoc] at same
  exact hline (h.2.opensRoot same stop)

theorem not_require_of_other (hline : ¬ OpensRoot root line)
    (hwords : ∀ word ∈ declarationWords, ¬ word <+: line) :
    (requireHeader root).StandsAlone line ∧ (requireHeader root).lineReading line = none := by
  refine standsAlone_of_forall (fun c rest start groups hc stop => ?_) (by simp)
  refine reading_eq_none fun d hd => ?_
  obtain ⟨target, keyword, name, s, tail, ⟨opening, call, ho, -, h, rfl⟩, -, reads, -⟩ :=
    exists_isRequire hd
  have same := hc.symm.trans reads.rest
  simp only [List.append_assoc] at same
  cases target with
  | none =>
    obtain rfl : opening = [] := ho
    exact hline (h.opensRoot same stop)
  | some target =>
    obtain ⟨word, hw, front⟩ := IsBinder.exists_word ho same stop
    exact hwords word hw front

namespace IsLine

theorem standsAlone_provide (hroot : IsNamespace root) (h : IsLine root line) :
    (provideHeader root).StandsAlone line := by
  cases h with
  | provide h hb hw => exact (standsAlone_of_isProvide hroot h hb).1
  | require h hb hw => exact (not_provide_of_isRequire hroot h _).1
  | other hline hwords => exact (not_provide_of_other hline).1

theorem standsAlone_require (hroot : IsNamespace root) (h : IsLine root line) :
    (requireHeader root).StandsAlone line := by
  cases h with
  | provide h hb hw => exact (not_require_of_isProvide hroot h _).1
  | require h hb hw => exact (standsAlone_of_isRequire hroot h hb).1
  | other hline hwords => exact (not_require_of_other hline hwords).1

/-- A line that is read as a require is one, with nothing behind it but spaces and tabs. -/
theorem exists_isRequire (hroot : IsNamespace root) (h : IsLine root line) {x : Reading}
    (hx : (requireHeader root).lineReading line = some x) :
    ∃ target keyword name s b w, IsRequire root target keyword name s ∧ b.all isBlank = true ∧
      w.all isSpaceOrTab = true ∧ line = s ++ (b ++ ';' :: w) ∧
      x = ⟨s ++ (b ++ [';']), requireNotes target keyword name⟩ := by
  cases h with
  | provide h hb hw => simp [(not_require_of_isProvide hroot h _).2] at hx
  | @require target keyword name s b w h hb hw =>
    rw [(standsAlone_of_isRequire hroot h hb).2] at hx
    exact ⟨target, keyword, name, s, b, w, h, hb, hw, rfl, (Option.some.inj hx).symm⟩
  | other hline hwords => simp [(not_require_of_other hline hwords).2] at hx

theorem lineReading_provide_eq_none (hroot : IsNamespace root) (h : IsLine root line) {x : Reading}
    (hx : (requireHeader root).lineReading line = some x) :
    (provideHeader root).lineReading line = none := by
  obtain ⟨target, keyword, name, s, b, w, hs, -, -, rfl, -⟩ := h.exists_isRequire hroot hx
  exact (not_provide_of_isRequire hroot hs _).2

/-- The words of a require tell what it requires. -/
theorem reading_unique (hroot : IsNamespace root) (h : IsLine root line) {line' : Text}
    (h' : IsLine root line') {x x' : Reading}
    (hx : (requireHeader root).lineReading line = some x)
    (hx' : (requireHeader root).lineReading line' = some x') (same : x.text = x'.text) :
    x = x' := by
  obtain ⟨target, keyword, name, s, b, w, hs, -, -, -, rfl⟩ := h.exists_isRequire hroot hx
  obtain ⟨target', keyword', name', s', b', w', hs', -, -, -, rfl⟩ := h'.exists_isRequire hroot hx'
  obtain ⟨rfl, rfl, rfl, rfl⟩ := hs.unique hroot hs' same
  rw [Reading.mk.injEq]
  exact ⟨same, rfl⟩

end IsLine

end

end

end Modulize.Declaration
