import Modulize.Proofs.Declaration.KeptLines
import Modulize.Proofs.Declaration.Lines

/-!
# Merging files of headers and other lines
-/

namespace Modulize.Declaration

open Pattern Qualified

/-- Every line of the text is a header with its semicolon, or does not begin like one. -/
def IsLined (root t : Text) : Prop := ∀ l ∈ t.lines, IsLine root l

/-- The namespaces that some texts provide. -/
def providedBy (root : Text) (texts : List Text) : List Text :=
  texts.flatMap fun t => (bareProvides root t).map Provide.name

/-- The requires of what one of the texts provides bind no name. -/
def PlainWithin (root : Text) (texts : List Text) : Prop :=
  ∀ t ∈ texts, ∀ m ∈ (requireHeader root).allMatches t,
    m.groupText 3 ∈ providedBy root texts → m.group? 1 = none

/-- No header begins at the line. -/
def isOther (root l : Text) : Bool :=
  !(provideHeader root).fits (Cursor.start l) && !(requireHeader root).fits (Cursor.start l)

/-- The lines at which no header begins. -/
def otherLines (root t : Text) : List Text := t.lines.filter (isOther root)

/-! ## Readings of lines -/

/-- The reading of a line as a provide. -/
abbrev readsProvide (root : Text) : Text → Option Reading := (provideHeader root).lineReading

/-- The reading of a line as a require. -/
abbrev readsRequire (root : Text) : Text → Option Reading := (requireHeader root).lineReading

/-- The namespaces that some lines provide. -/
def namesProvided (root : Text) (ls : List Text) : List Text :=
  (ls.filterMap (readsProvide root)).map (Reading.groupText · 2)

theorem fits_start (r : Pattern) (l : Text) :
    r.fits (Cursor.start l) = (r.lineReading l).isSome := by
  simp [fits, lineReading]

section

variable {root : Text}

theorem map_name_bareProvides (t : Text) :
    (bareProvides root t).map Provide.name =
      (((provideHeader root).allMatches t).map Match.reading).map (Reading.groupText · 2) := by
  simp [bareProvides, Provide.bare, Match.groupText_reading]

theorem requires_eq (t : Text) :
    requires root t = (((requireHeader root).allMatches t).map Match.reading).mapM requireOf :=
  mapM_readRequire _

namespace IsLined

variable {t : Text}

theorem map_reading_provide (hroot : IsNamespace root) (h : IsLined root t) :
    ((provideHeader root).allMatches t).map Match.reading =
      t.lines.filterMap (readsProvide root) :=
  map_reading_allMatches anchored_provideHeader consumes_provideHeader fun l hl =>
    (h l hl).standsAlone_provide hroot

theorem map_found_require (hroot : IsNamespace root) (h : IsLined root t) :
    ((requireHeader root).allMatches t).map Match.found =
      foundFrom (readsRequire root) 0 t.lines :=
  map_found_allMatches anchored_requireHeader consumes_requireHeader fun l hl =>
    (h l hl).standsAlone_require hroot

theorem map_reading_require (hroot : IsNamespace root) (h : IsLined root t) :
    ((requireHeader root).allMatches t).map Match.reading =
      t.lines.filterMap (readsRequire root) :=
  map_reading_allMatches anchored_requireHeader consumes_requireHeader fun l hl =>
    (h l hl).standsAlone_require hroot

theorem map_name_bareProvides (hroot : IsNamespace root) (h : IsLined root t) :
    (bareProvides root t).map Provide.name = namesProvided root t.lines := by
  rw [Declaration.map_name_bareProvides, h.map_reading_provide hroot, namesProvided]

theorem requires_eq (hroot : IsNamespace root) (h : IsLined root t) :
    requires root t = (t.lines.filterMap (readsRequire root)).mapM requireOf := by
  rw [Declaration.requires_eq, h.map_reading_require hroot]

end IsLined

/-! ## Joined texts -/

theorem filterMap_intercalate {α β : Type} {g : α → Option β} {a : α} (ha : g a = none)
    (lists : List (List α)) :
    ([a].intercalate lists).filterMap g = lists.flatMap (List.filterMap g) := by
  induction lists with
  | nil => rfl
  | cons l lists ih =>
    cases lists with
    | nil => simp
    | cons l' lists =>
      rw [List.intercalate_cons_cons, List.filterMap_append, List.filterMap_append, ih]
      simp [ha]

theorem filterMap_lines_joinWith {β : Type} {g : Text → Option β} (hg : g [] = none)
    (texts : List Text) :
    (Text.joinWith "\n\n" texts).lines.filterMap g =
      texts.flatMap fun t => t.lines.filterMap g := by
  by_cases h : texts = []
  · subst h
    simp [Text.joinWith, Text.lines, Text.splitOn, hg]
  · rw [Text.lines_joinWith h, filterMap_intercalate hg, List.flatMap_map]

theorem mem_lines_joinWith {texts : List Text} {l : Text}
    (h : l ∈ (Text.joinWith "\n\n" texts).lines) : l = [] ∨ ∃ t ∈ texts, l ∈ t.lines := by
  by_cases empty : l = []
  · exact Or.inl empty
  · have mem : l ∈ (Text.joinWith "\n\n" texts).lines.filterMap
        fun l : Text => if l = [] then none else some l :=
      List.mem_filterMap.2 ⟨l, h, if_neg empty⟩
    rw [filterMap_lines_joinWith (if_pos rfl)] at mem
    obtain ⟨t, ht, mem⟩ := List.mem_flatMap.1 mem
    obtain ⟨l', hl', e⟩ := List.mem_filterMap.1 mem
    rw [Option.ite_none_left_eq_some] at e
    obtain rfl := Option.some.inj e.2
    exact Or.inr ⟨t, ht, hl'⟩

/-- The files are lined, and so is the text of all of them. -/
theorem isLined_joinWith (hroot : IsNamespace root) {texts : List Text}
    (h : ∀ t ∈ texts, IsLined root t) : IsLined root (Text.joinWith "\n\n" texts) := by
  intro l hl
  rcases mem_lines_joinWith hl with rfl | ⟨t, ht, hl⟩
  · exact isLine_nil hroot
  · exact h t ht l hl

theorem readsProvide_nil (hroot : IsNamespace root) : readsProvide root [] = none := by
  have alone := (isLine_nil hroot).standsAlone_provide hroot
  cases hx : readsProvide root [] with
  | none => rfl
  | some x =>
    have nonempty := alone.text_ne_nil consumes_provideHeader hx
    exact absurd (List.prefix_nil.1 (alone.within x hx)) nonempty

theorem readsRequire_nil (hroot : IsNamespace root) : readsRequire root [] = none := by
  have alone := (isLine_nil hroot).standsAlone_require hroot
  cases hx : readsRequire root [] with
  | none => rfl
  | some x =>
    have nonempty := alone.text_ne_nil consumes_requireHeader hx
    exact absurd (List.prefix_nil.1 (alone.within x hx)) nonempty

theorem readings_joinWith (hroot : IsNamespace root) (texts : List Text) :
    (Text.joinWith "\n\n" texts).lines.filterMap (readsRequire root) =
      texts.flatMap fun t => t.lines.filterMap (readsRequire root) :=
  filterMap_lines_joinWith (readsRequire_nil hroot) texts

theorem namesProvided_joinWith (hroot : IsNamespace root) {texts : List Text}
    (h : ∀ t ∈ texts, IsLined root t) :
    namesProvided root (Text.joinWith "\n\n" texts).lines = providedBy root texts := by
  rw [namesProvided, filterMap_lines_joinWith (readsProvide_nil hroot), List.map_flatMap,
    providedBy, List.flatMap_def, List.flatMap_def]
  congr 1
  exact List.map_congr_left fun t ht => ((h t ht).map_name_bareProvides hroot).symm

/-! ## What merging does to lines -/

/-- The requires of provided namespaces among some readings bind nothing, so that no name is
written out. -/
theorem boundNames_within {provided : List Text} {xs : List Reading} {required : List Require}
    (h : xs.mapM requireOf = .ok required)
    (plain : ∀ x ∈ xs, requiredName x ∈ provided → x.group? 1 = none) :
    (required.filter (·.name ∈ provided)).flatMap boundNames = [] := by
  rw [List.flatMap_eq_nil_iff]
  intro r hr
  obtain ⟨hr, within⟩ := List.mem_filter.1 hr
  obtain ⟨x, hx, e⟩ := exists_of_mem_mapM h hr
  obtain ⟨name, -, binding⟩ := requireOf_eq_ok e
  rw [plain x hx (name ▸ of_decide_eq_true within)] at binding
  rw [boundNames, ← Except.ok.inj binding]

/-- What is plain in each of the files is plain in the text of all of them. -/
theorem PlainWithin.of_mem_joinWith (hroot : IsNamespace root) {texts : List Text}
    (plain : PlainWithin root texts) (lined : ∀ t ∈ texts, IsLined root t) :
    ∀ x ∈ (Text.joinWith "\n\n" texts).lines.filterMap (readsRequire root),
      requiredName x ∈ providedBy root texts → x.group? 1 = none := by
  intro x hx within
  rw [readings_joinWith hroot] at hx
  obtain ⟨t, ht, hx⟩ := List.mem_flatMap.1 hx
  rw [← (lined t ht).map_reading_require hroot] at hx
  obtain ⟨m, hm, rfl⟩ := List.mem_map.1 hx
  rw [requiredName, Match.groupText_reading] at within
  rw [Match.group?_reading, plain t ht m hm within, Option.map_none]

/-- **Merging keeps lines**: if every require can be read, the result is the text of the lines of
all the files without the dropped requires, up to an empty last line. -/
theorem mergeTexts_eq (hroot : IsNamespace root) {texts : List Text} {ls : List Text}
    (hls : (Text.joinWith "\n\n" texts).lines = ls) (lined : ∀ t ∈ texts, IsLined root t)
    (within : ∀ x ∈ ls.filterMap (readsRequire root),
      requiredName x ∈ providedBy root texts → x.group? 1 = none) :
    ∃ tail, (tail = [] ∨ tail = [[]]) ∧
      ((∀ l ∈ ls.getLast?, readsRequire root l = none) → tail = []) ∧
      keepLines (readsRequire root) (providedBy root texts) [] ls ++ tail ≠ [] ∧
      mergeTexts root texts =
        ((ls.filterMap (readsRequire root)).mapM requireOf).map fun _ =>
          Text.ofLines (keepLines (readsRequire root) (providedBy root texts) [] ls ++ tail) := by
  subst hls
  have joined := isLined_joinWith hroot lined
  generalize ht : Text.joinWith "\n\n" texts = t at joined within ⊢
  have names : (bareProvides root t).map Provide.name = providedBy root texts := by
    rw [joined.map_name_bareProvides hroot, ← ht, namesProvided_joinWith hroot lined]
  have alone : ∀ l ∈ t.lines, ∀ x, readsRequire root l = some x →
      ∃ w, l = x.text ++ w ∧ w.all isSpaceOrTab = true := by
    intro l hl x hx
    obtain ⟨_, _, _, s, b, w, -, -, hw, rfl, rfl⟩ := (joined l hl).exists_isRequire hroot hx
    exact ⟨w, by simp, hw⟩
  obtain ⟨tail, shape, last, nonempty, removed⟩ :=
    exists_removeSpansFrom_eq (providedBy root texts) t.lines_ne_nil 0 [] alone
  refine ⟨tail, shape, last, nonempty, ?_⟩
  have read : ((requireHeader root).allMatches t).mapM readRequire =
      (t.lines.filterMap (readsRequire root)).mapM requireOf := joined.requires_eq hroot
  rw [mergeTexts, ht, names]
  cases hr : (t.lines.filterMap (readsRequire root)).mapM requireOf with
  | error f =>
    rw [read, hr]
    rfl
  | ok required =>
    have dropped := droppedSpans_eq (providedBy root texts) (read.trans hr)
      (fun m => stop_offset_of_mem_allMatches) []
    rw [joined.map_found_require hroot] at dropped
    rw [Text.ofLines_lines, ← dropped] at removed
    simp only [read, hr, bind, Except.bind, pure, Except.pure, Except.map,
      boundNames_within hr within, List.foldl_nil, removeSpans, removed]

/-! ## What a merged text says -/

theorem filter_intercalate {α : Type} {p : α → Bool} {a : α} (ha : p a = true)
    (lists : List (List α)) :
    ([a].intercalate lists).filter p = [a].intercalate (lists.map (List.filter p)) := by
  induction lists with
  | nil => rfl
  | cons l lists ih =>
    cases lists with
    | nil => simp
    | cons l' lists =>
      rw [List.intercalate_cons_cons, List.filter_append, List.filter_append, ih]
      simp [ha]

theorem isOther_nil (hroot : IsNamespace root) : isOther root [] = true := by
  rw [isOther, fits_start, fits_start]
  simp [readsProvide_nil hroot, readsRequire_nil hroot]

/-- The other lines of a text made of lines that were kept. -/
theorem filter_isOther_keepLines (provided seen ls : List Text) :
    (keepLines (readsRequire root) provided seen ls).filter (isOther root) =
      ls.filter (isOther root) := by
  have skipped : ∀ l ∈ ls, ∀ x, readsRequire root l = some x →
      Option.guard (isOther root) l = none := by
    intro l _ x hx
    simp [isOther, fits_start, hx]
  simpa [List.filterMap_eq_filter] using filterMap_keepLines_of_none skipped seen

/-- What holds of an empty line and of some lines holds of those that were kept, with an empty line
behind them or not. -/
theorem forall_mem_keepLines_append {p : Text → Prop} {provided seen ls tail : List Text}
    (empty : p []) (h : ∀ l ∈ ls, p l) (shape : tail = [] ∨ tail = [[]]) :
    ∀ l ∈ keepLines (readsRequire root) provided seen ls ++ tail, p l := by
  intro l hl
  rcases List.mem_append.1 hl with hl | hl
  · exact h l ((keepLines_sublist seen ls).subset hl)
  · rcases shape with rfl | rfl
    · cases hl
    · obtain rfl := List.mem_singleton.1 hl
      exact empty

theorem lines_ofLines_keepLines {provided seen ls tail : List Text} (h : ∀ l ∈ ls, '\n' ∉ l)
    (shape : tail = [] ∨ tail = [[]])
    (nonempty : keepLines (readsRequire root) provided seen ls ++ tail ≠ []) :
    (Text.ofLines (keepLines (readsRequire root) provided seen ls ++ tail)).lines =
      keepLines (readsRequire root) provided seen ls ++ tail :=
  Text.lines_ofLines (forall_mem_keepLines_append List.not_mem_nil h shape) nonempty

/-- The other lines of the text of some files are those of the files, with an empty line between two
of them. The text of no files at all has one line. -/
theorem exists_filter_isOther_joinWith (hroot : IsNamespace root) {texts tail : List Text}
    (shape : tail = [] ∨ tail = [[]])
    (last : (∀ l ∈ (Text.joinWith "\n\n" texts).lines.getLast?, readsRequire root l = none) →
      tail = []) :
    ∃ tail', (tail' = [] ∨ tail' = [[]]) ∧
      (Text.joinWith "\n\n" texts).lines.filter (isOther root) ++ tail =
        [[]].intercalate (texts.map (otherLines root)) ++ tail' := by
  by_cases empty : texts = []
  · subst empty
    have only : (Text.joinWith "\n\n" []).lines = [[]] := rfl
    rw [only] at last ⊢
    obtain rfl : tail = [] := last (by simp [readsRequire_nil hroot])
    exact ⟨[[]], Or.inr rfl, by simp [isOther_nil hroot]⟩
  · refine ⟨tail, shape, ?_⟩
    rw [Text.lines_joinWith empty, filter_intercalate (isOther_nil hroot), List.map_map]
    rfl

/-- **What a merged text says.** Its provides are those of the files, in order. Its requires are
those of the files, in order, without the requires of what the files provide, and with the first of
several identical statements only. Its other lines are those of the files, in order, with the empty
line that stands between two files, and perhaps one at the end. -/
theorem mergeTexts_of_isLined {root : Text} {texts : List Text} {required : List (List Require)}
    (hroot : IsNamespace root) (lined : ∀ t ∈ texts, IsLined root t)
    (plain : PlainWithin root texts) (read : texts.mapM (requires root) = .ok required) :
    ∃ merged tail, mergeTexts root texts = .ok merged ∧
      ((provideHeader root).allMatches merged).map Match.reading =
        texts.flatMap (fun t => ((provideHeader root).allMatches t).map Match.reading) ∧
      requires root merged =
        .ok (distinctBy Require.matched
          (required.flatten.filter (·.name ∉ providedBy root texts))) ∧
      otherLines root merged = [[]].intercalate (texts.map (otherLines root)) ++ tail ∧
      (tail = [] ∨ tail = [[]]) := by
  obtain ⟨tail, shape, last, nonempty, merge⟩ :=
    mergeTexts_eq hroot rfl lined (plain.of_mem_joinWith hroot lined)
  have joined := isLined_joinWith hroot lined
  have readings := readings_joinWith hroot texts
  have provides := filterMap_lines_joinWith (readsProvide_nil hroot) texts
  obtain ⟨tail', shape', otherTail⟩ := exists_filter_isOther_joinWith hroot shape last
  have readAll : (texts.flatMap fun t => t.lines.filterMap (readsRequire root)).mapM requireOf =
      .ok required.flatten := mapM_flatMap_eq_ok read fun t ht => (lined t ht).requires_eq hroot
  generalize ht : Text.joinWith "\n\n" texts = t at *
  have lines := lines_ofLines_keepLines (fun l => Text.not_mem_of_mem_lines) shape nonempty
  generalize hm : Text.ofLines (keepLines (readsRequire root) (providedBy root texts) [] t.lines ++
    tail) = merged at *
  have mergedLined : IsLined root merged := by
    rw [IsLined, lines]
    exact forall_mem_keepLines_append (isLine_nil hroot) joined shape
  have none : tail.filterMap (readsProvide root) = [] ∧
      tail.filterMap (readsRequire root) = [] := by
    rcases shape with rfl | rfl
    · exact ⟨rfl, rfl⟩
    · simp [readsProvide_nil hroot, readsRequire_nil hroot]
  have others : tail.filter (isOther root) = tail := by
    rcases shape with rfl | rfl
    · rfl
    · simp [isOther_nil hroot]
  refine ⟨merged, tail', ?_, ?_, ?_, ?_, shape'⟩
  · rw [merge, readings, readAll]
    rfl
  · rw [mergedLined.map_reading_provide hroot, lines, List.filterMap_append, none.1,
      List.append_nil, filterMap_keepLines_of_none
        fun l hl x hx => (joined l hl).lineReading_provide_eq_none hroot hx, provides,
      List.flatMap_def, List.flatMap_def]
    congr 1
    exact List.map_congr_left fun t ht => ((lined t ht).map_reading_provide hroot).symm
  · rw [mergedLined.requires_eq hroot, lines, List.filterMap_append, none.2, List.append_nil,
      filterMap_keepLines, readings]
    have kept := mapM_filter_eq_ok (fun x => decide (requiredName x ∉ providedBy root texts))
      (fun r => decide (r.name ∉ providedBy root texts)) readAll
      fun x r hr => by rw [(requireOf_eq_ok hr).1]
    have all : ∀ xs : List Reading, xs.filter (fun x => decide (x.text ∉ ([] : List Text))) = xs :=
      fun xs => List.filter_eq_self.2 fun x _ => by simp
    rw [all]
    exact mapM_distinctBy_eq_ok Reading.text Require.matched kept (fun _ _ => Option.some.inj)
      fun x r hr => (requireOf_eq_ok hr).2.1
  · rw [otherLines, lines, List.filter_append, filter_isOther_keepLines, others, otherTail]

end

/-! ## Two files that require each other -/

/-- A file with code that requires the other file twice, and a namespace of a third one under an
alias. -/
def fileWithCode : Text :=
  "goog.provide('a.A');\ngoog.require('b.B');\n\na.A = b.B;\ngoog.require('b.B');\n"

/-- The other file. -/
def fileWithAlias : Text :=
  "goog.provide('b.B');\nconst X = goog.require('x.X');\ngoog.require('a.A');\n"

theorem isLined_fileWithCode : IsLined "goog" fileWithCode := by
  have lines : fileWithCode.lines = [callLine "goog" "provide" "a.A",
      callLine "goog" "require" "b.B", [], "a.A = b.B;", callLine "goog" "require" "b.B", []] := by
    decide +kernel
  have code : IsLine "goog" "a.A = b.B;" :=
    .other (by rw [opensRoot_iff (by decide)]; decide) (by decide)
  have require : IsLine "goog" (callLine "goog" "require" "b.B") :=
    isLine_require (by decide) (by decide)
  rw [IsLined, lines]
  simp only [List.forall_mem_cons]
  exact ⟨isLine_provide (by decide) (by decide), require, isLine_nil (by decide), code, require,
    isLine_nil (by decide), by simp⟩

theorem isLined_fileWithAlias : IsLined "goog" fileWithAlias := by
  have lines : fileWithAlias.lines = [callLine "goog" "provide" "b.B",
      "const" ++ ([' '] ++ ("X" ++ " = ")) ++ callLine "goog" "require" "x.X",
      callLine "goog" "require" "a.A", []] := by
    decide +kernel
  rw [IsLined, lines]
  simp only [List.forall_mem_cons]
  exact ⟨isLine_provide (by decide) (by decide), isLine_alias (by decide) (by decide) (by decide),
    isLine_require (by decide) (by decide), isLine_nil (by decide), by simp⟩

theorem providedBy_files :
    providedBy "goog" [fileWithCode, fileWithAlias] = [("a.A" : Text), ("b.B" : Text)] := by
  decide +kernel

theorem plainWithin_files : PlainWithin "goog" [fileWithCode, fileWithAlias] := by
  rw [PlainWithin, providedBy_files]
  simp only [List.forall_mem_cons]
  exact ⟨by decide +kernel, by decide +kernel, by simp⟩

/-- The two files merged. -/
theorem mergeTexts_of_isLined_files :
    ∃ merged tail, mergeTexts "goog" [fileWithCode, fileWithAlias] = .ok merged ∧
      ((provideHeader "goog").allMatches merged).map Match.reading =
        [fileWithCode, fileWithAlias].flatMap
          (fun t => ((provideHeader "goog").allMatches t).map Match.reading) ∧
      requires "goog" merged = .ok
        [⟨"x.X", .explicit, .alias "X", some ("const X = goog.require('x.X');" : Text)⟩] ∧
      otherLines "goog" merged = [("" : Text), "a.A = b.B;", "", "", ""] ++ tail ∧
      (tail = [] ∨ tail = [[]]) := by
  have read : [fileWithCode, fileWithAlias].mapM (requires "goog") =
      .ok [[⟨"b.B", .explicit, .plain, some ("goog.require('b.B');" : Text)⟩,
            ⟨"b.B", .explicit, .plain, some ("goog.require('b.B');" : Text)⟩],
          [⟨"x.X", .explicit, .alias "X", some ("const X = goog.require('x.X');" : Text)⟩,
            ⟨"a.A", .explicit, .plain, some ("goog.require('a.A');" : Text)⟩]] := by rfl
  have lined : ∀ t ∈ [fileWithCode, fileWithAlias], IsLined "goog" t := by
    simp only [List.forall_mem_cons]
    exact ⟨isLined_fileWithCode, isLined_fileWithAlias, by simp⟩
  obtain ⟨merged, tail, merge, provides, required, others, shape⟩ :=
    mergeTexts_of_isLined (by decide) lined plainWithin_files read
  have kept : [("" : Text), "a.A = b.B;", "", "", ""] =
      [[]].intercalate ([fileWithCode, fileWithAlias].map (otherLines "goog")) := by decide +kernel
  refine ⟨merged, tail, merge, provides, required.trans ?_, kept ▸ others, shape⟩
  rw [providedBy_files]
  rfl

/-- **A root may be spelled over two lines.** The two lines of the second file do not begin with the
root, but together they are a require, which is removed. -/
theorem mergeTexts_drops_spelling :
    callLine "goog.x" "provide" "b.B" = ("goog.x.provide('b.B');" : Text) ∧
      (∀ l ∈ [("goog" : Text), ".x.require('b.B');", ""],
        ¬ ("goog.x" : Text) <+: l ∧ ∀ word ∈ declarationWords, ¬ word <+: l) ∧
      mergeTexts "goog.x" ["goog.x.provide('b.B');\n", "goog\n.x.require('b.B');\n"] =
        .ok ("goog.x.provide('b.B');\n\n\n" : Text) ∧
      ¬ ("goog" : Text) ∈ Text.lines ("goog.x.provide('b.B');\n\n\n" : Text) :=
  ⟨by decide, by decide, by rfl, by decide⟩

end Modulize.Declaration
