import Modulize.Proofs.Declaration.Merging

/-!
# Merging in two stages

Files that end with a line break are merged in any grouping with the same result
(`mergeTexts_regroup`). The text of a first stage has the lines that were kept
(`Stage`): it provides what its files provide, and a second stage drops again what the first one has
dropped (`keepLines_keepLines_append`), since it knows more provided namespaces.
-/

namespace Modulize

namespace Text

/-- The lines of texts in two parts. -/
theorem lines_joinWith_append {xs ys : List Text} (hxs : xs ≠ []) (hys : ys ≠ []) :
    (joinWith "\n\n" (xs ++ ys)).lines =
      (joinWith "\n\n" xs).lines ++ [] :: (joinWith "\n\n" ys).lines := by
  rw [lines_joinWith hxs, lines_joinWith hys, lines_joinWith (by simp [hxs]), List.map_append]
  have hxs : xs.map lines ≠ [] := by simpa using hxs
  have hys : ys.map lines ≠ [] := by simpa using hys
  generalize xs.map lines = ls at *
  generalize ys.map lines = ls' at *
  induction ls with
  | nil => exact absurd rfl hxs
  | cons l ls ih =>
    cases ls with
    | nil =>
      obtain ⟨l', ls', rfl⟩ := List.exists_cons_of_ne_nil hys
      simp
    | cons l₂ ls =>
      have ih := ih (by simp)
      simp only [List.cons_append, List.intercalate_cons_cons] at ih ⊢
      rw [ih]
      simp

/-- The last line of a text that ends with a line break is empty. -/
theorem getLast?_lines {t : Text} (h : ['\n'] <:+ t) : t.lines.getLast? = some [] := by
  obtain ⟨u, rfl⟩ := h
  rw [lines_append]
  simp [lines, splitOn]

theorem getLast?_lines_joinWith {texts : List Text} (hne : texts ≠ [])
    (h : ∀ t ∈ texts.getLast?, t.lines.getLast? = some []) :
    (joinWith "\n\n" texts).lines.getLast? = some [] := by
  induction texts with
  | nil => exact absurd rfl hne
  | cons t texts ih =>
    cases texts with
    | nil => exact h t rfl
    | cons t' texts =>
      have split : t :: t' :: texts = [t] ++ t' :: texts := rfl
      have last := ih (by simp) fun u hu => h u (by simpa using hu)
      rw [split, lines_joinWith_append (by simp) (by simp), List.getLast?_append,
        List.getLast?_cons, last]
      simp

end Text

namespace Declaration

open Pattern Qualified

section

variable {root : Text}

/-- A last line that is not read is kept. -/
theorem keepLines_concat {read : Text → Option Reading} {l : Text} (hl : read l = none)
    (provided seen ls : List Text) :
    keepLines read provided seen (ls ++ [l]) = keepLines read provided seen ls ++ [l] := by
  fun_induction keepLines read provided seen ls with
  | case1 => simp [keepLines, hl]
  | case2 seen a ls ha ih => simp [keepLines, ha, ih]
  | case3 seen a ls x ha dropped ih => simp [keepLines, ha, dropped, ih]
  | case4 seen a ls x ha stays ih => simp [keepLines, ha, stays, ih]

/-- The lines of the files, joined. -/
abbrev joinedLines (texts : List Text) : List Text := (Text.joinWith "\n\n" texts).lines

/-- Every require among the readings can be read. -/
def Readable (root : Text) (ls : List Text) : Prop :=
  ∀ x ∈ ls.filterMap (readsRequire root), ∃ r, requireOf x = .ok r

/-- The requires of provided namespaces on some lines bind no name. -/
def BindsNothing (root : Text) (provided ls : List Text) : Prop :=
  ∀ x ∈ ls.filterMap (readsRequire root), requiredName x ∈ provided → x.group? 1 = none

/-- Files that end with a line break are merged to the lines that are kept. -/
theorem mergeTexts_eq_ok_iff (hroot : IsNamespace root) {texts : List Text}
    (lined : ∀ t ∈ texts, IsLined root t)
    (plain : BindsNothing root (providedBy root texts) (joinedLines texts))
    (last : (joinedLines texts).getLast? = some []) {merged : Text} :
    mergeTexts root texts = .ok merged ↔ Readable root (joinedLines texts) ∧
      merged = Text.ofLines (keepLines (readsRequire root) (providedBy root texts) []
        (joinedLines texts)) := by
  obtain ⟨tail, -, none, -, merge⟩ := mergeTexts_eq hroot rfl lined plain
  obtain rfl := none (by rw [last]; simp [readsRequire_nil hroot])
  rw [merge, List.append_nil, Readable, ← exists_mapM_eq_ok_iff]
  cases ((joinedLines texts).filterMap (readsRequire root)).mapM requireOf with
  | error f => simp [Except.map]
  | ok required =>
    exact ⟨fun h => ⟨⟨required, rfl⟩, (Except.ok.inj h).symm⟩, fun h => congrArg Except.ok h.2.symm⟩

/-! ## The text of a first stage -/

/-- The text of some files merged: its lines are the lines kept, and nothing else of what matters
has changed. -/
structure Stage (root : Text) (texts : List Text) (merged : Text) : Prop where
  lined : IsLined root merged
  lines : merged.lines =
    keepLines (readsRequire root) (providedBy root texts) [] (joinedLines texts)
  last : merged.lines.getLast? = some []
  provides : (bareProvides root merged).map Provide.name = providedBy root texts

theorem stage_of_ofLines (hroot : IsNamespace root) {texts : List Text}
    (lined : ∀ t ∈ texts, IsLined root t) (last : (joinedLines texts).getLast? = some []) :
    Stage root texts (Text.ofLines (keepLines (readsRequire root) (providedBy root texts) []
      (joinedLines texts))) := by
  have joined := isLined_joinWith hroot lined
  obtain ⟨front, hfront⟩ := List.getLast?_eq_some_iff.1 last
  have concat := keepLines_concat (readsRequire_nil hroot) (providedBy root texts) [] front
  rw [← hfront] at concat
  have nonempty : keepLines (readsRequire root) (providedBy root texts) [] (joinedLines texts) ++
      [] ≠ [] := by simp [concat]
  have lines := lines_ofLines_keepLines (fun l => Text.not_mem_of_mem_lines) (Or.inl rfl) nonempty
  rw [List.append_nil] at lines
  have linedMerged : IsLined root (Text.ofLines (keepLines (readsRequire root)
      (providedBy root texts) [] (joinedLines texts))) := by
    intro l hl
    rw [lines] at hl
    exact joined l ((keepLines_sublist [] (joinedLines texts)).subset hl)
  refine ⟨linedMerged, lines, ?_, ?_⟩
  · rw [lines, concat]
    simp
  · rw [linedMerged.map_name_bareProvides hroot, lines, namesProvided, filterMap_keepLines_of_none
      fun l hl x hx => (joined l hl).lineReading_provide_eq_none hroot hx]
    exact namesProvided_joinWith hroot lined

/-! ## The second stage -/

theorem Readable.mono {ls ls' : List Text} (h : Readable root ls) (sub : ∀ l ∈ ls', l ∈ ls) :
    Readable root ls' := by
  intro x hx
  obtain ⟨l, hl, e⟩ := List.mem_filterMap.1 hx
  exact h x (List.mem_filterMap.2 ⟨l, sub l hl, e⟩)

theorem BindsNothing.mono {provided provided' ls ls' : List Text}
    (h : BindsNothing root provided ls) (sub : ∀ l ∈ ls', l ∈ ls)
    (less : ∀ name ∈ provided', name ∈ provided) : BindsNothing root provided' ls' := by
  intro x hx within
  obtain ⟨l, hl, e⟩ := List.mem_filterMap.1 hx
  exact h x (List.mem_filterMap.2 ⟨l, sub l hl, e⟩) (less _ within)

theorem readable_append (hroot : IsNamespace root) {ls ls' : List Text} :
    Readable root (ls ++ [] :: ls') ↔ Readable root ls ∧ Readable root ls' := by
  simp only [Readable, List.filterMap_append, List.filterMap_cons, readsRequire_nil hroot,
    List.mem_append, or_imp, forall_and]

theorem providedBy_append (xs ys : List Text) :
    providedBy root (xs ++ ys) = providedBy root xs ++ providedBy root ys :=
  List.flatMap_append

theorem Stage.sublist {texts : List Text} {a : Text} (h : Stage root texts a) :
    a.lines.Sublist (joinedLines texts) := by
  rw [h.lines]
  exact keepLines_sublist [] _

/-- The words of a require on a line of some files tell what it requires. -/
theorem unique_of_lined (hroot : IsNamespace root) {texts : List Text}
    (lined : ∀ t ∈ texts, IsLined root t) :
    ∀ l ∈ joinedLines texts, ∀ l' ∈ joinedLines texts, ∀ x x', readsRequire root l = some x →
      readsRequire root l' = some x' → x.text = x'.text → x = x' := by
  have joined := isLined_joinWith hroot lined
  exact fun l hl l' hl' x x' => (joined l hl).reading_unique hroot (joined l' hl')

section

variable {xs ys : List Text} (hroot : IsNamespace root) (hxs : xs ≠ []) (hys : ys ≠ [])
  (linedX : ∀ t ∈ xs, IsLined root t) (linedY : ∀ t ∈ ys, IsLined root t)
  (plain : BindsNothing root (providedBy root (xs ++ ys)) (joinedLines (xs ++ ys)))

include hroot hxs hys linedX linedY plain

/-- The first files have been merged before. -/
theorem mergeTexts_cons_of_stage (lastY : (joinedLines ys).getLast? = some []) {a merged : Text}
    (stage : Stage root xs a) :
    mergeTexts root (a :: ys) = .ok merged ↔
      Readable root (a.lines ++ [] :: joinedLines ys) ∧
        merged = Text.ofLines (keepLines (readsRequire root) (providedBy root (xs ++ ys)) []
          (joinedLines (xs ++ ys))) := by
  have all : joinedLines (xs ++ ys) = joinedLines xs ++ [] :: joinedLines ys :=
    Text.lines_joinWith_append hxs hys
  have single : a :: ys = [a] ++ ys := rfl
  have lines : joinedLines (a :: ys) = a.lines ++ [] :: joinedLines ys := by
    rw [single, joinedLines, Text.lines_joinWith_append (by simp) hys]
    rfl
  have provided : providedBy root (a :: ys) = providedBy root (xs ++ ys) := by
    rw [providedBy_append, ← stage.provides]
    rfl
  have lined : ∀ t ∈ a :: ys, IsLined root t := List.forall_mem_cons.2 ⟨stage.lined, linedY⟩
  have binds : BindsNothing root (providedBy root (a :: ys)) (joinedLines (a :: ys)) := by
    refine plain.mono (fun l hl => ?_) fun name h => provided ▸ h
    rw [lines] at hl
    rw [all]
    exact (stage.sublist.append_right _).subset hl
  have last : (joinedLines (a :: ys)).getLast? = some [] := by
    rw [lines, List.getLast?_append, List.getLast?_cons, lastY]
    rfl
  have kept : keepLines (readsRequire root) (providedBy root (xs ++ ys)) []
      (a.lines ++ [] :: joinedLines ys) =
        keepLines (readsRequire root) (providedBy root (xs ++ ys)) [] (joinedLines (xs ++ ys)) := by
    rw [stage.lines, all]
    refine keepLines_keepLines_append (unique_of_lined hroot linedX) (fun name h => ?_) (by simp) _
    rw [providedBy_append]
    exact List.mem_append_left _ h
  rw [mergeTexts_eq_ok_iff hroot lined binds last, provided, lines, kept]

/-- The last files have been merged before. -/
theorem mergeTexts_concat_of_stage {b merged : Text} (stage : Stage root ys b) :
    mergeTexts root (xs ++ [b]) = .ok merged ↔
      Readable root (joinedLines xs ++ [] :: b.lines) ∧
        merged = Text.ofLines (keepLines (readsRequire root) (providedBy root (xs ++ ys)) []
          (joinedLines (xs ++ ys))) := by
  have all : joinedLines (xs ++ ys) = joinedLines xs ++ [] :: joinedLines ys :=
    Text.lines_joinWith_append hxs hys
  have lines : joinedLines (xs ++ [b]) = joinedLines xs ++ [] :: b.lines :=
    Text.lines_joinWith_append hxs (by simp)
  have provided : providedBy root (xs ++ [b]) = providedBy root (xs ++ ys) := by
    rw [providedBy_append, providedBy_append, ← stage.provides]
    simp [providedBy]
  have lined : ∀ t ∈ xs ++ [b], IsLined root t := by
    simpa [or_imp, forall_and] using ⟨linedX, stage.lined⟩
  have binds : BindsNothing root (providedBy root (xs ++ [b])) (joinedLines (xs ++ [b])) := by
    refine plain.mono (fun l hl => ?_) fun name h => provided ▸ h
    rw [lines] at hl
    rw [all]
    exact ((stage.sublist.cons_cons []).append_left _).subset hl
  have last : (joinedLines (xs ++ [b])).getLast? = some [] := by
    rw [lines, List.getLast?_append, List.getLast?_cons, stage.last]
    rfl
  have kept : keepLines (readsRequire root) (providedBy root (xs ++ ys)) []
      (joinedLines xs ++ [] :: b.lines) =
        keepLines (readsRequire root) (providedBy root (xs ++ ys)) [] (joinedLines (xs ++ ys)) := by
    rw [stage.lines, all, List.append_cons _ _ (joinedLines ys),
      List.append_cons _ _ (keepLines ..)]
    refine keepLines_append_keepLines (unique_of_lined hroot linedY) (fun name h => ?_) []
    rw [providedBy_append]
    exact List.mem_append_right _ h
  rw [mergeTexts_eq_ok_iff hroot lined binds last, provided, lines, kept]

/-- Merging the first files first. -/
theorem bind_mergeTexts_cons (lastX : (joinedLines xs).getLast? = some [])
    (lastY : (joinedLines ys).getLast? = some []) {merged : Text} :
    (mergeTexts root xs >>= fun a => mergeTexts root (a :: ys)) = .ok merged ↔
      Readable root (joinedLines (xs ++ ys)) ∧
        merged = Text.ofLines (keepLines (readsRequire root) (providedBy root (xs ++ ys)) []
          (joinedLines (xs ++ ys))) := by
  have split : joinedLines (xs ++ ys) = joinedLines xs ++ [] :: joinedLines ys :=
    Text.lines_joinWith_append hxs hys
  have bindsX : BindsNothing root (providedBy root xs) (joinedLines xs) :=
    plain.mono (by simp +contextual [split]) (by simp +contextual [providedBy_append])
  have stage := stage_of_ofLines hroot linedX lastX
  constructor
  · intro h
    obtain ⟨a, ha, h⟩ := bind_eq_ok h
    obtain ⟨readX, rfl⟩ := (mergeTexts_eq_ok_iff hroot linedX bindsX lastX).1 ha
    obtain ⟨readA, rfl⟩ :=
      (mergeTexts_cons_of_stage hroot hxs hys linedX linedY plain lastY stage).1 h
    refine ⟨?_, rfl⟩
    rw [split, readable_append hroot]
    exact ⟨readX, ((readable_append hroot).1 readA).2⟩
  · rintro ⟨readable, rfl⟩
    rw [split, readable_append hroot] at readable
    obtain ⟨readX, readY⟩ := readable
    rw [(mergeTexts_eq_ok_iff hroot linedX bindsX lastX).2 ⟨readX, rfl⟩]
    refine (mergeTexts_cons_of_stage hroot hxs hys linedX linedY plain lastY stage).2 ⟨?_, rfl⟩
    exact (readable_append hroot).2 ⟨readX.mono fun l hl => stage.sublist.subset hl, readY⟩

/-- Merging the last files first. -/
theorem bind_mergeTexts_concat (lastY : (joinedLines ys).getLast? = some []) {merged : Text} :
    (mergeTexts root ys >>= fun b => mergeTexts root (xs ++ [b])) = .ok merged ↔
      Readable root (joinedLines (xs ++ ys)) ∧
        merged = Text.ofLines (keepLines (readsRequire root) (providedBy root (xs ++ ys)) []
          (joinedLines (xs ++ ys))) := by
  have split : joinedLines (xs ++ ys) = joinedLines xs ++ [] :: joinedLines ys :=
    Text.lines_joinWith_append hxs hys
  have bindsY : BindsNothing root (providedBy root ys) (joinedLines ys) :=
    plain.mono (by simp +contextual [split]) (by simp +contextual [providedBy_append])
  have stage := stage_of_ofLines hroot linedY lastY
  constructor
  · intro h
    obtain ⟨b, hb, h⟩ := bind_eq_ok h
    obtain ⟨readY, rfl⟩ := (mergeTexts_eq_ok_iff hroot linedY bindsY lastY).1 hb
    obtain ⟨readB, rfl⟩ := (mergeTexts_concat_of_stage hroot hxs hys linedX linedY plain stage).1 h
    refine ⟨?_, rfl⟩
    rw [split, readable_append hroot]
    exact ⟨((readable_append hroot).1 readB).1, readY⟩
  · rintro ⟨readable, rfl⟩
    rw [split, readable_append hroot] at readable
    obtain ⟨readX, readY⟩ := readable
    rw [(mergeTexts_eq_ok_iff hroot linedY bindsY lastY).2 ⟨readY, rfl⟩]
    refine (mergeTexts_concat_of_stage hroot hxs hys linedX linedY plain stage).2 ⟨?_, rfl⟩
    exact (readable_append hroot).2 ⟨readX, readY.mono fun l hl => stage.sublist.subset hl⟩

end

/-- The requires of the joined files can be read if those of each file can. -/
theorem readable_joinedLines (hroot : IsNamespace root) {texts : List Text}
    (lined : ∀ t ∈ texts, IsLined root t) :
    Readable root (joinedLines texts) ↔
      ∀ t ∈ texts, ∃ required, requires root t = .ok required := by
  have file : ∀ t ∈ texts, (∃ required, requires root t = .ok required) ↔
      ∀ x ∈ t.lines.filterMap (readsRequire root), ∃ r, requireOf x = .ok r := by
    intro t ht
    rw [(lined t ht).requires_eq hroot]
    exact exists_mapM_eq_ok_iff
  rw [Readable, joinedLines, readings_joinWith hroot]
  constructor
  · exact fun h t ht => (file t ht).2 fun x hx => h x (List.mem_flatMap.2 ⟨t, ht, hx⟩)
  · intro h x hx
    obtain ⟨t, ht, hx⟩ := List.mem_flatMap.1 hx
    exact (file t ht).1 (h t ht) x hx

/-- **Files may be merged in two stages.** Merging some of the files first and then the result with
the others comes to the same as merging all of them at once, whether the first or the last files
are merged first; and merging succeeds exactly if the requires of each file can be read. -/
theorem mergeTexts_regroup {xs ys : List Text} (hroot : IsNamespace root) (hxs : xs ≠ [])
    (hys : ys ≠ []) (ends : ∀ t ∈ xs ++ ys, ['\n'] <:+ t) (lined : ∀ t ∈ xs ++ ys, IsLined root t)
    (plain : PlainWithin root (xs ++ ys)) :
    (∀ merged, (mergeTexts root xs >>= fun a => mergeTexts root (a :: ys)) = .ok merged ↔
      mergeTexts root (xs ++ ys) = .ok merged) ∧
    (∀ merged, (mergeTexts root ys >>= fun b => mergeTexts root (xs ++ [b])) = .ok merged ↔
      mergeTexts root (xs ++ ys) = .ok merged) ∧
    ((∃ merged, mergeTexts root (xs ++ ys) = .ok merged) ↔
      ∀ t ∈ xs ++ ys, ∃ required, requires root t = .ok required) := by
  have linedX : ∀ t ∈ xs, IsLined root t := fun t ht => lined t (List.mem_append_left _ ht)
  have linedY : ∀ t ∈ ys, IsLined root t := fun t ht => lined t (List.mem_append_right _ ht)
  have binds : BindsNothing root (providedBy root (xs ++ ys)) (joinedLines (xs ++ ys)) :=
    plain.of_mem_joinWith hroot lined
  have last {texts : List Text} (hne : texts ≠ []) (sub : ∀ t ∈ texts, t ∈ xs ++ ys) :
      (joinedLines texts).getLast? = some [] :=
    Text.getLast?_lines_joinWith hne fun t ht =>
      Text.getLast?_lines (ends t (sub t (List.mem_of_getLast? ht)))
  have lastX := last hxs fun t ht => List.mem_append_left _ ht
  have lastY := last hys fun t ht => List.mem_append_right _ ht
  have lastAll := last (by simp [hxs]) fun t ht => ht
  have atOnce (merged : Text) : mergeTexts root (xs ++ ys) = .ok merged ↔ _ :=
    mergeTexts_eq_ok_iff hroot lined binds lastAll
  refine ⟨fun merged => ?_, fun merged => ?_, ?_⟩
  · rw [bind_mergeTexts_cons hroot hxs hys linedX linedY binds lastX lastY, atOnce]
  · rw [bind_mergeTexts_concat hroot hxs hys linedX linedY binds lastY, atOnce]
  · rw [← readable_joinedLines hroot lined]
    exact ⟨fun ⟨merged, h⟩ => ((atOnce merged).1 h).1, fun h => ⟨_, (atOnce _).2 ⟨h, rfl⟩⟩⟩

end

/-- Two files that require each other, merged in two stages. -/
theorem mergeTexts_regroup_files :
    (mergeTexts "goog" [fileWithCode] >>= fun a => mergeTexts "goog" (a :: [fileWithAlias])) =
        .ok ("goog.provide('a.A');\n\na.A = b.B;\n\n\n" ++
          ("goog.provide('b.B');\nconst X = goog.require('x.X');\n" : Text)) ∧
      (mergeTexts "goog" [fileWithAlias] >>= fun b => mergeTexts "goog" ([fileWithCode] ++ [b])) =
        .ok ("goog.provide('a.A');\n\na.A = b.B;\n\n\n" ++
          ("goog.provide('b.B');\nconst X = goog.require('x.X');\n" : Text)) := by
  have lined : ∀ t ∈ [fileWithCode] ++ [fileWithAlias], IsLined "goog" t := by
    simp only [List.singleton_append, List.forall_mem_cons]
    exact ⟨isLined_fileWithCode, isLined_fileWithAlias, by simp⟩
  have ends : ∀ t ∈ [fileWithCode] ++ [fileWithAlias], ['\n'] <:+ t := by decide
  have atOnce : mergeTexts "goog" ([fileWithCode] ++ [fileWithAlias]) =
      .ok ("goog.provide('a.A');\n\na.A = b.B;\n\n\n" ++
        ("goog.provide('b.B');\nconst X = goog.require('x.X');\n" : Text)) := by rfl
  obtain ⟨first, last, -⟩ :=
    mergeTexts_regroup (by decide) (by simp) (by simp) ends lined plainWithin_files
  exact ⟨(first _).2 atOnce, (last _).2 atOnce⟩

end Declaration

end Modulize
