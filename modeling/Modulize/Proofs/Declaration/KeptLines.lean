import Modulize.Declaration.Merge
import Modulize.Proofs.Collections
import Modulize.Proofs.Pattern.Lines
import Modulize.Proofs.Text

/-!
# The lines that merging keeps

`keepLines` goes through the lines of a text and drops those that require a provided namespace or
repeat a require seen before. When the requires of a text stand on lines of their own, this is what
the removal of pieces of the text does (`exists_removeSpansFrom_eq`), up to an empty last line.

The readings that stay are the first of each text among those that are not provided
(`filterMap_keepLines`), and the lines that are not read stay all (`filter_keepLines`). Keeping in
two stages is the same as keeping at once, if the second stage drops more
(`keepLines_keepLines_append`, `keepLines_append_keepLines`).
-/

namespace Modulize.Declaration

open Pattern

/-! ## Requires as readings -/

/-- The namespace that a reading of a require header names. -/
def requiredName (x : Reading) : Text := x.groupText 3

/-- The dependency that a reading of a require header declares. -/
def requireOf (x : Reading) : Except Failure Require := do
  let binding ← readBinding (x.group? 1) x.text
  let kind := if x.groupText 2 = "forwardDeclare" then RequireKind.forward else .explicit
  pure ⟨requiredName x, kind, binding, some x.text⟩

theorem readRequire_eq (m : Match) : readRequire m = requireOf m.reading := by
  rw [readRequire, requireOf, requiredName, Match.group?_reading, Match.groupText_reading,
    Match.groupText_reading]
  rfl

theorem mapM_readRequire (found : List Match) :
    found.mapM readRequire = (found.map Match.reading).mapM requireOf := by
  rw [List.mapM_map]
  congr
  funext m
  exact readRequire_eq m

theorem requireOf_eq_ok {x : Reading} {r : Require} (h : requireOf x = .ok r) :
    r.name = requiredName x ∧ r.matched = some x.text ∧
      readBinding (x.group? 1) x.text = .ok r.binding := by
  obtain ⟨binding, hb, h⟩ := bind_eq_ok h
  obtain rfl := Except.ok.inj h
  exact ⟨rfl, rfl, hb⟩

/-! ## Lines to drop -/

section

variable (read : Text → Option Reading) (provided : List Text)

/-- A require is dropped if its namespace is provided, or if it repeats a statement already seen. -/
def IsDropped (seen : List Text) (x : Reading) : Prop := requiredName x ∈ provided ∨ x.text ∈ seen

instance (seen : List Text) (x : Reading) : Decidable (IsDropped provided seen x) :=
  inferInstanceAs (Decidable (_ ∨ _))

/-- The lines without those whose requires are dropped. -/
def keepLines : List Text → List Text → List Text
  | _, [] => []
  | seen, l :: ls =>
    match read l with
    | none => l :: keepLines seen ls
    | some x =>
      if IsDropped provided seen x then keepLines seen ls else l :: keepLines (x.text :: seen) ls

/-- The pieces of the requires that are dropped. -/
def droppedFound : List Text → List (Nat × Reading) → List (Nat × Nat)
  | _, [] => []
  | seen, (i, x) :: found =>
    if IsDropped provided seen x then (i, i + x.text.length) :: droppedFound seen found
    else droppedFound (x.text :: seen) found

end

theorem droppedSpans_eq (provided : List Text) {found : List Match} {required : List Require}
    (h : found.mapM readRequire = .ok required)
    (offsets : ∀ m ∈ found, m.stop.offset = m.start.offset + m.text.length) (seen : List Text) :
    droppedSpans provided seen (found.zip required) =
      droppedFound provided seen (found.map Match.found) := by
  induction found generalizing required seen with
  | nil => rfl
  | cons m found ih =>
    obtain ⟨r, rs, hr, hrs, rfl⟩ := mapM_cons_eq_ok h
    have name := (requireOf_eq_ok (readRequire_eq m ▸ hr)).1
    have span : m.span = (m.start.offset, m.start.offset + m.text.length) := by
      rw [← offsets m List.mem_cons_self, Match.span]
    have ih := fun seen => ih hrs (fun m hm => offsets m (List.mem_cons_of_mem _ hm)) seen
    simp only [List.zip_cons_cons, droppedSpans, List.map_cons, Match.found, droppedFound, name,
      span, IsDropped, ih, Match.reading]
    split <;> rename_i hr₁
    · simp [hr₁]
    · simp [hr₁]

/-! ## Removing the lines -/

/-- Spaces and tabs are counted, and a line break behind them. -/
theorem lineEndLength_append {w t : Text} (hw : w.all isSpaceOrTab = true)
    (ht : ∀ a ∈ t.head?, isSpaceOrTab a = false) :
    lineEndLength (w ++ t) = if t.head? = some '\n' then w.length + 1 else w.length := by
  simp only [lineEndLength, takeWhile_append_of_all hw ht, List.drop_left]

theorem isSpaceOrTab_newline : isSpaceOrTab '\n' = false := by decide

theorem lineEndLength_of_spaces {w rest : Text} (hw : w.all isSpaceOrTab = true) :
    lineEndLength (w ++ '\n' :: rest) = w.length + 1 := by
  rw [lineEndLength_append hw (by simp [isSpaceOrTab_newline])]
  rfl

theorem lineEndLength_of_all {w : Text} (hw : w.all isSpaceOrTab = true) :
    lineEndLength w = w.length := by
  have h := lineEndLength_append (t := []) hw (by simp)
  simpa using h

/-- What stands before the first piece is kept. -/
theorem removeSpansFrom_append {spans : List (Nat × Nat)} {offset : Nat} (piece rest : Text)
    (behind : ∀ span ∈ spans, offset + piece.length ≤ span.1 ∧ span.1 ≤ span.2) :
    removeSpansFrom offset (piece ++ rest) spans =
      piece ++ removeSpansFrom (offset + piece.length) rest spans := by
  cases spans with
  | nil => rfl
  | cons span spans =>
    obtain ⟨start, stop⟩ := span
    have h : offset + piece.length ≤ start := (behind _ List.mem_cons_self).1
    have h' : start ≤ stop := (behind _ List.mem_cons_self).2
    clear behind
    obtain ⟨k, rfl⟩ := Nat.exists_eq_add_of_le h
    obtain ⟨n, rfl⟩ := Nat.exists_eq_add_of_le h'
    have e₁ : offset + piece.length + k - offset = piece.length + k := by omega
    have e₂ : offset + piece.length + k + n - offset = piece.length + (k + n) := by omega
    have e₃ : offset + piece.length + k - (offset + piece.length) = k := by omega
    have e₄ : offset + piece.length + k + n - (offset + piece.length) = k + n := by omega
    have n₁ : ¬ offset + piece.length + k < offset := by omega
    have n₂ : ¬ offset + piece.length + k < offset + piece.length := by omega
    simp only [removeSpansFrom, if_neg n₁, if_neg n₂, e₁, e₂, e₃, e₄]
    rw [List.take_length_add_append, List.drop_length_add_append, List.append_assoc]

/-- The first piece is removed with the end of its line; what stands before it is kept. -/
theorem removeSpansFrom_piece (offset : Nat) (x piece rest : Text) (spans : List (Nat × Nat)) :
    removeSpansFrom offset (x ++ (piece ++ rest))
        ((offset + x.length, offset + x.length + piece.length) :: spans) =
      x ++ removeSpansFrom (offset + x.length + piece.length + lineEndLength rest)
        (rest.drop (lineEndLength rest)) spans := by
  have e : offset + x.length - offset = x.length := by omega
  have e' : offset + x.length + piece.length - offset = x.length + piece.length := by omega
  have behind : ¬ offset + x.length < offset := by omega
  simp only [removeSpansFrom, if_neg behind, e, e', List.take_left, List.drop_length_add_append,
    List.drop_left]

/-- A piece at the beginning of a line is removed with the line break. -/
theorem removeSpansFrom_line {spans : List (Nat × Nat)} {offset : Nat} {piece w rest : Text}
    (hw : w.all isSpaceOrTab = true) :
    removeSpansFrom offset (piece ++ w ++ '\n' :: rest) ((offset, offset + piece.length) :: spans) =
      removeSpansFrom (offset + ((piece ++ w).length + 1)) rest spans := by
  have h := removeSpansFrom_piece offset [] piece (w ++ '\n' :: rest) spans
  have e : offset + piece.length + (w.length + 1) = offset + ((piece ++ w).length + 1) := by
    rw [List.length_append]
    omega
  rw [lineEndLength_of_spaces hw, List.drop_length_add_append] at h
  rw [List.append_assoc, ← e]
  exact h

theorem removeSpansFrom_lastLine {offset : Nat} {piece w : Text} (hw : w.all isSpaceOrTab = true) :
    removeSpansFrom offset (piece ++ w) [(offset, offset + piece.length)] = [] := by
  have h := removeSpansFrom_piece offset [] piece w []
  rw [lineEndLength_of_all hw, List.drop_length] at h
  exact h

section

variable {read : Text → Option Reading} {provided : List Text}

theorem le_of_mem_foundFrom {offset : Nat} {ls : List Text} {found : Nat × Reading}
    (h : found ∈ foundFrom read offset ls) : offset ≤ found.1 := by
  fun_induction foundFrom read offset ls with
  | case1 => simp at h
  | case2 offset l ls ih =>
    rcases List.mem_append.1 h with h | h
    · obtain ⟨x, -, rfl⟩ := List.mem_map.1 h
      exact Nat.le_refl offset
    · have := ih h
      omega

theorem le_of_mem_droppedFound {seen : List Text} {found : List (Nat × Reading)} {offset : Nat}
    (behind : ∀ f ∈ found, offset ≤ f.1) :
    ∀ span ∈ droppedFound provided seen found, offset ≤ span.1 ∧ span.1 ≤ span.2 := by
  intro span h
  fun_induction droppedFound provided seen found with
  | case1 => simp at h
  | case2 seen i x found _ ih =>
    rcases List.mem_cons.1 h with rfl | h
    · exact ⟨behind _ List.mem_cons_self, Nat.le_add_right _ _⟩
    · exact ih (fun f hf => behind f (List.mem_cons_of_mem _ hf)) h
  | case3 seen i x found _ ih => exact ih (fun f hf => behind f (List.mem_cons_of_mem _ hf)) h

/-- **Removing the dropped requires keeps the other lines.** When the last line is dropped, an empty
one takes its place. -/
theorem exists_removeSpansFrom_eq (provided : List Text) {ls : List Text} (hne : ls ≠ [])
    (offset : Nat) (seen : List Text)
    (alone : ∀ l ∈ ls, ∀ x, read l = some x → ∃ w, l = x.text ++ w ∧ w.all isSpaceOrTab = true) :
    ∃ tail, (tail = [] ∨ tail = [[]]) ∧ ((∀ l ∈ ls.getLast?, read l = none) → tail = []) ∧
      keepLines read provided seen ls ++ tail ≠ [] ∧
      removeSpansFrom offset (Text.ofLines ls)
          (droppedFound provided seen (foundFrom read offset ls)) =
        Text.ofLines (keepLines read provided seen ls ++ tail) := by
  induction ls generalizing offset seen with
  | nil => exact absurd rfl hne
  | cons l ls ih =>
    have aloneFirst := alone l List.mem_cons_self
    have ih := fun hne offset seen =>
      ih hne offset seen fun l hl => alone l (List.mem_cons_of_mem _ hl)
    -- a line is kept in front of what is left of the lines behind it
    have kept (seen' : List Text) :
        ∃ tail, (tail = [] ∨ tail = [[]]) ∧
          ((∀ l' ∈ (l :: ls).getLast?, ls ≠ [] → read l' = none) → tail = []) ∧
          removeSpansFrom offset (Text.ofLines (l :: ls))
              (droppedFound provided seen' (foundFrom read (offset + (l.length + 1)) ls)) =
            Text.ofLines (l :: (keepLines read provided seen' ls ++ tail)) := by
      cases ls with
      | nil => exact ⟨[], Or.inl rfl, fun _ => rfl, rfl⟩
      | cons l' ls =>
        obtain ⟨tail, shape, last, nonempty, e⟩ := ih (by simp) (offset + (l.length + 1)) seen'
        refine ⟨tail, shape, fun h => last fun a ha => h a (by simpa using ha) (by simp), ?_⟩
        have split : Text.ofLines (l :: l' :: ls) = l ++ ['\n'] ++ Text.ofLines (l' :: ls) := by
          simp
        have length : (l ++ ['\n']).length = l.length + 1 := by simp
        rw [split, removeSpansFrom_append, length, e]
        · obtain ⟨a, as, ha⟩ := List.exists_cons_of_ne_nil nonempty
          simp [ha]
        · rw [length]
          exact le_of_mem_droppedFound fun f => le_of_mem_foundFrom
    cases hx : read l with
    | none =>
      obtain ⟨tail, shape, last, e⟩ := kept seen
      refine ⟨tail, shape, fun h => last fun a ha _ => h a ha, ?_⟩
      simp only [foundFrom, hx, keepLines, Option.toList_none, List.map_nil, List.nil_append]
      exact ⟨by simp, e⟩
    | some x =>
      obtain ⟨w, rfl, hw⟩ := aloneFirst x hx
      simp only [foundFrom, hx, keepLines, Option.toList_some, List.map_cons, List.map_nil,
        List.cons_append, List.nil_append, droppedFound]
      split
      · cases ls with
        | nil =>
          refine ⟨[[]], Or.inr rfl, fun h => ?_, by simp, ?_⟩
          · simp [hx] at h
          · exact removeSpansFrom_lastLine hw
        | cons l' ls =>
          obtain ⟨tail, shape, last, nonempty, e⟩ :=
            ih (by simp) (offset + ((x.text ++ w).length + 1)) seen
          refine ⟨tail, shape, fun h => last fun a ha => h a (by simpa using ha), nonempty, ?_⟩
          rw [Text.ofLines_cons_cons, removeSpansFrom_line hw, e]
      · obtain ⟨tail, shape, last, e⟩ := kept (x.text :: seen)
        exact ⟨tail, shape, fun h => last fun a ha _ => h a ha, by simp, e⟩

/-! ## What is kept -/

theorem keepLines_sublist (seen ls : List Text) : (keepLines read provided seen ls).Sublist ls := by
  fun_induction keepLines read provided seen ls with
  | case1 => exact List.Sublist.refl _
  | case2 seen l ls _ ih => exact ih.cons_cons l
  | case3 seen l ls x _ _ ih => exact ih.cons l
  | case4 seen l ls x _ _ ih => exact ih.cons_cons l

/-- The lines that are not read are all kept. -/
theorem filterMap_keepLines_of_none {α : Type} {g : Text → Option α} {ls : List Text}
    (h : ∀ l ∈ ls, ∀ x, read l = some x → g l = none) (seen : List Text) :
    (keepLines read provided seen ls).filterMap g = ls.filterMap g := by
  fun_induction keepLines read provided seen ls with
  | case1 => rfl
  | case2 seen l ls _ ih =>
    rw [List.filterMap_cons, List.filterMap_cons, ih fun l hl => h l (List.mem_cons_of_mem _ hl)]
  | case3 seen l ls x hx _ ih =>
    rw [List.filterMap_cons, h l List.mem_cons_self x hx,
      ih fun l hl => h l (List.mem_cons_of_mem _ hl)]
  | case4 seen l ls x hx _ ih =>
    rw [List.filterMap_cons, List.filterMap_cons, ih fun l hl => h l (List.mem_cons_of_mem _ hl)]

/-- Of the readings those stay that are not provided, the first one of each text. -/
theorem filterMap_keepLines (seen ls : List Text) :
    (keepLines read provided seen ls).filterMap read =
      (distinctBy Reading.text ((ls.filterMap read).filter (requiredName · ∉ provided))).filter
        (·.text ∉ seen) := by
  fun_induction keepLines read provided seen ls with
  | case1 => rfl
  | case2 seen l ls hx ih => rw [List.filterMap_cons, List.filterMap_cons, hx, ih]
  | case3 seen l ls x hx dropped ih =>
    rw [ih, List.filterMap_cons, hx, List.filter_cons]
    by_cases known : requiredName x ∈ provided
    · simp [known]
    · have repeated : x.text ∈ seen := dropped.resolve_left known
      simp only [known, not_false_eq_true, decide_true, if_true, distinctBy, List.filter_cons,
        repeated, not_true_eq_false, decide_false, Bool.false_eq_true, if_false,
        List.filter_filter]
      refine List.filter_congr fun y _ => ?_
      by_cases hy : y.text ∈ seen
      · simp [hy]
      · have other : y.text ≠ x.text := fun e => hy (e ▸ repeated)
        simp [hy, other]
  | case4 seen l ls x hx stays ih =>
    obtain ⟨unknown, new⟩ := not_or.1 stays
    rw [List.filterMap_cons, List.filterMap_cons, hx, ih, List.filter_cons]
    simp only [unknown, not_false_eq_true, decide_true, if_true, distinctBy, List.filter_cons, new,
      List.filter_filter]
    congr 1
    refine List.filter_congr fun y _ => ?_
    simp [not_or, Bool.and_comm]

/-! ## Keeping in two stages -/

/-- Lines dropped by a first stage need not be dropped again: a second stage that drops more comes
to the same. `seen'` are the statements that the first stage has seen. -/
theorem keepLines_keepLines_append {provided' : List Text} {ls : List Text}
    (unique : ∀ l ∈ ls, ∀ l' ∈ ls, ∀ x x', read l = some x → read l' = some x' →
      x.text = x'.text → x = x')
    (more : ∀ name ∈ provided, name ∈ provided') {seen seen' : List Text}
    (covered : ∀ l ∈ ls, ∀ x, read l = some x → x.text ∈ seen' → IsDropped provided' seen x)
    (rest : List Text) :
    keepLines read provided' seen (keepLines read provided seen' ls ++ rest) =
      keepLines read provided' seen (ls ++ rest) := by
  induction ls generalizing seen seen' with
  | nil => rfl
  | cons l ls ih =>
    have ih {seen seen' : List Text} := @ih
      (fun l hl l' hl' => unique l (List.mem_cons_of_mem _ hl) l' (List.mem_cons_of_mem _ hl'))
      seen seen'
    have coveredRest := fun l hl => covered l (List.mem_cons_of_mem _ hl)
    cases hx : read l with
    | none => simp only [keepLines, hx, List.cons_append, ih coveredRest]
    | some x =>
      -- the statement of the first line is seen now, and so are its repetitions
      have coveredBy {seen₂ : List Text} (sub : ∀ s ∈ seen, s ∈ seen₂)
          (first : IsDropped provided' seen₂ x) :
          ∀ l' ∈ ls, ∀ x', read l' = some x' → x'.text ∈ x.text :: seen' →
            IsDropped provided' seen₂ x' := by
        intro l' hl' x' hx' h
        rcases List.mem_cons.1 h with same | h
        · obtain rfl := unique l' (List.mem_cons_of_mem _ hl') l List.mem_cons_self x' x hx' hx same
          exact first
        · exact (coveredRest l' hl' x' hx' h).imp_right (sub _)
      simp only [keepLines, hx, List.cons_append]
      by_cases dropped : IsDropped provided seen' x
      · have dropped' : IsDropped provided' seen x := by
          rcases dropped with known | repeated
          · exact Or.inl (more _ known)
          · exact covered l List.mem_cons_self x hx repeated
        rw [if_pos dropped, if_pos dropped', ih coveredRest]
      · rw [if_neg dropped]
        simp only [keepLines, hx, List.cons_append]
        by_cases dropped' : IsDropped provided' seen x
        · rw [if_pos dropped', if_pos dropped', ih (coveredBy (fun _ h => h) dropped')]
        · rw [if_neg dropped', if_neg dropped', ih (coveredBy (fun _ h => List.mem_cons_of_mem _ h)
            (Or.inr List.mem_cons_self))]

/-- A first stage may also be taken over the lines behind some others. -/
theorem keepLines_append_keepLines {provided' : List Text} {front ls : List Text}
    (unique : ∀ l ∈ ls, ∀ l' ∈ ls, ∀ x x', read l = some x → read l' = some x' →
      x.text = x'.text → x = x')
    (more : ∀ name ∈ provided, name ∈ provided') (seen : List Text) :
    keepLines read provided' seen (front ++ keepLines read provided [] ls) =
      keepLines read provided' seen (front ++ ls) := by
  induction front generalizing seen with
  | nil =>
    simpa using keepLines_keepLines_append unique more (by simp) []
  | cons l front ih => simp only [List.cons_append, keepLines, ih]

end

end Modulize.Declaration
