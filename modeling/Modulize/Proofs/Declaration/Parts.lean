import Mathlib.Data.List.Forall2
import Modulize.Proofs.Declaration.Lines
import Modulize.Proofs.Declaration.KeptLines
import Modulize.Proofs.Declaration.LocalName

/-!
# The parts of a merged text

A merged text consists of one part for each file, with one or two line breaks between neighbours
(`Woven`): the text of the file without the requires that were removed from it (`WithoutRequires`),
in which the local names bound by these requires are written out.

The pieces to remove are dealt with file by file (`exists_removeSpansFrom_file`,
`exists_woven_removeSpansFrom`); the line break behind a file goes with a require that ends the
file. Names are identifiers, so that they are written out part by part
(`Woven.map_foldl_requalify`), in the part of every file and not only in that of the file that
binds them (`mergeTexts_parts`, `mergeTexts_renames_variable`).
-/

namespace Modulize.Declaration

open Pattern Qualified

/-- A require with the blanks and the semicolon that belong to it. -/
def IsStatement (root piece : Text) : Prop :=
  ∃ target keyword name s tail, IsRequire root target keyword name s ∧ IsTail tail ∧
    piece = s ++ tail

/-- The second text is the first one without some requires, each removed with the end of its
line. -/
inductive WithoutRequires (root : Text) : Text → Text → Prop
  | nil : WithoutRequires root [] []
  | keep (a : Char) {t u : Text} (h : WithoutRequires root t u) :
      WithoutRequires root (a :: t) (a :: u)
  | drop {piece w e t u : Text} (hp : IsStatement root piece) (hw : w.all isSpaceOrTab = true)
      (he : e = [] ∨ e = ['\n']) (h : WithoutRequires root t u) :
      WithoutRequires root (piece ++ (w ++ (e ++ t))) u

/-- Parts one after another, with one or two line breaks between neighbours. -/
inductive Woven : List Text → Text → Prop
  | none : Woven [] []
  | last (part : Text) : Woven [part] part
  | one (part : Text) {parts : List Text} {t : Text} (hne : parts ≠ []) (h : Woven parts t) :
      Woven (part :: parts) (part ++ '\n' :: t)
  | two (part : Text) {parts : List Text} {t : Text} (hne : parts ≠ []) (h : Woven parts t) :
      Woven (part :: parts) (part ++ '\n' :: '\n' :: t)

theorem Woven.map_requalify {parts : List Text} {t name : Text} (h : Woven parts t)
    (hne : name ≠ []) (hname : '\n' ∉ name) (new : Text) :
    Woven (parts.map (requalify · (name, new))) (requalify t (name, new)) := by
  have empty : requalify [] (name, new) = [] :=
    (requalify_eq_self_iff hne new []).2
      (Or.inr (occursIn_eq_false_of_standsNowhere (standsNowhere_nil hne [])))
  induction h with
  | none =>
    rw [empty]
    exact .none
  | last part => exact .last _
  | one part hparts h ih =>
    rw [requalify_append hne hname]
    exact .one _ (by simpa using hparts) ih
  | @two part parts t hparts h ih =>
    have line : requalify ('\n' :: t) (name, new) = '\n' :: requalify t (name, new) := by
      have h := requalify_append hne hname new [] t
      rwa [empty] at h
    rw [requalify_append hne hname, line]
    exact .two _ (by simpa using hparts) ih

/-- Writing out names goes part by part. -/
theorem Woven.map_foldl_requalify {substitutions : List (Text × Text)} {parts : List Text}
    {t : Text} (h : Woven parts t) (names : ∀ s ∈ substitutions, s.1 ≠ [] ∧ '\n' ∉ s.1) :
    Woven (parts.map fun part => substitutions.foldl requalify part)
      (substitutions.foldl requalify t) := by
  induction substitutions generalizing parts t with
  | nil => simpa using h
  | cons s substitutions ih =>
    obtain ⟨hne, hname⟩ := names s List.mem_cons_self
    have rest := ih (h.map_requalify hne hname s.2) fun s hs => names s (List.mem_cons_of_mem _ hs)
    simpa [Function.comp_def] using rest

/-! ## Removing pieces from files -/

/-- The end of the line of a piece lies within its file, or is the line break behind the file. -/
theorem lineEndLength_cases {y rest : Text} (stop : AtBreak rest) :
    (∃ w e y', y = w ++ (e ++ y') ∧ w.all isSpaceOrTab = true ∧ (e = [] ∨ e = ['\n']) ∧
      lineEndLength (y ++ rest) = (w ++ e).length) ∨
    (∃ rest', y.all isSpaceOrTab = true ∧ rest = '\n' :: rest' ∧
      lineEndLength (y ++ rest) = y.length + 1) := by
  obtain ⟨w, y', rfl, hw, hy'⟩ : ∃ w y', y = w ++ y' ∧ w.all isSpaceOrTab = true ∧
      ∀ a ∈ y'.head?, isSpaceOrTab a = false := by
    refine ⟨_, _, List.takeWhile_append_dropWhile.symm, List.all_takeWhile, fun a ha => ?_⟩
    have := List.head?_dropWhile_not isSpaceOrTab y
    rw [ha] at this
    simpa using this
  cases y' with
  | nil =>
    rw [List.append_nil]
    cases rest with
    | nil =>
      refine Or.inl ⟨w, [], [], by simp, hw, Or.inl rfl, ?_⟩
      rw [List.append_nil]
      exact lineEndLength_of_all hw
    | cons a rest =>
      obtain rfl := stop a rfl
      exact Or.inr ⟨rest, hw, rfl, lineEndLength_of_spaces hw⟩
  | cons a y' =>
    rw [List.append_assoc, List.cons_append,
      lineEndLength_append hw (forall_head_cons (hy' a rfl) _)]
    by_cases ha : a = '\n'
    · subst ha
      exact Or.inl ⟨w, ['\n'], y', rfl, hw, Or.inr rfl, by simp⟩
    · exact Or.inl ⟨w, [], a :: y', rfl, hw, Or.inl rfl, by simp [ha]⟩

theorem WithoutRequires.refl (root t : Text) : WithoutRequires root t t := by
  induction t with
  | nil => exact .nil
  | cons a t ih => exact .keep a ih

theorem WithoutRequires.append {root t u : Text} (x : Text) (h : WithoutRequires root t u) :
    WithoutRequires root (x ++ t) (x ++ u) := by
  induction x with
  | nil => exact h
  | cons a x ih => exact .keep a ih

/-- Pieces that begin before a place are passed over. -/
theorem removeSpansFrom_of_before {own others : List (Nat × Nat)} {offset : Nat} {rest : Text}
    (before : ∀ span ∈ own, span.1 < offset) :
    removeSpansFrom offset rest (own ++ others) = removeSpansFrom offset rest others := by
  induction own with
  | nil => rfl
  | cons span own ih =>
    obtain ⟨start, stop⟩ := span
    have h : start < offset := before _ List.mem_cons_self
    rw [List.cons_append, removeSpansFrom, if_pos h]
    exact ih fun span hs => before span (List.mem_cons_of_mem _ hs)

/-- The piece of a text at a place counted from `offset`. -/
def pieceAt (offset : Nat) (t : Text) (span : Nat × Nat) : Text :=
  (t.drop (span.1 - offset)).take (span.2 - span.1)

theorem pieceAt_append {offset : Nat} (x t : Text) {span : Nat × Nat}
    (h : offset + x.length ≤ span.1) :
    pieceAt offset (x ++ t) span = pieceAt (offset + x.length) t span := by
  obtain ⟨k, hk⟩ := Nat.exists_eq_add_of_le h
  have e : span.1 - offset = x.length + k := by omega
  have e' : span.1 - (offset + x.length) = k := by omega
  rw [pieceAt, pieceAt, e, e', List.drop_length_add_append]

/-- A piece that ends within a text is a piece of it. -/
theorem pieceAt_append_of_le {offset : Nat} (x t : Text) {span : Nat × Nat} (h : offset ≤ span.1)
    (h' : span.1 ≤ span.2) (h'' : span.2 ≤ offset + x.length) :
    pieceAt offset (x ++ t) span = pieceAt offset x span := by
  have hd : span.1 - offset ≤ x.length := by omega
  have ht : span.2 - span.1 ≤ (x.drop (span.1 - offset)).length := by
    rw [List.length_drop]
    omega
  rw [pieceAt, pieceAt, List.drop_append_of_le_length hd, List.take_append_of_le_length ht]

/-- A text around the piece at a place. -/
theorem exists_pieceAt {offset : Nat} {t : Text} {start finish : Nat} (h : offset ≤ start)
    (h' : start ≤ finish) (h'' : finish ≤ offset + t.length) :
    ∃ x y, t = x ++ (pieceAt offset t (start, finish) ++ y) ∧ start = offset + x.length ∧
      finish = start + (pieceAt offset t (start, finish)).length := by
  refine ⟨t.take (start - offset), (t.drop (start - offset)).drop (finish - start), ?_, ?_, ?_⟩
  · rw [pieceAt, List.take_append_drop, List.take_append_drop]
  · rw [List.length_take]
    omega
  · rw [pieceAt, List.length_take, List.length_drop]
    omega

/-- Removing the pieces of one file, which stands before the line break that begins `rest` or at the
end of the text. The line break may be removed as well. -/
theorem exists_removeSpansFrom_file {root : Text} {own : List (Nat × Nat)} {offset : Nat}
    {t rest : Text} (stop : AtBreak rest) (others : List (Nat × Nat))
    (inside : ∀ span ∈ own, span.1 ≤ span.2 ∧ span.2 ≤ offset + t.length)
    (statements : ∀ span ∈ own, offset ≤ span.1 → IsStatement root (pieceAt offset t span))
    (behind : ∀ span ∈ others, offset + t.length ≤ span.1 ∧ span.1 ≤ span.2) :
    ∃ part e rest', WithoutRequires root t part ∧ rest = e ++ rest' ∧ (e = [] ∨ e = ['\n']) ∧
      removeSpansFrom offset (t ++ rest) (own ++ others) =
        part ++ removeSpansFrom (offset + t.length + e.length) rest' others := by
  induction own generalizing offset t with
  | nil =>
    refine ⟨t, [], rest, .refl root t, rfl, Or.inl rfl, ?_⟩
    rw [List.nil_append, removeSpansFrom_append t rest behind]
    rfl
  | cons span own ih =>
    obtain ⟨start, finish⟩ := span
    have insideRest : ∀ span ∈ own, span.1 ≤ span.2 ∧ span.2 ≤ offset + t.length :=
      fun span hs => inside span (List.mem_cons_of_mem _ hs)
    have statementsRest : ∀ span ∈ own,
        offset ≤ span.1 → IsStatement root (pieceAt offset t span) :=
      fun span hs => statements span (List.mem_cons_of_mem _ hs)
    by_cases before : start < offset
    · rw [List.cons_append, removeSpansFrom, if_pos before]
      exact ih insideRest statementsRest behind
    · have statement := statements _ List.mem_cons_self (Nat.not_lt.1 before)
      obtain ⟨ordered, finished⟩ := inside _ List.mem_cons_self
      obtain ⟨x, y, e, hstart, hfinish⟩ := exists_pieceAt (Nat.not_lt.1 before) ordered finished
      generalize pieceAt offset t (start, finish) = piece at statement e hfinish
      subst e hstart hfinish
      rw [List.cons_append, List.append_assoc, List.append_assoc, removeSpansFrom_piece]
      rcases lineEndLength_cases (y := y) stop with
        ⟨w, e, y', rfl, hw, he, hn⟩ | ⟨rest', hy, rfl, hn⟩
      · -- the line of the piece ends within the file
        have left : (w ++ (e ++ y') ++ rest).drop (w ++ e).length = y' ++ rest := by
          simp [List.drop_append]
        have whole : x ++ (piece ++ (w ++ (e ++ y'))) = (x ++ (piece ++ (w ++ e))) ++ y' := by simp
        have past : offset + x.length + piece.length + (w ++ e).length =
            offset + (x ++ (piece ++ (w ++ e))).length := by
          simp only [List.length_append]
          omega
        have statementsLeft : ∀ span ∈ own,
            offset + (x ++ (piece ++ (w ++ e))).length ≤ span.1 →
              IsStatement root (pieceAt (offset + (x ++ (piece ++ (w ++ e))).length) y' span) := by
          intro span hs within
          rw [← pieceAt_append _ _ within, ← whole]
          exact statementsRest span hs (by omega)
        have total : offset + (x ++ (piece ++ (w ++ (e ++ y')))).length =
            offset + (x ++ (piece ++ (w ++ e))).length + y'.length := by
          rw [whole, List.length_append, Nat.add_assoc]
        rw [total] at insideRest behind ⊢
        rw [hn, left, past]
        obtain ⟨part, e', rest', hpart, hrest, he', removed⟩ := ih insideRest statementsLeft behind
        refine ⟨x ++ part, e', rest', (WithoutRequires.drop statement hw he hpart).append x, hrest,
          he', ?_⟩
        rw [removed, List.append_assoc]
      · -- the line of the piece ends behind the file
        have nothing : WithoutRequires root (piece ++ (y ++ ([] ++ []))) [] :=
          .drop statement hy (Or.inl rfl) .nil
        have left : (y ++ '\n' :: rest').drop (y.length + 1) = rest' := by
          simp [List.drop_append]
        have past : offset + x.length + piece.length + (y.length + 1) =
            offset + (x ++ (piece ++ y)).length + 1 := by
          simp only [List.length_append]
          omega
        have passed : ∀ span ∈ own, span.1 < offset + (x ++ (piece ++ y)).length + 1 := by
          intro span hs
          have := insideRest span hs
          omega
        rw [hn, left, past, removeSpansFrom_of_before passed]
        exact ⟨x, ['\n'], rest', by simpa using nothing.append x, rfl, Or.inr rfl, rfl⟩

/-- The places of some files in the text of all of them, when the first one begins at `offset`. -/
def regions (offset : Nat) : List Text → List (Nat × Nat)
  | [] => []
  | t :: texts => (offset, offset + t.length) :: regions (offset + (t.length + 2)) texts

theorem le_of_mem_regions {texts : List Text} {offset : Nat} {region : Nat × Nat}
    (h : region ∈ regions offset texts) : offset ≤ region.1 := by
  induction texts generalizing offset with
  | nil => cases h
  | cons t texts ih =>
    rcases List.mem_cons.1 h with rfl | h
    · exact Nat.le_refl offset
    · have := ih h
      omega

/-- Pieces in order are taken apart at a place. -/
theorem exists_split_of_pairwise {spans : List (Nat × Nat)}
    (ordered : spans.Pairwise fun a b => a.1 ≤ b.1) (n : Nat) :
    ∃ own others, spans = own ++ others ∧ (∀ span ∈ own, span.1 ≤ n) ∧
      ∀ span ∈ others, n < span.1 := by
  induction ordered with
  | nil => exact ⟨[], [], rfl, by simp, by simp⟩
  | @cons span spans first _ ih =>
    by_cases h : span.1 ≤ n
    · obtain ⟨own, others, rfl, before, behind⟩ := ih
      exact ⟨span :: own, others, rfl, by simpa [h] using before, behind⟩
    · refine ⟨[], span :: spans, rfl, by simp, fun span' hs => ?_⟩
      rcases List.mem_cons.1 hs with rfl | hs
      · omega
      · have := first span' hs
        omega

/-- Pieces that lie within files are those of the first file and those of the files behind it. -/
theorem exists_split_of_regions {t : Text} {texts : List Text} {spans : List (Nat × Nat)}
    {offset : Nat} (ordered : spans.Pairwise fun a b => a.1 ≤ b.1)
    (inside : ∀ span ∈ spans, span.1 ≤ span.2 ∧
      ∃ region ∈ regions offset (t :: texts), region.1 ≤ span.1 ∧ span.2 ≤ region.2) :
    ∃ own others, spans = own ++ others ∧
      (∀ span ∈ own, offset ≤ span.1 ∧ span.1 ≤ span.2 ∧ span.2 ≤ offset + t.length) ∧
      ∀ span ∈ others, span.1 ≤ span.2 ∧
        ∃ region ∈ regions (offset + (t.length + 2)) texts,
          region.1 ≤ span.1 ∧ span.2 ≤ region.2 := by
  obtain ⟨own, others, rfl, before, behind⟩ :=
    exists_split_of_pairwise ordered (offset + t.length)
  refine ⟨own, others, rfl, fun span hs => ?_, fun span hs => ?_⟩
  · obtain ⟨hle, region, hregion, h₁, h₂⟩ := inside span (List.mem_append_left _ hs)
    rcases List.mem_cons.1 hregion with rfl | hregion
    · exact ⟨h₁, hle, h₂⟩
    · have := le_of_mem_regions hregion
      have := before span hs
      omega
  · obtain ⟨hle, region, hregion, h₁, h₂⟩ := inside span (List.mem_append_right _ hs)
    rcases List.mem_cons.1 hregion with rfl | hregion
    · have := behind span hs
      simp only at h₁ h₂
      omega
    · exact ⟨hle, region, hregion, h₁, h₂⟩

/-- A part stands before the other ones if at most the first of the two line breaks between them has
been removed. -/
theorem Woven.cons_removeSpansFrom {part e more rest : Text} {parts : List Text}
    {spans : List (Nat × Nat)} {offset : Nat} (nonempty : parts ≠ [])
    (h : Woven parts (removeSpansFrom (offset + 2) more spans))
    (behind : ∀ span ∈ spans, offset + 2 ≤ span.1 ∧ span.1 ≤ span.2) (he : e = [] ∨ e = ['\n'])
    (hrest : '\n' :: '\n' :: more = e ++ rest) :
    Woven (part :: parts) (part ++ removeSpansFrom (offset + e.length) rest spans) := by
  rcases he with rfl | rfl
  · obtain rfl : '\n' :: '\n' :: more = rest := hrest
    have two := removeSpansFrom_append ['\n', '\n'] more behind
    simp only [List.cons_append, List.nil_append] at two
    rw [List.length_nil, Nat.add_zero, two]
    exact .two part nonempty h
  · obtain rfl : '\n' :: more = rest := (List.cons.inj hrest).2
    have one : removeSpansFrom (offset + 1) (['\n'] ++ more) spans = _ :=
      removeSpansFrom_append ['\n'] more behind
    simp only [List.cons_append, List.nil_append] at one
    rw [List.length_singleton, one]
    exact .one part nonempty h

/-- **Removing pieces that lie within files** leaves a part of every file. -/
theorem exists_woven_removeSpansFrom {root : Text} {texts : List Text} {spans : List (Nat × Nat)}
    {offset : Nat} (ordered : spans.Pairwise fun a b => a.1 ≤ b.1)
    (inside : ∀ span ∈ spans, span.1 ≤ span.2 ∧
      ∃ region ∈ regions offset texts, region.1 ≤ span.1 ∧ span.2 ≤ region.2)
    (statements : ∀ span ∈ spans,
      IsStatement root (pieceAt offset (Text.joinWith "\n\n" texts) span)) :
    ∃ parts, List.Forall₂ (WithoutRequires root) texts parts ∧
      Woven parts (removeSpansFrom offset (Text.joinWith "\n\n" texts) spans) := by
  induction texts generalizing spans offset with
  | nil =>
    cases spans with
    | nil => exact ⟨[], .nil, .none⟩
    | cons span spans =>
      obtain ⟨-, region, hregion, -⟩ := inside span List.mem_cons_self
      cases hregion
  | cons t texts ih =>
    obtain ⟨own, others, rfl, insideOwn, insideOthers⟩ := exists_split_of_regions ordered inside
    cases texts with
    | nil =>
      cases others with
      | nil =>
        have statementsOwn : ∀ span ∈ own, offset ≤ span.1 →
            IsStatement root (pieceAt offset t span) :=
          fun span hs _ => statements span (List.mem_append_left _ hs)
        obtain ⟨part, e, rest', hpart, hrest, -, removed⟩ :=
          exists_removeSpansFrom_file atBreak_nil [] (fun span hs => (insideOwn span hs).2)
            statementsOwn (by simp)
        obtain ⟨rfl, rfl⟩ := List.append_eq_nil_iff.1 hrest.symm
        refine ⟨[part], .cons hpart .nil, ?_⟩
        simp only [List.append_nil, removeSpansFrom] at removed
        rw [Text.joinWith, List.append_nil, removed]
        exact .last part
      | cons span others =>
        obtain ⟨-, region, hregion, -⟩ := insideOthers span List.mem_cons_self
        cases hregion
    | cons t' texts =>
      generalize hm : Text.joinWith "\n\n" (t' :: texts) = more at ih
      have joined : Text.joinWith "\n\n" (t :: t' :: texts) = t ++ '\n' :: '\n' :: more := by
        rw [← hm]
        simp [Text.joinWith]
      rw [joined] at statements ⊢
      have next : ∀ span ∈ others, offset + t.length + 2 ≤ span.1 ∧ span.1 ≤ span.2 := by
        intro span hs
        obtain ⟨hle, region, hregion, h₁, -⟩ := insideOthers span hs
        have := le_of_mem_regions hregion
        omega
      have statementsOwn : ∀ span ∈ own, offset ≤ span.1 →
          IsStatement root (pieceAt offset t span) := by
        intro span hs hle
        obtain ⟨-, ordered, finished⟩ := insideOwn span hs
        rw [← pieceAt_append_of_le t ('\n' :: '\n' :: more) hle ordered finished]
        exact statements span (List.mem_append_left _ hs)
      have statementsOthers : ∀ span ∈ others,
          IsStatement root (pieceAt (offset + t.length + 2) more span) := by
        intro span hs
        have h := statements span (List.mem_append_right _ hs)
        have := (next span hs).1
        have breaks : pieceAt (offset + t.length) (['\n', '\n'] ++ more) span = _ :=
          pieceAt_append ['\n', '\n'] more this
        rw [pieceAt_append t _ (by omega)] at h
        exact breaks ▸ h
      obtain ⟨part, e, rest', hpart, hrest, he, removed⟩ :=
        exists_removeSpansFrom_file (atBreak_newline ('\n' :: more)) others
          (fun span hs => (insideOwn span hs).2) statementsOwn
          fun span hs => by have := next span hs; omega
      obtain ⟨parts, hparts, woven⟩ :=
        ih (List.pairwise_append.1 ordered).2.1 insideOthers statementsOthers
      have nonempty : parts ≠ [] := by
        rintro rfl
        cases hparts
      refine ⟨part :: parts, .cons hpart hparts, ?_⟩
      rw [removed]
      exact woven.cons_removeSpansFrom nonempty next he hrest

/-! ## Requires and what they bind -/

theorem droppedSpans_sublist (provided : List Text) (seen : List Text)
    (found : List (Match × Require)) :
    (droppedSpans provided seen found).Sublist (found.map fun f => f.1.span) := by
  fun_induction droppedSpans provided seen found with
  | case1 => exact List.Sublist.refl _
  | case2 seen m r rest _ ih => exact ih.cons_cons _
  | case3 seen m r rest _ _ ih => exact ih.cons_cons _
  | case4 seen m r rest _ _ ih => exact ih.cons _

theorem pieceAt_span {r : Pattern} {t : Text} {m : Match} (h : m ∈ r.allMatches t) :
    pieceAt 0 t m.span = m.text := by
  rw [Match.text, Cursor.textTo, ← (mem_allMatches h).1.drop]
  rfl

/-- A match of a require header is a require with its tail. -/
theorem exists_isRequire_of_mem_allMatches {root t : Text} {m : Match}
    (h : m ∈ (requireHeader root).allMatches t) :
    ∃ target keyword name s tail, IsRequire root target keyword name s ∧ IsTail tail ∧
      m.reading = ⟨s ++ tail, requireNotes target keyword name⟩ := by
  obtain ⟨-, groups, hstop⟩ := mem_allMatches h
  obtain ⟨target, keyword, name, s, tail, hs, htail, reads, noted⟩ := exists_isRequire hstop
  have none : m.start.noted = [] := by rw [Cursor.noted, groups, List.map_nil]
  rw [none, List.append_nil] at noted
  exact ⟨target, keyword, name, s, tail, hs, htail,
    by rw [Match.reading, noted, Match.text, reads.textTo]⟩

theorem isIdentifier_of_readEntry {t : Text} {entry : ExportEntry} (h : readEntry t = .ok entry) :
    IsIdentifier entry.internal := by
  obtain ⟨external, internal, h⟩ : ∃ external internal,
      (if isIdentifier external && isIdentifier internal then Except.ok ⟨external, internal⟩
        else .error (Failure.exportEntry t.trim)) = Except.ok entry := by
    unfold readEntry at h
    split at h
    exact ⟨_, _, h⟩
  split at h
  · rename_i both
    obtain rfl := Except.ok.inj h
    have identifier := (Bool.and_eq_true_iff.1 both).2
    simpa [isIdentifier, IsIdentifier] using identifier
  · cases h

/-- The names that a require binds are identifiers. -/
theorem isIdentifier_of_mem_boundNames {root t : Text} {m : Match}
    (h : m ∈ (requireHeader root).allMatches t) {r : Require} (hr : readRequire m = .ok r)
    {name new : Text} (hn : (name, new) ∈ boundNames r) : IsIdentifier name := by
  obtain ⟨target, keyword, _, s, tail, hs, -, reading⟩ := exists_isRequire_of_mem_allMatches h
  have hgroup : m.reading.group? 1 = target := by
    rw [reading]
    cases target <;> rfl
  rw [readRequire_eq] at hr
  have binding := (requireOf_eq_ok hr).2.2
  rw [hgroup] at binding
  unfold boundNames at hn
  generalize r.binding = bound at binding hn
  unfold readBinding at binding
  split at binding
  · rw [← Except.ok.inj binding] at hn
    cases hn
  · simp only at binding
    generalize Text.trim (Text.dropEndWhile _ _) = inner at binding
    split at binding
    · cases binding
    · cases he : readEntry inner with
      | error f => simp [he, Except.map] at binding
      | ok entry =>
        simp only [he, Except.map] at binding
        rw [← Except.ok.inj binding] at hn
        obtain ⟨rfl, rfl⟩ := Prod.mk.inj (List.mem_singleton.1 hn)
        exact isIdentifier_of_readEntry he
  · rename_i notBraces
    rw [← Except.ok.inj binding] at hn
    obtain ⟨rfl, rfl⟩ := Prod.mk.inj (List.mem_singleton.1 hn)
    obtain ⟨opening, call, ho, -⟩ := hs
    rcases (ho : IsBinder name opening).1 with ⟨inner, -, rfl⟩ | identifier
    · exact absurd rfl (notBraces _)
    · exact identifier

/-! ## The parts -/

/-- The local names that the requires of what some files provide bind in these files, with the
dotted names that are written out for them. -/
def substitutions (root : Text) (texts : List Text) : List (Text × Text) :=
  let t := Text.joinWith "\n\n" texts
  let provided := (bareProvides root t).map Provide.name
  match requires root t with
  | .ok required => (required.filter (·.name ∈ provided)).flatMap boundNames
  | .error _ => []

/-- Every require of the text of all files lies within one of the files. -/
def RequiresWithinFiles (root : Text) (texts : List Text) : Prop :=
  ∀ m ∈ (requireHeader root).allMatches (Text.joinWith "\n\n" texts),
    ∃ region ∈ regions 0 texts, region.1 ≤ m.start.offset ∧ m.stop.offset ≤ region.2

instance (root : Text) (texts : List Text) : Decidable (RequiresWithinFiles root texts) :=
  inferInstanceAs (Decidable (∀ m ∈ _, _))

/-- The requires of provided namespaces and the repeated ones are removed from their files. -/
theorem exists_woven_removeSpans {root : Text} {texts : List Text} {required : List Require}
    (read : requires root (Text.joinWith "\n\n" texts) = .ok required)
    (within : RequiresWithinFiles root texts) (provided : List Text) :
    ∃ parts, List.Forall₂ (WithoutRequires root) texts parts ∧
      Woven parts (removeSpans (Text.joinWith "\n\n" texts) (droppedSpans provided []
        (((requireHeader root).allMatches (Text.joinWith "\n\n" texts)).zip required))) := by
  have length := length_of_mapM_eq_ok read
  generalize hfound : (requireHeader root).allMatches (Text.joinWith "\n\n" texts) = found
    at length ⊢
  have spans : (found.zip required).map (fun f => f.1.span) = found.map Match.span := by
    have first := List.map_fst_zip (Nat.le_of_eq length.symm)
    conv_rhs => rw [← first, List.map_map]
    rfl
  have sub := droppedSpans_sublist provided [] (found.zip required)
  rw [spans] at sub
  have ordered : (found.map Match.span).Pairwise fun a b => a.1 ≤ b.1 := by
    rw [List.pairwise_map, ← hfound]
    exact pairwise_start_matchesFrom _ _ _ _ _
  refine exists_woven_removeSpansFrom (ordered.sublist sub) (fun span hs => ?_) fun span hs => ?_
  · obtain ⟨m, hm, rfl⟩ := List.mem_map.1 (sub.subset hs)
    rw [← hfound] at hm
    have stop := stop_offset_of_mem_allMatches hm
    exact ⟨by simp only [Match.span]; omega, within m hm⟩
  · obtain ⟨m, hm, rfl⟩ := List.mem_map.1 (sub.subset hs)
    rw [← hfound] at hm
    obtain ⟨target, keyword, name, s, tail, hs, htail, reading⟩ :=
      exists_isRequire_of_mem_allMatches hm
    exact ⟨target, keyword, name, s, tail, hs, htail,
      (pieceAt_span hm).trans (congrArg Reading.text reading)⟩

/-- The local names are identifiers. -/
theorem isIdentifier_of_mem_substitutions {root : Text} {texts : List Text} {s : Text × Text}
    (h : s ∈ substitutions root texts) : IsIdentifier s.1 := by
  cases read : requires root (Text.joinWith "\n\n" texts) with
  | error f => simp only [substitutions, read, List.not_mem_nil] at h
  | ok required =>
    simp only [substitutions, read] at h
    obtain ⟨r, hr, hs⟩ := List.mem_flatMap.1 h
    obtain ⟨m, hm, hmr⟩ := exists_of_mem_mapM read (List.mem_of_mem_filter hr)
    exact isIdentifier_of_mem_boundNames hm hmr hs

theorem not_mem_newline {name : Text} (h : IsIdentifier name) : '\n' ∉ name := by
  have newline : isIdent '\n' = false := by decide
  intro hn
  simp [List.all_eq_true.1 h.2 _ hn] at newline

/-- **Whose text the names of a file change.** If no require reaches beyond its file, a merged text
consists of one part for each file: the text of the file without some requires, in which the local
names bound by the requires of all files are written out one after the other. A step changes exactly
the parts in which its name stands at that time. -/
theorem mergeTexts_parts {root : Text} {texts : List Text} {merged : Text}
    (merge : mergeTexts root texts = .ok merged) (within : RequiresWithinFiles root texts) :
    ∃ parts, List.Forall₂ (WithoutRequires root) texts parts ∧
      Woven (parts.map fun part => (substitutions root texts).foldl requalify part) merged ∧
      ∀ before name new after, substitutions root texts = before ++ (name, new) :: after →
        ∀ part ∈ parts,
          (requalify (before.foldl requalify part) (name, new) = before.foldl requalify part ↔
            name = new ∨ (localName name).occursIn (before.foldl requalify part) = false) := by
  obtain ⟨required, read, merge⟩ := bind_eq_ok merge
  have read : requires root (Text.joinWith "\n\n" texts) = .ok required := read
  obtain ⟨parts, hparts, woven⟩ := exists_woven_removeSpans read within
    ((bareProvides root (Text.joinWith "\n\n" texts)).map Provide.name)
  have subs : substitutions root texts =
      (required.filter (·.name ∈ (bareProvides root (Text.joinWith "\n\n" texts)).map
        Provide.name)).flatMap boundNames := by
    simp only [substitutions, read]
  refine ⟨parts, hparts, ?_, fun before name new after split part _ => ?_⟩
  · rw [← Except.ok.inj merge, ← subs]
    refine woven.map_foldl_requalify fun s hs => ?_
    have identifier := isIdentifier_of_mem_substitutions hs
    exact ⟨identifier.1, not_mem_newline identifier⟩
  · have identifier : IsIdentifier name :=
      isIdentifier_of_mem_substitutions (split ▸ List.mem_append_right _ List.mem_cons_self)
    exact requalify_eq_self_iff identifier.1 new _

/-- A file that requires another one under an alias. -/
def aliasFile : Text := "const B = goog.require('b.B');\nnew B();\n"

/-- The file that provides what is required. -/
def providingFile : Text := "goog.provide('b.B');\nb.B = 1;\n"

/-- A file with a variable that has the name of the alias. -/
def variableFile : Text := "goog.provide('c.C');\nvar B = 2;\n"

theorem substitutions_files :
    substitutions "goog" [aliasFile, providingFile] = [(("B" : Text), ("b.B" : Text))] := by
  decide +kernel

/-- The parts of two files, of which the first one requires the second one. -/
theorem mergeTexts_parts_files :
    ∃ parts, List.Forall₂ (WithoutRequires "goog") [aliasFile, providingFile] parts ∧
      Woven (parts.map (requalify · (("B" : Text), ("b.B" : Text))))
        ("new b.B();\n\n\ngoog.provide('b.B');\nb.B = 1;\n" : Text) ∧
      ∀ part ∈ parts, (requalify part (("B" : Text), ("b.B" : Text)) = part ↔
        (localName "B").occursIn part = false) := by
  have merge : mergeTexts "goog" [aliasFile, providingFile] =
      .ok ("new b.B();\n\n\ngoog.provide('b.B');\nb.B = 1;\n" : Text) := by rfl
  obtain ⟨parts, hparts, woven, steps⟩ := mergeTexts_parts merge (by decide +kernel)
  rw [substitutions_files] at woven steps
  refine ⟨parts, hparts, woven, fun part hp => ?_⟩
  have other : ("B" : Text) ≠ "b.B" := by decide
  have step := steps [] "B" "b.B" [] rfl part hp
  simpa [other] using step

/-- **An alias reaches other files.** The third file requires nothing, but its variable is renamed
to the namespace that the alias of the first file stands for. -/
theorem mergeTexts_renames_variable :
    (requireHeader "goog").allMatches variableFile = [] ∧
      mergeTexts "goog" [aliasFile, providingFile, variableFile] =
        .ok ("new b.B();\n\n\ngoog.provide('b.B');\nb.B = 1;\n\n\n" ++
          ("goog.provide('c.C');\nvar b.B = 2;\n" : Text)) ∧
      variableFile ≠ ("goog.provide('c.C');\nvar b.B = 2;\n" : Text) := by
  refine ⟨?_, by rfl, by decide⟩
  exact allMatches_eq_nil (by decide +kernel)

end Modulize.Declaration
