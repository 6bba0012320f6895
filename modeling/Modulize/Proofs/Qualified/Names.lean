import Modulize.Proofs.Pattern.Lines
import Modulize.Proofs.Qualified.Spelling

/-!
# Segments and spelled names

The segments of a member are those of its namespace and one more (`segments_member`), and so are
its spellings (`Spells.concat`, `Spells.of_concat`). A spelling ends with the last segment
(`Spells.exists_last`).

A spelled name ends before some blanks and a character that does not go on with it (`EndsName`).
Two names that are spelled at the beginning of one text end before the same character
(`Spells.end_unique`).
-/

namespace Modulize.Qualified

open Pattern

variable {name member piece x y : Text}

/-! ## Segments -/

theorem dot_not_mem_of_isIdentifier {s : Text} (h : IsIdentifier s) : '.' ∉ s :=
  h.not_mem (by decide)

theorem segments_of_isIdentifier (h : IsIdentifier member) : segments member = [member] := by
  rw [segments, Text.splitOn_eq_splitOn]
  exact List.splitOn_eq_singleton (dot_not_mem_of_isIdentifier h)

theorem segments_member (h : IsIdentifier member) :
    segments (name ++ '.' :: member) = segments name ++ [member] := by
  rw [← segments_of_isIdentifier h]
  simp only [segments, Text.splitOn_eq_splitOn]
  exact List.splitOn_append_cons_self name member

theorem isNamespace_member (hn : IsNamespace name) (h : IsIdentifier member) :
    IsNamespace (name ++ '.' :: member) := by
  rw [IsNamespace, segments_member h]
  exact List.forall_mem_append.2 ⟨hn, List.forall_mem_singleton.2 h⟩

theorem lastSegment_member (h : IsIdentifier member) :
    lastSegment (name ++ '.' :: member) = member := by
  simp [lastSegment, segments_member h]

theorem lastSegment_mem (name : Text) : lastSegment name ∈ segments name := by
  rw [lastSegment, List.getLast?_eq_some_getLast (segments_ne_nil name)]
  exact List.getLast_mem _

theorem Clear.of_append (h : Clear (x ++ y)) : Clear x := by
  cases x with
  | nil => simp [Clear]
  | cons a x => exact h

/-! ## Spellings -/

/-- A spelling ends with the last segment, which comes after a dot if it is not the only one. -/
theorem Spells.exists_last {ss : List Text} (h : Spells ss piece) (hne : ss ≠ []) :
    ∃ p, piece = p ++ (ss.getLast?).getD [] ∧
      (p = [] ∨ ∃ p' b, p = p' ++ '.' :: b ∧ b.all isBlank = true) := by
  induction h with
  | nothing => exact absurd rfl hne
  | last s => exact ⟨[], rfl, Or.inl rfl⟩
  | @dot s s' ss gap piece hg h ih =>
    obtain ⟨p, rfl, hp⟩ := ih (by simp)
    obtain ⟨b, b', rfl, -, hb'⟩ := hg
    refine ⟨s ++ ((b ++ '.' :: b') ++ p), by simp, Or.inr ?_⟩
    rcases hp with rfl | ⟨p', b₂, rfl, hb₂⟩
    · exact ⟨s ++ b, b', by simp, hb'⟩
    · exact ⟨s ++ ((b ++ '.' :: b') ++ p'), b₂, by simp, hb₂⟩

/-- A single identifier spells one segment only. -/
theorem Spells.eq_singleton {ss : List Text} (h : Spells ss piece) (hne : ss ≠ [])
    (word : IsIdentifier piece) : ss = [piece] := by
  cases h with
  | nothing => exact absurd rfl hne
  | last => rfl
  | dot s hg h =>
    obtain ⟨b, b', rfl, -, -⟩ := hg
    exact absurd (by simp) (dot_not_mem_of_isIdentifier word)

/-- A member is spelled like its namespace, with a gap and its own name behind. -/
theorem Spells.concat {ss : List Text} {p g : Text} (h : Spells ss p) (hne : ss ≠ [])
    (hg : IsGap g) (s : Text) : Spells (ss ++ [s]) (p ++ (g ++ s)) := by
  induction h with
  | nothing => exact absurd rfl hne
  | last s' => exact .dot s' hg (.last s)
  | dot s' hg' h ih =>
    rw [List.append_assoc, List.append_assoc]
    exact .dot s' hg' (ih (by simp))

/-- A spelling of two rows of segments has a gap between them. -/
theorem Spells.of_append {ss ss' : List Text} {piece : Text} (hne : ss ≠ []) (hne' : ss' ≠ [])
    (h : Spells (ss ++ ss') piece) :
    ∃ p g p', piece = p ++ (g ++ p') ∧ IsGap g ∧ Spells ss p ∧ Spells ss' p' := by
  induction ss generalizing piece with
  | nil => exact absurd rfl hne
  | cons s₁ ss ih =>
    cases ss with
    | nil =>
      obtain ⟨s', ss', rfl⟩ := List.exists_cons_of_ne_nil hne'
      cases h with
      | dot _ hg h => exact ⟨s₁, _, _, rfl, hg, .last s₁, h⟩
    | cons s₂ ss =>
      cases h with
      | @dot _ _ _ gap _ hg h =>
        obtain ⟨p, g, p', rfl, hg', hp, hp'⟩ := ih (by simp) h
        exact ⟨s₁ ++ (gap ++ p), g, p', by simp, hg', .dot s₁ hg hp, hp'⟩

theorem Spells.of_concat {ss : List Text} {s piece : Text} (hne : ss ≠ [])
    (h : Spells (ss ++ [s]) piece) :
    ∃ p g, piece = p ++ (g ++ s) ∧ IsGap g ∧ Spells ss p := by
  obtain ⟨p, g, _, rfl, hg, hp, ⟨⟩⟩ := h.of_append hne (List.cons_ne_nil s [])
  exact ⟨p, g, rfl, hg, hp⟩

/-- A spelling consists of identifier characters, blanks and dots. -/
theorem Spells.all {ss : List Text} (h : Spells ss piece) (hss : ∀ s ∈ ss, IsIdentifier s) :
    (piece.all fun a => isIdent a || isBlank a || a == '.') = true := by
  have word {s : Text} (hs : IsIdentifier s) :
      (s.all fun a => isIdent a || isBlank a || a == '.') = true :=
    List.all_eq_true.2 fun a ha => by simp [List.all_eq_true.1 hs.2 a ha]
  have blank {b : Text} (hb : b.all isBlank = true) :
      (b.all fun a => isIdent a || isBlank a || a == '.') = true :=
    List.all_eq_true.2 fun a ha => by simp [List.all_eq_true.1 hb a ha]
  induction h with
  | nothing => rfl
  | last s => exact word (hss s List.mem_cons_self)
  | @dot s _ _ gap piece hg _ ih =>
    obtain ⟨b, b', rfl, hb, hb'⟩ := hg
    have rest := ih fun s hs => hss s (List.mem_cons_of_mem _ hs)
    simp only [List.all_append, List.all_cons, word (hss s List.mem_cons_self), blank hb,
      blank hb', rest]
    rfl

/-! ## The ends of spelled names -/

/-- Some blanks and a character that does not go on with a spelled name. -/
structure EndsName (b : Text) (c : Char) : Prop where
  blanks : b.all isBlank = true
  notBlank : isBlank c = false
  notDot : c ≠ '.'
  apart : b ≠ [] ∨ isIdent c = false

namespace EndsName

variable {b : Text} {c : Char}

theorem head_not_isIdent (h : EndsName b c) (r : Text) :
    ∀ a ∈ (b ++ c :: r).head?, isIdent a = false := by
  cases b with
  | nil =>
    have := h.apart.resolve_left fun hne => hne rfl
    simpa using this
  | cons a b =>
    have := isIdent_eq_false_of_isBlank (Bool.and_eq_true_iff.1 h.blanks).1
    simpa using this

theorem head_not_isBlank (h : EndsName b c) (r : Text) :
    ∀ a ∈ (c :: r).head?, isBlank a = false := by
  simpa using h.notBlank

theorem not_gap (h : EndsName b c) {g r t : Text} (hg : IsGap g) : b ++ c :: r ≠ g ++ t := by
  obtain ⟨b₁, b₂, rfl, hb₁, -⟩ := hg
  have dot : isBlank '.' = false := by decide
  intro e
  rw [List.append_assoc] at e
  obtain ⟨-, e⟩ := append_inj_of_all h.blanks hb₁ (h.head_not_isBlank r) (by simp [dot]) e
  exact h.notDot (List.cons.inj e).1

end EndsName

/-- **Two spelled names at the beginning of a text** end before the same character. -/
theorem Spells.end_unique {ss ss' : List Text} {p p' b b' r r' : Text} {c c' : Char}
    (h : Spells ss p) (h' : Spells ss' p') (words : ∀ s ∈ ss, IsIdentifier s)
    (words' : ∀ s ∈ ss', IsIdentifier s) (hne : ss ≠ []) (hne' : ss' ≠ []) (hc : EndsName b c)
    (hc' : EndsName b' c') (e : p ++ (b ++ c :: r) = p' ++ (b' ++ c' :: r')) : c = c' := by
  induction h generalizing ss' p' with
  | nothing => exact absurd rfl hne
  | last s =>
    have hs := (words s List.mem_cons_self).2
    cases h' with
    | nothing => exact absurd rfl hne'
    | last =>
      have hs' := (words' _ List.mem_cons_self).2
      obtain ⟨-, e⟩ :=
        append_inj_of_all hs hs' (hc.head_not_isIdent r) (hc'.head_not_isIdent r') e
      obtain ⟨-, e⟩ := append_inj_of_all hc.blanks hc'.blanks (hc.head_not_isBlank r)
        (hc'.head_not_isBlank r') e
      exact (List.cons.inj e).1
    | dot s' hg' h' =>
      have hs' := (words' _ List.mem_cons_self).2
      rw [List.append_assoc, List.append_assoc] at e
      obtain ⟨-, e⟩ :=
        append_inj_of_all hs hs' (hc.head_not_isIdent r) (hg'.head_not_isIdent _) e
      exact absurd e (hc.not_gap hg')
  | @dot s s₂ ss gap piece hg h ih =>
    have hs := (words s List.mem_cons_self).2
    rw [List.append_assoc, List.append_assoc] at e
    cases h' with
    | nothing => exact absurd rfl hne'
    | last =>
      have hs' := (words' _ List.mem_cons_self).2
      obtain ⟨-, e⟩ :=
        append_inj_of_all hs hs' (hg.head_not_isIdent _) (hc'.head_not_isIdent r') e
      exact absurd e.symm (hc'.not_gap hg)
    | @dot s' s₂' ss' gap' piece' hg' h' =>
      have hs' := (words' _ List.mem_cons_self).2
      have tail : ∀ t ∈ s₂ :: ss, IsIdentifier t := fun t ht => words t (List.mem_cons_of_mem _ ht)
      have tail' : ∀ t ∈ s₂' :: ss', IsIdentifier t := fun t ht =>
        words' t (List.mem_cons_of_mem _ ht)
      rw [List.append_assoc, List.append_assoc] at e
      obtain ⟨-, e⟩ :=
        append_inj_of_all hs hs' (hg.head_not_isIdent _) (hg'.head_not_isIdent _) e
      obtain ⟨-, e⟩ := append_inj_of_all hg.all_not_isIdent hg'.all_not_isIdent
        (h.head_isIdent (by simp) tail _) (h'.head_isIdent (by simp) tail' _) e
      exact ih h' tail tail' (by simp) (by simp) e

end Modulize.Qualified
