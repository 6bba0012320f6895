import Modulize.Class.Convert
import Modulize.Proofs.Collections
import Modulize.Proofs.Text
import Modulize.Proofs.Pattern.Ends

/-!
# Applied edits

Of edits in the order of their beginnings, an edit is applied exactly when no other applied edit
covers the place where it begins (`mem_accepted_iff`); so applied edits follow each other
(`accepted_pairwise`). The text of an applied edit occurs in the result (`infix_applyFrom`) when it
begins with a character that is not taken for a blank line behind an earlier deletion.
-/

namespace Modulize.Class.Edit

open Pattern

/-! ## Which edits are applied -/

theorem le_start_of_mem_accepted {free : Nat} {es : List Edit} {e : Edit}
    (spans : ∀ e ∈ es, e.start ≤ e.stop) (h : e ∈ accepted free es) : free ≤ e.start := by
  induction es generalizing free with
  | nil => cases h
  | cons a es ih =>
    obtain ⟨ha, spans⟩ := List.forall_mem_cons.1 spans
    unfold accepted at h
    split at h
    · exact ih spans h
    · rcases List.mem_cons.1 h with rfl | h
      · omega
      · have := ih spans h
        omega

/-- Every applied edit ends before the later ones begin. -/
theorem accepted_pairwise {free : Nat} {es : List Edit} (spans : ∀ e ∈ es, e.start ≤ e.stop) :
    (accepted free es).Pairwise fun a b => a.stop ≤ b.start := by
  induction es generalizing free with
  | nil => exact List.Pairwise.nil
  | cons e es ih =>
    obtain ⟨-, spans⟩ := List.forall_mem_cons.1 spans
    unfold accepted
    split
    · exact ih spans
    · exact List.pairwise_cons.2 ⟨fun b hb => le_start_of_mem_accepted spans hb, ih spans⟩

/-- The edit covers an offset. -/
def covers (e : Edit) (i : Nat) : Prop := e.start ≤ i ∧ i < e.stop

theorem exists_covers_of_not_mem {free : Nat} {es : List Edit} {e : Edit} (he : e ∈ es)
    (sorted : es.Pairwise fun a b => a.start ≤ b.start) (hfree : free ≤ e.start)
    (h : e ∉ accepted free es) : ∃ a ∈ accepted free es, a.covers e.start := by
  induction es generalizing free with
  | nil => cases he
  | cons a es ih =>
    obtain ⟨first, sorted⟩ := List.pairwise_cons.1 sorted
    unfold accepted at h ⊢
    split at h
    · rename_i ha
      rw [if_pos ha]
      rcases List.mem_cons.1 he with rfl | he
      · omega
      · exact ih he sorted hfree h
    · rename_i ha
      rw [if_neg ha]
      obtain ⟨hne, h⟩ := not_or.1 (mt List.mem_cons.2 h)
      have he := (List.mem_cons.1 he).resolve_left hne
      by_cases hstop : e.start < a.stop
      · exact ⟨a, List.mem_cons_self, first e he, hstop⟩
      · obtain ⟨b, hb, hc⟩ := ih he sorted (by omega) h
        exact ⟨b, List.mem_cons_of_mem _ hb, hc⟩

/-- **An edit is applied exactly when no other applied edit covers its beginning.** -/
theorem mem_accepted_iff {es : List Edit} {e : Edit} (he : e ∈ es)
    (sorted : es.Pairwise fun a b => a.start ≤ b.start) (spans : ∀ e ∈ es, e.start ≤ e.stop)
    (proper : e.start < e.stop) :
    e ∈ accepted 0 es ↔ ∀ a ∈ accepted 0 es, a.covers e.start → a = e := by
  refine ⟨fun h a ha hcov => ?_, fun h => ?_⟩
  · obtain ⟨hstart, hstop⟩ := hcov
    rcases pairwise_cases (accepted_pairwise spans) ha h with rfl | hlt | hgt
    · rfl
    · omega
    · omega
  · by_cases hn : e ∈ accepted 0 es
    · exact hn
    · obtain ⟨a, ha, hcov⟩ := exists_covers_of_not_mem he sorted (Nat.zero_le _) hn
      exact h a ha hcov ▸ ha

theorem accepted_cons (free : Nat) (a : Edit) (es : List Edit) : accepted free (a :: es) =
    if a.start < free then accepted free es else a :: accepted a.stop es := rfl

/-- An edit that is not applied has no influence on the others. -/
theorem accepted_filter_ne {free : Nat} {es : List Edit} {e : Edit} (h : e ∉ accepted free es) :
    accepted free (es.filter (· ≠ e)) = accepted free es := by
  induction es generalizing free with
  | nil => rfl
  | cons a es ih =>
    rw [accepted_cons] at h ⊢
    by_cases hfree : a.start < free
    · rw [if_pos hfree] at h ⊢
      by_cases hae : a = e
      · rw [List.filter_cons_of_neg (by simpa using hae)]
        exact ih h
      · rw [List.filter_cons_of_pos (by simpa using hae), accepted_cons, if_pos hfree]
        exact ih h
    · rw [if_neg hfree] at h ⊢
      obtain ⟨hea, h⟩ := not_or.1 (mt List.mem_cons.2 h)
      rw [List.filter_cons_of_pos (by simpa using Ne.symm hea), accepted_cons, if_neg hfree, ih h]

/-- Sorted edits are in the order of their beginnings. -/
theorem sorted_starts (es : List Edit) :
    (sortBy precedes es).Pairwise fun a b => a.start ≤ b.start := by
  have trans (a b c : Edit) (h : a.start ≤ b.start) (h' : b.start ≤ c.start) : a.start ≤ c.start :=
    Nat.le_trans h h'
  refine sortBy_pairwise (fun a b h => ?_) (fun a b h => ?_) trans es
  · unfold precedes at h
    split at h
    · have := of_decide_eq_true h
      omega
    · omega
  · unfold precedes at h
    split at h
    · have := of_decide_eq_false h
      omega
    · omega

/-! ## What edits write -/

/-- A space, a tab or a line break. -/
def isGap (c : Char) : Bool := isSpaceOrTab c || c == '\n'

theorem isBlank_of_isGap {c : Char} (h : isGap c = true) : isBlank c = true := by
  simp only [isGap, isSpaceOrTab, Bool.or_eq_true, beq_iff_eq] at h
  rcases h with (rfl | rfl) | rfl <;> rfl

theorem readsOnly_trailingBlankLines : trailingBlankLines.ReadsOnly isGap := by
  have spaces : spacesOrTabs.ReadsOnly isGap :=
    (describes_run isSpaceOrTab).readsOnly fun t ht => List.all_eq_true.2 fun a ha => by
      simp [isGap, List.all_eq_true.1 ht a ha]
  have newline : (one (· == '\n')).ReadsOnly isGap := by
    refine (describes_one _).readsOnly ?_
    rintro _ ⟨a, ha, rfl⟩
    simp only [List.all_cons, List.all_nil, Bool.and_true, isGap, Bool.or_eq_true]
    exact Or.inr ha
  exact (spaces.seq (((newline.seq spaces).seq (readsOnly_place _)).many _ _)).seq newline.optional

/-- Only spaces, tabs and line breaks are taken for blank lines. -/
theorem exists_dropBlankLines (t : Text) : ∃ w, t = w ++ dropBlankLines t ∧ w.all isGap = true := by
  unfold dropBlankLines
  split
  · rename_i m hm
    rw [matchAt?_eq_head?, Option.map_eq_some_iff] at hm
    obtain ⟨d, hd, rfl⟩ := hm
    obtain ⟨w, hw, hwg⟩ := readsOnly_trailingBlankLines _ d (List.mem_of_mem_head? hd)
    exact ⟨w, hw.rest, hwg⟩
  · exact ⟨[], rfl, rfl⟩

theorem infix_dropBlankLines {a : Char} {r t : Text} (h : (a :: r) <:+: t) (ha : isGap a = false) :
    (a :: r) <:+: dropBlankLines t := by
  obtain ⟨w, ht, hw⟩ := exists_dropBlankLines t
  obtain ⟨u, v, h⟩ := h
  rw [List.append_assoc, ht] at h
  obtain ⟨u', -, h'⟩ := append_eq_append_cons hw ha h.symm
  exact ⟨u', v, by rw [h', List.append_assoc]; rfl⟩

/-- **The text of an applied edit occurs in the result**, unless it begins like a blank line. -/
theorem infix_applyFrom {es : List Edit} {e : Edit} {a : Char} {r : Text} (he : e ∈ es)
    (new : e.new = a :: r) (ha : isGap a = false) (offset : Nat) (rest : Text) :
    e.new <:+: applyFrom offset rest es := by
  induction es generalizing offset rest with
  | nil => cases he
  | cons b es ih =>
    unfold applyFrom
    simp only
    refine List.IsInfix.trans ?_ List.infix_append_right
    rcases List.mem_cons.1 he with rfl | he
    · rw [new]
      exact List.infix_append_left
    · have h := ih he b.stop (rest.drop (b.stop - offset))
      split
      · rw [new] at h ⊢
        exact infix_dropBlankLines h ha
      · exact h.trans List.infix_append_right

end Modulize.Class.Edit
