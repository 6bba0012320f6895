import Modulize.Class.Render
import Modulize.Proofs.Class.Collected

/-!
# Where the functions of a class end

A function is split at the bracket that closes its body (`functionEnd`). What stands behind it in
the same definition is dropped when the function is written again, so nothing is lost exactly when
that is nothing but blanks and a semicolon (`IsLoose`).

Whether it is can be told from the scan that found the end of the statement (`ClosesStatement`):
behind the closing bracket the scan is outside of all brackets and a paragraph ends, or it comes to
a semicolon first. `isLoose_member_iff` says so of members; the semicolon at the end of a
constructor is not part of its definition, so one more may stand there (`isLoose_constructor_iff`).
-/

namespace Modulize.Class

open Pattern Script

/-- The offset behind the bracket that closes the body of a function. -/
def functionEnd (name definition : Text) : Except Failure Nat := do
  let some openParen := offsetOf? '(' definition 0 | .error (.malformedFunction name)
  let closeParen ← groupEnd definition openParen
  let some openBrace := offsetOf? '{' definition closeParen | .error (.malformedFunction name)
  groupEnd definition openBrace

/-- The body of a function that is split reaches up to the bracket at `functionEnd`. -/
theorem functionEnd_of_splitFunction {name definition params body : Text}
    (h : splitFunction name definition = .ok (params, body)) :
    ∃ start stop, functionEnd name definition = .ok stop ∧
      body = (Text.dedent (Text.dropEndWhile (· == '\n')
        ((definition.slice start (stop - 1)).dropWhile (· == '\n')))).trim := by
  unfold splitFunction at h
  unfold functionEnd
  cases hp : offsetOf? '(' definition 0 with
  | none =>
    rw [hp] at h
    cases h
  | some openParen =>
    rw [hp] at h
    obtain ⟨closeParen, hclose, h⟩ := bind_eq_ok h
    cases hb : offsetOf? '{' definition closeParen with
    | none =>
      rw [hb] at h
      cases h
    | some openBrace =>
      rw [hb] at h
      obtain ⟨closeBrace, hbrace, h⟩ := bind_eq_ok h
      refine ⟨openBrace + 1, closeBrace, ?_, (congrArg Prod.snd (Except.ok.inj h)).symm⟩
      simp only [hclose, bind, Except.bind, hb]
      exact hbrace

/-- A function ends behind a closing bracket. -/
theorem exists_of_functionEnd {name definition : Text} {stop : Nat}
    (h : functionEnd name definition = .ok stop) :
    ∃ x c r, definition = x ++ c :: r ∧ isClosing c = true ∧ stop = x.length + 1 := by
  unfold functionEnd at h
  split at h
  · obtain ⟨closeParen, -, h⟩ := bind_eq_ok h
    split at h
    · exact exists_of_groupEnd h
    · cases h
  · cases h

/-- Nothing but blanks and an optional semicolon. -/
def IsLoose (u : Text) : Prop :=
  (u.all fun a => isBlank a || a == ';') = true ∧ u.count ';' ≤ 1

instance (u : Text) : Decidable (IsLoose u) := inferInstanceAs (Decidable (_ ∧ _))

/-- The state at offset `q` of the scan that began at offset `s` of a text. -/
def scanTo (t : Text) (s q : Nat) : Scan :=
  Scan.outside.run (t.take s).reverse (t.slice s q) (t.drop q)

/-- A bracket that ends at offset `q` ends the statement from offset `s` on: it is a brace that
leads the scan out of all brackets at the end of a paragraph; or, behind a gap, the scan comes to a
semicolon outside of all brackets. -/
def ClosesStatement (gap : Text → Prop) (t : Text) (s q : Nat) : Prop :=
  (scanTo t s q = .outside ∧ (∃ w, t.take q = w ++ ['}']) ∧ endsParagraph (t.drop q) = true) ∨
    ∃ g r, t.drop q = g ++ ';' :: r ∧ gap g ∧ scanTo t s (q + g.length) = .outside

section Closing

variable {t : Text} {s q e : Nat}

theorem drop_eq_slice_append (hsq : s ≤ q) : t.drop s = t.slice s q ++ t.drop q := by
  have e : t.drop q = (t.drop s).drop (q - s) := by
    rw [List.drop_drop]
    congr 1
    omega
  rw [Text.slice, e, List.take_append_drop]

/-- What the scan for the end of a statement looks like from offset `q` on. -/
theorem statementEnd?_slice (hsq : s ≤ q) (he : statementEnd t s = .ok e) :
    Scan.outside.statementEnd? (t.take s).reverse s (t.slice s q ++ t.drop q) = some e := by
  rw [← drop_eq_slice_append hsq]
  exact statementEnd_eq_ok.1 he

theorem length_slice_of_le (hqe : q ≤ e) (he : statementEnd t s = .ok e) :
    (t.slice s q).length = q - s := Text.length_slice (Nat.le_trans hqe (lt_statementEnd he).2)

/-- A statement that goes on behind an offset ends with a semicolon or a brace. -/
theorem slice_eq_concat (hsq : s ≤ q) (hqe : q < e) (he : statementEnd t s = .ok e) :
    ∃ g c, t.slice q e = g ++ [c] ∧ (c = ';' ∨ c = '}') := by
  obtain ⟨piece, c, r, hr, hlen, hc⟩ := Scan.semicolon_or_brace (statementEnd_eq_ok.1 he)
  refine ⟨t.slice q (e - 1), c, ?_, hc⟩
  rw [← Text.slice_append_slice (j := e - 1) (by omega) (by omega)]
  congr 1
  have drop : t.drop (e - 1) = c :: r := by
    have h := congrArg (List.drop piece.length) hr
    rw [List.drop_drop, List.drop_left] at h
    rw [← h]
    congr 1
    omega
  rw [Text.slice, drop, show e - (e - 1) = 1 by omega]
  rfl

theorem scanTo_eq_run {g r : Text} (hsq : s ≤ q) (h : t.drop q = g ++ r) :
    scanTo t s (q + g.length) = Scan.outside.run (t.take s).reverse (t.slice s q ++ g) r := by
  have hg : t.slice q (q + g.length) = g := by
    rw [Text.slice, h, show q + g.length - q = g.length by omega, List.take_left]
  have hr : t.drop (q + g.length) = r := by
    rw [← List.drop_drop, h, List.drop_left]
  rw [scanTo, ← Text.slice_append_slice hsq (Nat.le_add_right q _), hg, hr]

theorem exists_slice_concat {w : Text} {c : Char} (hsq : s < q) (hqt : q ≤ t.length)
    (hw : t.take q = w ++ [c]) : ∃ y, t.slice s q = y ++ [c] ∧ s + y.length + 1 = q := by
  have hlen : (t.slice s q).length = q - s := Text.length_slice hqt
  have hne : t.slice s q ≠ [] := by
    intro h
    rw [h, List.length_nil] at hlen
    omega
  have split : t.take q = t.take s ++ t.slice s q :=
    (Text.slice_append_slice (Nat.zero_le s) (Nat.le_of_lt hsq)).symm
  rw [← List.dropLast_concat_getLast hne, ← List.append_assoc] at split
  obtain ⟨-, hc⟩ := List.append_inj' (hw.symm.trans split) rfl
  refine ⟨(t.slice s q).dropLast, ?_, ?_⟩
  · rw [hc, List.dropLast_concat_getLast]
  · rw [List.length_dropLast, hlen]
    omega

/-- A statement that ends at a closing bracket ends at a brace, at the end of a paragraph. -/
theorem outside_of_eq {w : Text} {c : Char} (hsq : s < q) (he : statementEnd t s = .ok q)
    (hw : t.take q = w ++ [c]) (hc : isClosing c = true) :
    scanTo t s q = .outside ∧ c = '}' ∧ endsParagraph (t.drop q) = true := by
  obtain ⟨y, hy, hlen⟩ := exists_slice_concat hsq (lt_statementEnd he).2 hw
  have h := statementEnd?_slice (Nat.le_of_lt hsq) he
  rw [hy, List.append_assoc, ← hlen] at h
  rw [scanTo, hy]
  rcases Scan.endsStatement_iff.1 (Scan.exists_of_statementEnd?_append h) with
    ⟨-, rfl⟩ | ⟨-, rfl, -⟩
  · cases hc
  · obtain ⟨h, hp⟩ := Scan.outside_of_end_brace h
    rw [hlen] at h hp
    exact ⟨h, rfl, hp⟩

/-- A statement does not go on behind a brace that leads the scan out of all brackets at the end of
a paragraph. -/
theorem le_of_outside {w : Text} (hsq : s < q) (hqt : q ≤ t.length) (he : statementEnd t s = .ok e)
    (hw : t.take q = w ++ ['}']) (h : scanTo t s q = .outside)
    (hp : endsParagraph (t.drop q) = true) : e ≤ q := by
  obtain ⟨y, hy, hlen⟩ := exists_slice_concat hsq hqt hw
  have he := statementEnd?_slice (Nat.le_of_lt hsq) he
  rw [hy, List.append_assoc] at he
  rw [scanTo, hy] at h
  have := Scan.le_of_outside_brace (Scan.sound_outside _) h hp he
  omega

/-- Before a semicolon that ends the statement the scan is outside of all brackets. -/
theorem outside_of_semicolon {g r : Text} (hsq : s ≤ q) (hd : t.drop q = g ++ ';' :: r)
    (he : statementEnd t s = .ok (q + g.length + 1)) : scanTo t s (q + g.length) = .outside := by
  have hqe : q ≤ q + g.length + 1 := by omega
  have hlen := length_slice_of_le hqe he
  have h := statementEnd?_slice hsq he
  rw [hd, ← List.append_assoc] at h
  rw [scanTo_eq_run hsq hd]
  refine Scan.outside_of_end_semicolon (h.trans (congrArg some ?_))
  rw [List.length_append, hlen]
  omega

/-- A statement does not go on behind a semicolon outside of all brackets. -/
theorem le_of_semicolon {g r : Text} (hsq : s ≤ q) (hqe : q ≤ e) (hd : t.drop q = g ++ ';' :: r)
    (he : statementEnd t s = .ok e) (h : scanTo t s (q + g.length) = .outside) :
    e ≤ q + g.length + 1 := by
  have hlen := length_slice_of_le hqe he
  have he := statementEnd?_slice hsq he
  rw [hd, ← List.append_assoc] at he
  rw [scanTo_eq_run hsq hd] at h
  have := Scan.le_of_outside_semicolon h he
  rw [List.length_append, hlen] at this
  omega

/-- A statement does not end with two semicolons. -/
theorem slice_ne_semicolons {g : Text} (hsq : s ≤ q) (hqe : q ≤ e) (he : statementEnd t s = .ok e) :
    t.slice q e ≠ g ++ [';', ';'] := by
  intro h
  have hlt := (lt_statementEnd he).2
  have hlen : (t.slice q e).length = e - q := Text.length_slice hlt
  rw [h, List.length_append, List.length_cons, List.length_singleton] at hlen
  have hd : t.drop q = g ++ ';' :: ';' :: t.drop e := by
    rw [drop_eq_slice_append hqe, h, List.append_assoc]
    rfl
  have hscan := statementEnd?_slice hsq he
  rw [hd, ← List.append_assoc] at hscan
  refine Scan.not_end_semicolons (Scan.sound_outside _) (hscan.trans (congrArg some ?_))
  rw [List.length_append, length_slice_of_le hqe he]
  omega

end Closing

/-! ## Nothing is lost -/

/-- What may stand between a function and the semicolon that ends its statement: blanks and
semicolons, and with a gap all that it begins with. -/
structure IsGapClass (gap : Text → Prop) : Prop where
  loose : ∀ g, gap g → ∀ a ∈ g, isBlank a = true ∨ a = ';'
  before : ∀ g g', gap (g ++ g') → gap g

theorem semicolon_of_append {gap : Text → Prop} (hgap : IsGapClass gap) {g x r r' : Text} {c : Char}
    (hg : gap (g ++ x)) (hc : c = ';' ∨ c = '}') (h : (g ++ x) ++ ';' :: r = g ++ ([c] ++ r')) :
    c = ';' := by
  rw [List.append_assoc] at h
  have h := List.append_cancel_left h
  cases x with
  | nil => exact (List.cons.inj h).1.symm
  | cons a x =>
    obtain ⟨rfl, -⟩ := List.cons.inj h
    have brace : isBlank '}' = false := by decide
    rcases hgap.loose _ hg a (by simp) with ha | ha
    · rcases hc with rfl | rfl
      · rfl
      · rw [brace] at ha
        cases ha
    · exact ha

/-- **A function closes its statement** exactly when nothing stands behind it in the statement, or a
gap and a semicolon. -/
theorem closesStatement_iff {gap : Text → Prop} (hgap : IsGapClass gap) {t : Text} {s q e : Nat}
    {w : Text} {c : Char} (hsq : s < q) (hqe : q ≤ e) (he : statementEnd t s = .ok e)
    (hw : t.take q = w ++ [c]) (hc : isClosing c = true) :
    ClosesStatement gap t s q ↔ t.slice q e = [] ∨ ∃ g, t.slice q e = g ++ [';'] ∧ gap g := by
  obtain ⟨-, het⟩ := lt_statementEnd he
  have hlen : (t.slice q e).length = e - q := Text.length_slice het
  have hsplit : t.drop q = t.slice q e ++ t.drop e := drop_eq_slice_append hqe
  constructor
  · rintro (⟨out, ⟨w', hw'⟩, hp⟩ | ⟨g, r, hd, hg, out⟩)
    · have := le_of_outside hsq (Nat.le_trans hqe het) he hw' out hp
      exact Or.inl (List.eq_nil_of_length_eq_zero (by omega))
    · have hle := le_of_semicolon (Nat.le_of_lt hsq) hqe hd he out
      rcases Nat.eq_or_lt_of_le hqe with rfl | hlt
      · exact Or.inl (List.eq_nil_of_length_eq_zero (by omega))
      · obtain ⟨g', c', hu, hc'⟩ := slice_eq_concat (Nat.le_of_lt hsq) hlt he
        rw [hu, List.append_assoc, hd] at hsplit
        have hle' : g'.length ≤ g.length := by
          rw [hu, List.length_append, List.length_singleton] at hlen
          omega
        obtain ⟨x, rfl⟩ :=
          List.prefix_of_prefix_length_le ⟨_, hsplit.symm⟩ (List.prefix_append g _) hle'
        refine Or.inr ⟨g', ?_, hgap.before g' x hg⟩
        rw [hu, semicolon_of_append hgap hg hc' hsplit]
  · rintro (hu | ⟨g, hu, hg⟩)
    · obtain rfl : q = e := by
        rw [hu, List.length_nil] at hlen
        omega
      obtain ⟨out, rfl, hp⟩ := outside_of_eq hsq he hw hc
      exact Or.inl ⟨out, ⟨w, hw⟩, hp⟩
    · rw [hu, List.append_assoc] at hsplit
      have hlen' : q + g.length + 1 = e := by
        rw [hu, List.length_append, List.length_singleton] at hlen
        omega
      exact Or.inr ⟨g, t.drop e, hsplit, hg,
        outside_of_semicolon (Nat.le_of_lt hsq) hsplit (hlen' ▸ he)⟩

/-- Blanks only. -/
def IsBlankGap (g : Text) : Prop := g.all isBlank = true

theorem isGapClass_blank : IsGapClass IsBlankGap where
  loose g hg a ha := Or.inl (List.all_eq_true.1 hg a ha)
  before g g' h := by
    rw [IsBlankGap, List.all_append, Bool.and_eq_true] at h
    exact h.1

theorem isGapClass_loose : IsGapClass IsLoose where
  loose g hg a ha := by simpa using List.all_eq_true.1 hg.1 a ha
  before g g' h := by
    obtain ⟨h, hcount⟩ := h
    rw [List.all_append, Bool.and_eq_true] at h
    rw [List.count_append] at hcount
    exact ⟨h.1, by omega⟩

theorem isLoose_nil : IsLoose [] := by decide

theorem not_isLoose_brace {g : Text} : ¬ IsLoose (g ++ ['}']) := by
  intro h
  rcases isGapClass_loose.loose _ h '}' (by simp) with h | h
  · exact absurd h (by decide)
  · cases h

/-- A loose text that ends with a semicolon has blanks only in front of it. -/
theorem isLoose_concat_iff {g : Text} : IsLoose (g ++ [';']) ↔ IsBlankGap g := by
  unfold IsLoose IsBlankGap
  rw [List.all_append, List.count_append, Bool.and_eq_true, List.count_singleton_self]
  constructor
  · rintro ⟨⟨h, -⟩, hcount⟩
    have hnot : ';' ∉ g := List.count_eq_zero.1 (by omega)
    rw [List.all_eq_true] at h ⊢
    intro a ha
    rcases Bool.or_eq_true_iff.1 (h a ha) with hb | hs
    · exact hb
    · exact absurd (eq_of_beq hs ▸ ha) hnot
  · intro h
    have semicolon : isBlank ';' = false := by decide
    have hnot : ';' ∉ g := fun hm => by
      rw [List.all_eq_true.1 h ';' hm] at semicolon
      cases semicolon
    rw [List.count_eq_zero.2 hnot]
    refine ⟨⟨?_, rfl⟩, by omega⟩
    rw [List.all_eq_true] at h ⊢
    intro a ha
    rw [h a ha, Bool.true_or]

/-- **A member loses nothing** exactly when its function closes the statement, or there are only
blanks between the function and the semicolon. -/
theorem isLoose_member_iff {t w : Text} {s q e : Nat} {c : Char} (hsq : s < q) (hqe : q ≤ e)
    (he : statementEnd t s = .ok e) (hw : t.take q = w ++ [c]) (hc : isClosing c = true) :
    IsLoose (t.slice q e) ↔ ClosesStatement IsBlankGap t s q := by
  rw [closesStatement_iff isGapClass_blank hsq hqe he hw hc]
  constructor
  · intro h
    rcases Nat.eq_or_lt_of_le hqe with rfl | hlt
    · left
      rw [Text.slice, Nat.sub_self, List.take_zero]
    · obtain ⟨g, c', hu, rfl | rfl⟩ := slice_eq_concat (Nat.le_of_lt hsq) hlt he
      · exact Or.inr ⟨g, hu, isLoose_concat_iff.1 (hu ▸ h)⟩
      · exact absurd (hu ▸ h) not_isLoose_brace
  · rintro (hu | ⟨g, hu, hg⟩)
    · exact hu ▸ isLoose_nil
    · exact hu ▸ isLoose_concat_iff.2 hg

/-- **A constructor loses nothing** exactly when its function closes the statement, or there are
only blanks and an optional semicolon between the function and the semicolon at the end of the
statement, which is not part of the definition. -/
theorem isLoose_constructor_iff {t w x f : Text} {s q e : Nat} {c : Char} (hsq : s < q)
    (hqe : q ≤ e) (he : statementEnd t s = .ok e) (hw : t.take q = w ++ [c])
    (hc : isClosing c = true) (hx : Text.dropEndWhile (· == ';') (t.slice s e) = x ++ f)
    (hlen : s + x.length = q) : IsLoose f ↔ ClosesStatement IsLoose t s q := by
  rw [closesStatement_iff isGapClass_loose hsq hqe he hw hc]
  -- what stands behind the function in the statement: the rest of the definition and semicolons
  obtain ⟨v, hv, semicolons⟩ := Text.exists_dropEndWhile (· == ';') (t.slice s e)
  have hu : t.slice q e = f ++ v := by
    rw [← hlen, ← Text.drop_slice, hv, hx, List.append_assoc, List.drop_left]
  have noSemicolon {g : Text} (h : f = g ++ [';']) : False := by
    rw [h, ← List.append_assoc] at hx
    simpa using Text.last_dropEndWhile hx
  rcases List.eq_nil_or_concat v with rfl | ⟨v', a, rfl⟩
  · rw [List.append_nil] at hu
    constructor
    · intro h
      rcases Nat.eq_or_lt_of_le hqe with rfl | hlt
      · left
        rw [Text.slice, Nat.sub_self, List.take_zero]
      · obtain ⟨g, c', hg, rfl | rfl⟩ := slice_eq_concat (Nat.le_of_lt hsq) hlt he
        · exact (noSemicolon (hu.symm.trans hg)).elim
        · exact absurd ((hu.symm.trans hg) ▸ h) not_isLoose_brace
    · rintro (h | ⟨g, h, -⟩)
      · exact (hu.symm.trans h) ▸ isLoose_nil
      · exact (noSemicolon (hu.symm.trans h)).elim
  · rw [List.concat_eq_append] at hu semicolons
    rw [List.all_append, Bool.and_eq_true] at semicolons
    obtain rfl : a = ';' := by simpa using semicolons.2
    have single : v' = [] := by
      rcases List.eq_nil_or_concat v' with h | ⟨v'', b, rfl⟩
      · exact h
      · obtain rfl : b = ';' := by
          have h := semicolons.1
          rw [List.concat_eq_append, List.all_append, Bool.and_eq_true] at h
          simpa using h.2
        refine absurd ?_ (slice_ne_semicolons (g := f ++ v'') (Nat.le_of_lt hsq) hqe he)
        rw [hu]
        simp
    subst single
    rw [List.nil_append] at hu
    constructor
    · exact fun h => Or.inr ⟨f, hu, h⟩
    · rintro (h | ⟨g, h, hg⟩)
      · rw [hu] at h
        simp at h
      · obtain ⟨rfl, -⟩ := List.append_inj' (hu.symm.trans h) rfl
        exact hg

end Modulize.Class
