import Modulize.Proofs.Pattern.Lines

/-!
# Replacements as passes over a text

Replacing matches is a pass over a text (`Rewrites`) that keeps characters and exchanges pieces
(`rewrites_replace`, `rewrites_replaceFirst`). Which pieces may be exchanged for what is told by a
relation; where a piece has to be exchanged is left open, so that a pass can be followed without
knowing where a pattern does not match.

The relation is taken from what the readings of a pattern have in common (`Gives`): the text before
a piece, the piece, and what the groups remember then (`Gives.allows`).
-/

namespace Modulize.Pattern

/-- A pass over a text behind a place writes the third text for it: characters are kept, and a piece
is exchanged where the relation holds of the text before it, the piece, the text behind it and the
new piece. -/
inductive Rewrites (R : Text → Text → Text → Text → Prop) : Text → Text → Text → Prop
  | done (past : Text) : Rewrites R past [] []
  | keep {past : Text} (a : Char) {rest out : Text} (h : Rewrites R (a :: past) rest out) :
      Rewrites R past (a :: rest) (a :: out)
  | swap {past piece rest new out : Text} (hR : R past piece rest new)
      (h : Rewrites R (piece.reverse ++ past) rest out) :
      Rewrites R past (piece ++ rest) (new ++ out)

theorem Rewrites.refl (R : Text → Text → Text → Text → Prop) (past t : Text) :
    Rewrites R past t t := by
  induction t generalizing past with
  | nil => exact .done past
  | cons a t ih => exact .keep a (ih _)

/-- A pass over a text is one over its end, with the same pieces. -/
theorem Rewrites.behind {R R' : Text → Text → Text → Text → Prop} {past t out q : Text}
    (h : Rewrites R past t out)
    (imp : ∀ p piece rest new, R p piece rest new →
      p.reverse ++ (piece ++ rest) = past.reverse ++ t → R' (p ++ q) piece rest new) :
    Rewrites R' (past ++ q) t out := by
  induction h with
  | done => exact .done _
  | keep a h ih =>
    exact .keep a (ih fun p piece rest new hR e => imp p piece rest new hR (by simp [e]))
  | swap hR h ih =>
    refine .swap (imp _ _ _ _ hR rfl) ?_
    rw [← List.append_assoc]
    exact ih fun p piece rest new hR e => imp p piece rest new hR (by simp [e])

theorem Rewrites.imp {R R' : Text → Text → Text → Text → Prop} {past t out : Text}
    (h : Rewrites R past t out)
    (imp : ∀ p piece rest new, R p piece rest new → R' p piece rest new) :
    Rewrites R' past t out := by
  have := h.behind (q := []) fun p piece rest new hR _ => by
    rw [List.append_nil]
    exact imp p piece rest new hR
  rwa [List.append_nil] at this

/-- What stands before the place where a pass begins is kept. -/
theorem Rewrites.append {R : Text → Text → Text → Text → Prop} {past t out : Text} (x : Text)
    (h : Rewrites R (x.reverse ++ past) t out) : Rewrites R past (x ++ t) (x ++ out) := by
  induction x generalizing past with
  | nil => exact h
  | cons a x ih => exact .keep a (ih (by simpa using h))

/-- The readings of a pattern are exchanged as a relation allows. -/
def Allows (r : Pattern) (f : Match → Text) (R : Text → Text → Text → Text → Prop) : Prop :=
  ∀ c d piece, d ∈ r.ends c → c.groups = [] → c.Reads piece d → R c.past piece d.rest (f ⟨c, d⟩)

section

variable {r : Pattern} {f : Match → Text} {R : Text → Text → Text → Text → Prop}

/-- Replacing is a pass that exchanges the matches that are found. -/
theorem rewrites_replaceAt_of_matches (consumes : r.Consumes) (past t : Text) (offset : Nat)
    (allowed : ∀ m ∈ r.matchesFrom 0 past offset t, R m.start.past m.text m.stop.rest (f m)) :
    Rewrites R past t (r.replaceAt f past offset t) := by
  induction past, offset, t using consumes.induct with
  | done past offset =>
    rw [replaceAt_nil _ consumes]
    exact .done past
  | keep past offset a rest none ih =>
    rw [matchesFrom_of_none none] at allowed
    rw [replaceAt_of_none _ none]
    exact .keep a (ih allowed)
  | swap past offset piece d ds hends reads ih =>
    rw [matchesFrom_of_match consumes hends reads] at allowed
    have swapped := allowed _ List.mem_cons_self
    rw [Match.text, reads.textTo] at swapped
    rw [replaceAt_of_match _ consumes hends reads]
    exact .swap swapped (ih fun m hm => allowed m (List.mem_cons_of_mem _ hm))

theorem rewrites_replaceAt (consumes : r.Consumes) (allows : r.Allows f R) (past t : Text)
    (offset : Nat) : Rewrites R past t (r.replaceAt f past offset t) := by
  refine rewrites_replaceAt_of_matches consumes past t offset fun m hm => ?_
  obtain ⟨⟨_, _, -, start⟩, hd⟩ := mem_matchesFrom hm
  obtain ⟨piece, reads⟩ := reads_of_mem_ends hd
  rw [Match.text, reads.textTo]
  exact allows _ _ piece hd (by rw [start]) reads

/-- **Replacing all matches is a pass.** -/
theorem rewrites_replace (consumes : r.Consumes) (allows : r.Allows f R) (t : Text) :
    Rewrites R [] t (r.replace f t) := rewrites_replaceAt consumes allows [] t 0

theorem start_of_matchAt? {c : Cursor} {m : Match} (h : r.matchAt? c = some m) : m.start = c := by
  rw [matchAt?_eq_head?, Option.map_eq_some_iff] at h
  obtain ⟨d, -, rfl⟩ := h
  rfl

theorem offset_le_of_findFrom {past t : Text} {offset : Nat} {m : Match}
    (h : r.findFrom past offset t = some m) : offset ≤ m.start.offset := by
  induction t generalizing past offset with
  | nil => exact Nat.le_of_eq (congrArg Cursor.offset (start_of_matchAt? h)).symm
  | cons a t ih =>
    unfold findFrom at h
    split at h
    · rename_i found
      obtain rfl := Option.some.inj h
      exact Nat.le_of_eq (congrArg Cursor.offset (start_of_matchAt? found)).symm
    · exact Nat.le_of_succ_le (ih h)

theorem rewrites_rebuild_findFrom (allows : r.Allows f R) (past t : Text) (offset : Nat) :
    Rewrites R past t (rebuild f offset t (r.findFrom past offset t).toList) := by
  have here {past t : Text} {offset : Nat} {m : Match}
      (h : r.matchAt? ⟨past, offset, t, []⟩ = some m) :
      Rewrites R past t (rebuild f offset t [m]) := by
    rw [matchAt?_eq_head?, Option.map_eq_some_iff] at h
    obtain ⟨d, hd, rfl⟩ := h
    have hd := List.mem_of_mem_head? hd
    obtain ⟨piece, reads⟩ := reads_of_mem_ends hd
    have e : t = piece ++ d.rest := reads.rest
    have swapped : R past piece d.rest _ := allows _ d piece hd rfl reads
    have e' : rebuild f offset t [⟨⟨past, offset, t, []⟩, d⟩] =
        f ⟨⟨past, offset, t, []⟩, d⟩ ++ d.rest := by simp [rebuild]
    rw [e']
    conv => arg 3; rw [e]
    exact .swap swapped (.refl R _ _)
  induction t generalizing past offset with
  | nil =>
    rw [findFrom]
    cases h : r.matchAt? ⟨past, offset, [], []⟩ with
    | none => exact .done past
    | some m => exact here h
  | cons a t ih =>
    rw [findFrom]
    cases h : r.matchAt? ⟨past, offset, a :: t, []⟩ with
    | some m => exact here h
    | none =>
      have behind : ∀ m ∈ (r.findFrom (a :: past) (offset + 1) t).toList,
          offset + 1 ≤ m.start.offset := fun m hm => offset_le_of_findFrom (Option.mem_toList.1 hm)
      simp only
      rw [rebuild_cons f behind]
      exact .keep a (ih _ _)

/-- **Replacing the first match is a pass.** -/
theorem rewrites_replaceFirst (allows : r.Allows f R) (t : Text) :
    Rewrites R [] t (r.replaceFirst f t) := rewrites_rebuild_findFrom allows [] t 0

end

/-! ## What readings have in common -/

/-- The readings of a pattern stand in a relation: the text before the piece, with its last
character first, the piece, and the texts that the groups remember, the latest first. -/
def Gives (r : Pattern) (P : Text → Text → List (Nat × Text) → Prop) : Prop :=
  ∀ c d, d ∈ r.ends c →
    ∃ piece notes, P c.past piece notes ∧ c.Reads piece d ∧ d.noted = notes ++ c.noted

section Gives

variable {r a b : Pattern} {P Q : Text → Text → List (Nat × Text) → Prop}

theorem Records.gives {M : Text → List (Nat × Text) → Prop} (h : r.Records M) :
    r.Gives fun _ => M := h.sound

theorem Describes.gives {R : Text → Prop} (h : r.Describes R) :
    r.Gives fun _ piece notes => R piece ∧ notes = [] := h.records.gives

theorem gives_lineStart :
    lineStart.Gives fun past piece notes => AtBreak past ∧ piece = [] ∧ notes = [] := by
  intro c d hd
  obtain ⟨start, rfl⟩ := mem_ends_lineStart.1 hd
  exact ⟨[], [], ⟨start, rfl, rfl⟩, .refl _, rfl⟩

theorem gives_notAfter (p : Char → Bool) : (notAfter p).Gives fun past piece notes =>
    (∀ a ∈ past.head?, p a = false) ∧ piece = [] ∧ notes = [] := by
  intro c d hd
  obtain ⟨before, rfl⟩ := mem_ends_notAfter.1 hd
  exact ⟨[], [], ⟨before, rfl, rfl⟩, .refl _, rfl⟩

theorem gives_notBefore (p : Char → Bool) :
    (notBefore p).Gives fun _ piece notes => piece = [] ∧ notes = [] := by
  intro c d hd
  obtain ⟨-, rfl⟩ := mem_ends_notBefore.1 hd
  exact ⟨[], [], ⟨rfl, rfl⟩, .refl _, rfl⟩

theorem Gives.seq (ha : a.Gives P) (hb : b.Gives Q) : (a ++ b).Gives fun past piece notes =>
    ∃ p n q m, P past p n ∧ Q (p.reverse ++ past) q m ∧ piece = p ++ q ∧ notes = m ++ n := by
  intro c d hd
  obtain ⟨e, he, hd⟩ := mem_ends_seq.1 hd
  obtain ⟨p, n, hp, reads, noted⟩ := ha c e he
  obtain ⟨q, m, hq, reads', noted'⟩ := hb e d hd
  refine ⟨p ++ q, m ++ n, ⟨p, n, q, m, hp, reads.past ▸ hq, rfl, rfl⟩, reads.trans reads', ?_⟩
  rw [noted', noted, List.append_assoc]

theorem Gives.alt (ha : a.Gives P) (hb : b.Gives Q) :
    (a <|> b).Gives fun past piece notes => P past piece notes ∨ Q past piece notes := by
  intro c d hd
  rcases mem_ends_orElse.1 hd with hd | hd
  · obtain ⟨piece, notes, hp, rest⟩ := ha c d hd
    exact ⟨piece, notes, Or.inl hp, rest⟩
  · obtain ⟨piece, notes, hq, rest⟩ := hb c d hd
    exact ⟨piece, notes, Or.inr hq, rest⟩

theorem Gives.group (i : Nat) (h : r.Gives P) : (Pattern.group i r).Gives fun past piece notes =>
    ∃ n, P past piece n ∧ notes = (i, piece) :: n := by
  intro c d hd
  obtain ⟨e, he, rfl⟩ := mem_ends_group.1 hd
  obtain ⟨piece, n, hp, reads, noted⟩ := h c e he
  refine ⟨piece, _, ⟨n, hp, rfl⟩, ⟨reads.rest, reads.past, reads.offset⟩, ?_⟩
  rw [List.cons_append, ← noted]
  simp [Cursor.noted, Cursor.close, reads.textTo]

theorem Gives.imp (h : r.Gives P) (imp : ∀ past piece notes, P past piece notes →
    Q past piece notes) : r.Gives Q := by
  intro c d hd
  obtain ⟨piece, notes, hp, rest⟩ := h c d hd
  exact ⟨piece, notes, imp _ _ _ hp, rest⟩

theorem Gives.consumes (h : r.Gives P) (ne : ∀ past piece notes, P past piece notes → piece ≠ []) :
    r.Consumes := by
  intro c d hd
  obtain ⟨piece, notes, hp, reads, -⟩ := h c d hd
  have := List.length_pos_iff.2 (ne _ _ _ hp)
  rw [reads.offset]
  omega

theorem groupText_of_noted {m : Match} {notes : List (Nat × Text)} (h : m.stop.noted = notes)
    (i : Nat) : m.groupText i = (lookup? i notes).getD [] := by
  rw [← m.groupText_reading, ← h]
  rfl

/-- **What the readings have in common allows their exchange.** -/
theorem Gives.allows {f : Match → Text} {R : Text → Text → Text → Text → Prop} (h : r.Gives P)
    (allowed : ∀ past piece notes rest m, P past piece notes → m.stop.noted = notes →
      R past piece rest (f m)) : r.Allows f R := by
  intro c d piece hd groups reads
  obtain ⟨piece', notes, hp, reads', noted⟩ := h c d hd
  obtain rfl := reads.unique reads'
  have none : c.noted = [] := by simp [Cursor.noted, groups]
  rw [none, List.append_nil] at noted
  exact allowed _ _ _ _ ⟨c, d⟩ hp noted

/-- What a match in a text has read. -/
theorem Gives.of_mem_allMatches {t : Text} {m : Match} (h : r.Gives P) (hm : m ∈ r.allMatches t) :
    ∃ past notes, P past m.text notes ∧ m.stop.noted = notes := by
  obtain ⟨-, groups, hd⟩ := mem_allMatches hm
  obtain ⟨piece, notes, hp, reads, noted⟩ := h _ _ hd
  have none : m.start.noted = [] := by simp [Cursor.noted, groups]
  rw [none, List.append_nil] at noted
  rw [Match.text, reads.textTo]
  exact ⟨_, notes, hp, noted⟩

end Gives

end Modulize.Pattern
