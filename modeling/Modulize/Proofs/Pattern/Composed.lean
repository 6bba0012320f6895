import Modulize.Proofs.Pattern.Rewriting

/-!
# Readings of patterns that are put together

What is read by a pattern that first looks at the character before it is described by what it reads
behind such a character (`RecordsAfter`). A pattern of which only one part has a group remembers
what that part does: the others are silent (`Silent`).
-/

namespace Modulize.Pattern

/-! ## At the beginning of a text -/

/-- What a reading at the beginning of a text has read. -/
theorem Gives.of_mem_ends {r : Pattern} {P : Text → Text → List (Nat × Text) → Prop} (h : r.Gives P)
    {t : Text} {d : Cursor} (hd : d ∈ r.ends (Cursor.start t)) :
    ∃ piece, P [] piece d.noted ∧ t = piece ++ d.rest := by
  obtain ⟨piece, notes, hp, reads, noted⟩ := h _ _ hd
  have noted : d.noted = notes := by simpa [Cursor.noted, Cursor.start] using noted
  exact ⟨piece, noted ▸ hp, reads.rest⟩

theorem mem_ends_of_matchAt? {r : Pattern} {c : Cursor} {m : Match} (h : r.matchAt? c = some m) :
    m.stop ∈ r.ends c := by
  rw [matchAt?_eq_head?, Option.map_eq_some_iff] at h
  obtain ⟨d, hd, rfl⟩ := h
  exact List.mem_of_mem_head? hd

/-! ## Behind a character -/

variable {r a b : Pattern} {p : Char → Bool} {P Q : Text → List (Nat × Text) → Prop}

theorem ends_assoc (a b c : Pattern) : (a ++ b ++ c).ends = (a ++ (b ++ c)).ends :=
  funext fun _ => List.flatMap_assoc

theorem ends_seq_congr (same : a.ends = r.ends) (b : Pattern) : (a ++ b).ends = (r ++ b).ends := by
  rw [ends_seq, ends_seq, same]

/-- Behind a character that is not of the class, or at the beginning, the pattern reads exactly the
pieces of text that stand in a relation to what is remembered then; elsewhere it reads nothing. -/
def RecordsAfter (r : Pattern) (p : Char → Bool) (P : Text → List (Nat × Text) → Prop) : Prop :=
  ∃ body, body.Records P ∧ r.ends = (notAfter p ++ body).ends

theorem Records.after (h : r.Records P) (p : Char → Bool) : (notAfter p ++ r).RecordsAfter p P :=
  ⟨r, h, rfl⟩

namespace RecordsAfter

theorem congr (h : r.RecordsAfter p P) (iff : ∀ t notes, P t notes ↔ Q t notes) :
    r.RecordsAfter p Q := by
  obtain ⟨body, records, same⟩ := h
  exact ⟨body, records.congr iff, same⟩

theorem seq (ha : a.RecordsAfter p P) (hb : b.Records Q) : (a ++ b).RecordsAfter p fun t notes =>
    ∃ x n y m, P x n ∧ Q y m ∧ t = x ++ y ∧ notes = m ++ n := by
  obtain ⟨body, records, same⟩ := ha
  refine ⟨body ++ b, records.seq hb, ?_⟩
  rw [← ends_assoc, ends_seq a b, ends_seq (notAfter p ++ body) b, same]

theorem seq_describes {R : Text → Prop} (ha : a.RecordsAfter p P) (hb : b.Describes R) :
    (a ++ b).RecordsAfter p fun t notes => ∃ x y, P x notes ∧ R y ∧ t = x ++ y := by
  obtain ⟨body, records, same⟩ := ha
  refine ⟨body ++ b, records.seq_describes hb, ?_⟩
  rw [← ends_assoc, ends_seq a b, ends_seq (notAfter p ++ body) b, same]

theorem gives (h : r.RecordsAfter p P) : r.Gives fun past piece notes =>
    (∀ c ∈ past.head?, p c = false) ∧ P piece notes := by
  obtain ⟨body, records, same⟩ := h
  intro c d hd
  rw [same] at hd
  obtain ⟨piece, notes, ⟨_, _, y, m, ⟨guard, rfl, rfl⟩, hp, whole, noted⟩, reads⟩ :=
    (gives_notAfter p).seq records.gives c d hd
  rw [List.nil_append] at whole
  rw [List.append_nil] at noted
  exact ⟨piece, notes, ⟨guard, whole ▸ noted ▸ hp⟩, reads⟩

/-- The pattern can be read where a piece of the relation stands. -/
theorem ends_ne_nil (h : r.RecordsAfter p P) {past piece : Text} {notes : List (Nat × Text)}
    (offset : Nat) (rest : Text) (guard : ∀ c ∈ past.head?, p c = false) (hp : P piece notes) :
    r.ends ⟨past, offset, piece ++ rest, []⟩ ≠ [] := by
  obtain ⟨body, records, same⟩ := h
  obtain ⟨d, hd, -⟩ := records.complete ⟨past, offset, piece ++ rest, []⟩ piece notes rest hp rfl
  have : d ∈ r.ends ⟨past, offset, piece ++ rest, []⟩ := by
    rw [same]
    exact mem_ends_seq.2 ⟨_, mem_ends_notAfter.2 ⟨guard, rfl⟩, hd⟩
  exact List.ne_nil_of_mem this

end RecordsAfter

/-! ## Silent parts -/

theorem gives_place (q : Option Char → Text → Bool) :
    (place q).Gives fun _ piece notes => piece = [] ∧ notes = [] := by
  intro c d hd
  obtain ⟨-, rfl⟩ := mem_ends_place.1 hd
  exact ⟨[], [], ⟨rfl, rfl⟩, .refl _, rfl⟩

section

variable {a b : Pattern} {P : List (Nat × Text) → Prop}

/-- The pattern remembers nothing. -/
def Silent (r : Pattern) : Prop := r.Gives fun _ _ notes => notes = []

theorem Silent.of_describes {R : Text → Prop} (h : a.Describes R) : Silent a :=
  h.gives.imp fun _ _ _ h => h.2

theorem silent_place (q : Option Char → Text → Bool) : Silent (place q) :=
  (gives_place q).imp fun _ _ _ h => h.2

theorem Silent.seq (ha : Silent a) (hb : b.Gives fun _ _ => P) : (a ++ b).Gives fun _ _ => P := by
  refine (Gives.seq ha hb).imp ?_
  rintro _ _ _ ⟨_, _, _, _, rfl, hb, -, rfl⟩
  rwa [List.append_nil]

theorem Silent.behind (hb : Silent b) (ha : a.Gives fun _ _ => P) :
    (a ++ b).Gives fun _ _ => P := by
  refine (Gives.seq ha hb).imp ?_
  rintro _ _ _ ⟨_, _, _, _, ha, rfl, -, rfl⟩
  exact ha

end

end Modulize.Pattern
