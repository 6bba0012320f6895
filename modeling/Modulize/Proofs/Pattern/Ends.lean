import Modulize.Pattern.Reading

/-!
# Where the readings of a pattern end

Every reading of a pattern ends further on in the same text (`reads_of_mem_ends`): the place where
it ends has the text that was read behind it and what is left of the text before it.

A pattern without groups and looks around is described by the pieces of text that it reads
(`Describes`). The common patterns have such descriptions (`describes_literal`, `describes_one`,
`describes_run`), and `Describes.seq` puts them together.
-/

namespace Modulize

namespace Cursor

/-- Going from a place over a piece of text to another place. -/
structure Reads (c : Cursor) (piece : Text) (d : Cursor) : Prop where
  rest : c.rest = piece ++ d.rest
  past : d.past = piece.reverse ++ c.past
  offset : d.offset = c.offset + piece.length

theorem Reads.refl (c : Cursor) : c.Reads [] c := ⟨rfl, rfl, rfl⟩

theorem reads_nothing (c : Cursor) (groups : List (Nat × Capture)) :
    ∃ piece, c.Reads piece { c with groups := groups } := ⟨[], rfl, rfl, rfl⟩

theorem Reads.trans {c d e : Cursor} {p q : Text} (h : c.Reads p d) (h' : d.Reads q e) :
    c.Reads (p ++ q) e := by
  refine ⟨?_, ?_, ?_⟩
  · rw [h.rest, h'.rest, List.append_assoc]
  · rw [h'.past, h.past, List.reverse_append, List.append_assoc]
  · rw [h'.offset, h.offset, List.length_append, Nat.add_assoc]

/-- There is one piece of text between two places. -/
theorem Reads.unique {c d : Cursor} {p q : Text} (h : c.Reads p d) (h' : c.Reads q d) : p = q := by
  have e := h.past.symm.trans h'.past
  exact List.reverse_inj.1 (List.append_cancel_right e)

/-- The place behind a piece of text, given what follows the piece. -/
def after (c : Cursor) (piece rest : Text) : Cursor :=
  ⟨piece.reverse ++ c.past, c.offset + piece.length, rest, c.groups⟩

@[simp] theorem after_rest (c : Cursor) (piece rest : Text) :
    (c.after piece rest).rest = rest := rfl

@[simp] theorem after_past (c : Cursor) (piece rest : Text) :
    (c.after piece rest).past = piece.reverse ++ c.past := rfl

@[simp] theorem after_offset (c : Cursor) (piece rest : Text) :
    (c.after piece rest).offset = c.offset + piece.length := rfl

theorem after_nil (c : Cursor) : c.after [] c.rest = c := rfl

theorem after_after (c : Cursor) (p q rest rest' : Text) :
    (c.after p rest).after q rest' = c.after (p ++ q) rest' := by
  simp [after, Nat.add_assoc]

theorem reads_after {c : Cursor} {piece rest : Text} (h : c.rest = piece ++ rest) :
    c.Reads piece (c.after piece rest) := ⟨h, rfl, rfl⟩

theorem mem_stops {p : Char → Text → Bool} {groups : List (Nat × Capture)} {past rest : Text}
    {offset : Nat} {d : Cursor} (h : d ∈ stops p groups past offset rest) :
    ∃ piece, Reads ⟨past, offset, rest, groups⟩ piece d := by
  induction rest generalizing past offset with
  | nil =>
    obtain rfl := List.mem_singleton.1 h
    exact ⟨[], Reads.refl _⟩
  | cons a r ih =>
    unfold stops at h
    rcases List.mem_cons.1 h with rfl | h
    · exact ⟨[], Reads.refl _⟩
    · split at h
      · obtain ⟨piece, hp⟩ := ih h
        exact ⟨a :: piece, by simpa using hp.rest, by simpa using hp.past, by
          simpa [Nat.add_assoc, Nat.add_comm 1] using hp.offset⟩
      · simp at h

theorem mem_stops_all {p : Char → Bool} {groups : List (Nat × Capture)} {past rest : Text}
    {offset : Nat} {d : Cursor} :
    d ∈ stops (fun a _ => p a) groups past offset rest ↔
      ∃ piece rest', rest = piece ++ rest' ∧ piece.all p = true ∧
        d = (⟨past, offset, rest, groups⟩ : Cursor).after piece rest' := by
  induction rest generalizing past offset with
  | nil =>
    simp only [stops, List.mem_singleton]
    constructor
    · rintro rfl
      exact ⟨[], [], rfl, rfl, rfl⟩
    · rintro ⟨piece, rest', h, -, rfl⟩
      obtain ⟨rfl, rfl⟩ := List.append_eq_nil_iff.1 h.symm
      rfl
  | cons a r ih =>
    simp only [stops, List.mem_cons]
    constructor
    · rintro (rfl | h)
      · exact ⟨[], a :: r, rfl, rfl, rfl⟩
      · split at h
        · rename_i ha
          obtain ⟨piece, rest', rfl, hp, rfl⟩ := ih.1 h
          exact ⟨a :: piece, rest', rfl, by simp [ha, hp], by
            simp [after, Nat.add_assoc, Nat.add_comm 1]⟩
        · simp at h
    · rintro ⟨piece, rest', h, hp, rfl⟩
      cases piece with
      | nil =>
        obtain rfl : a :: r = rest' := h
        exact Or.inl rfl
      | cons b piece =>
        obtain ⟨rfl, rfl⟩ := List.cons.inj h
        obtain ⟨ha, hp⟩ := Bool.and_eq_true_iff.1 hp
        rw [if_pos ha]
        exact Or.inr (ih.2 ⟨piece, rest', rfl, hp, by
          simp [after, Nat.add_assoc, Nat.add_comm 1]⟩)

end Cursor

namespace Pattern

/-! ## Every reading goes on in the text -/

theorem mem_preferring {α : Type} {greedy : Bool} {longer stopping : List α} {x : α} :
    x ∈ preferring greedy longer stopping ↔ x ∈ longer ∨ x ∈ stopping := by
  unfold preferring
  split <;> simp [or_comm]

/-- What holds of the pieces that a body reads, of nothing, and of two such pieces in a row, holds
of the pieces that a repetition of the body reads. -/
theorem reads_of_mem_repeatEnds {body : Cursor → List Cursor} {P : Text → Prop} (nothing : P [])
    (append : ∀ x y, P x → P y → P (x ++ y))
    (hb : ∀ c d, d ∈ body c → ∃ piece, c.Reads piece d ∧ P piece) {greedy : Bool} {fuel : Text}
    {most : Option Nat} {c d : Cursor} (h : d ∈ repeatEnds body greedy fuel most c) :
    ∃ piece, c.Reads piece d ∧ P piece := by
  have stay (c : Cursor) : ∃ piece, c.Reads piece c ∧ P piece := ⟨[], .refl c, nothing⟩
  fun_induction repeatEnds body greedy fuel most c with
  | case1 fuel c =>
    obtain rfl := List.mem_singleton.1 h
    exact stay d
  | case2 most c _ =>
    rcases mem_preferring.1 h with h | h
    · exact hb c d h
    · obtain rfl := List.mem_singleton.1 h
      exact stay d
  | case3 a fuel most c _ longer ih =>
    rcases mem_preferring.1 h with h | h
    · obtain ⟨e, he, h⟩ := List.mem_flatMap.1 h
      obtain ⟨p, hp, hpp⟩ := hb c e he
      split at h
      · obtain rfl := List.mem_singleton.1 h
        exact ⟨p, hp, hpp⟩
      · obtain ⟨q, hq, hqp⟩ := ih e h
        exact ⟨p ++ q, hp.trans hq, append p q hpp hqp⟩
    · obtain rfl := List.mem_singleton.1 h
      exact stay d

theorem reads_of_readAgain? {i : Nat} {c d : Cursor} (h : readAgain? i c = some d) :
    ∃ piece, c.Reads piece d := by
  unfold readAgain? at h
  split at h
  · split at h
    · rename_i capture _ hpre
      obtain rfl := Option.some.inj h
      obtain ⟨rest, hrest⟩ := List.isPrefixOf_iff_prefix.1 hpre
      refine ⟨capture.text, ?_, rfl, rfl⟩
      simp [← hrest]
    · cases h
  · cases h

/-- **Every reading of a pattern ends further on in the same text.** -/
theorem reads_of_mem_ends {r : Pattern} {c d : Cursor} (h : d ∈ r.ends c) :
    ∃ piece, c.Reads piece d := by
  induction r generalizing c d with
  | nothing =>
    obtain rfl := List.mem_singleton.1 h
    exact Cursor.reads_nothing _ _
  | place p =>
    unfold ends at h
    split at h
    · obtain rfl := List.mem_singleton.1 h
      exact Cursor.reads_nothing _ _
    · simp at h
  | one p =>
    unfold ends at h
    split at h
    · simp at h
    · rename_i a r hc
      split at h
      · obtain rfl := List.mem_singleton.1 h
        exact ⟨[a], by simpa using hc, rfl, rfl⟩
      · simp at h
  | span p greedy =>
    unfold ends at h
    refine Cursor.mem_stops (p := p) ?_
    revert h
    cases greedy <;> simp
  | seq a b iha ihb =>
    obtain ⟨e, he, h⟩ := List.mem_flatMap.1 h
    obtain ⟨p, hp⟩ := iha he
    obtain ⟨q, hq⟩ := ihb h
    exact ⟨p ++ q, hp.trans hq⟩
  | alt a b iha ihb =>
    rcases List.mem_append.1 h with h | h
    · exact iha h
    · exact ihb h
  | many body most greedy ih =>
    obtain ⟨piece, h, -⟩ := reads_of_mem_repeatEnds (P := fun _ => True) trivial
      (fun _ _ _ _ => trivial) (fun c d h => (ih h).imp fun _ h => ⟨h, trivial⟩) h
    exact ⟨piece, h⟩
  | group i body ih =>
    obtain ⟨e, he, rfl⟩ := List.mem_map.1 h
    obtain ⟨p, hp⟩ := ih he
    exact ⟨p, hp.rest, hp.past, hp.offset⟩
  | again i => exact reads_of_readAgain? (Option.mem_toList.1 h)
  | once body ih => exact ih (List.mem_of_mem_take h)
  | ahead body wanted _ =>
    unfold ends at h
    split at h
    · simp at h
    · obtain rfl := List.mem_singleton.1 h
      exact Cursor.reads_nothing _ _
    · obtain rfl := List.mem_singleton.1 h
      exact Cursor.reads_nothing _ _
    · simp at h
  | behind width body wanted _ =>
    unfold ends at h
    split at h
    · obtain rfl := List.mem_singleton.1 h
      exact Cursor.reads_nothing _ _
    · simp at h
    · simp at h
    · obtain rfl := List.mem_singleton.1 h
      exact Cursor.reads_nothing _ _

/-! ## Places and sequences -/

theorem mem_ends_place {p : Option Char → Text → Bool} {c d : Cursor} :
    d ∈ (place p).ends c ↔ p c.before c.rest = true ∧ d = c := by
  unfold ends
  split <;> simp_all

theorem mem_ends_notAfter {p : Char → Bool} {c d : Cursor} :
    d ∈ (notAfter p).ends c ↔ (∀ a ∈ c.past.head?, p a = false) ∧ d = c := by
  rw [notAfter, mem_ends_place, Cursor.before]
  cases c.past <;> simp

theorem mem_ends_notBefore {p : Char → Bool} {c d : Cursor} :
    d ∈ (notBefore p).ends c ↔ (∀ a ∈ c.rest.head?, p a = false) ∧ d = c := by
  rw [notBefore, mem_ends_place]
  cases c.rest <;> simp

theorem mem_ends_seq {a b : Pattern} {c d : Cursor} :
    d ∈ (a ++ b).ends c ↔ ∃ e ∈ a.ends c, d ∈ b.ends e := List.mem_flatMap

/-! ## Readings of one class of characters -/

/-- The readings of the pattern go over characters of a class only. -/
def ReadsOnly (r : Pattern) (p : Char → Bool) : Prop :=
  ∀ c d, d ∈ r.ends c → ∃ piece, c.Reads piece d ∧ piece.all p = true

section ReadsOnly

variable {p : Char → Bool} {a b : Pattern}

theorem readsOnly_place (q : Option Char → Text → Bool) : (place q).ReadsOnly p := by
  intro c d hd
  obtain ⟨-, rfl⟩ := mem_ends_place.1 hd
  exact ⟨[], .refl _, rfl⟩

theorem ReadsOnly.seq (ha : a.ReadsOnly p) (hb : b.ReadsOnly p) : (a ++ b).ReadsOnly p := by
  intro c d hd
  obtain ⟨e, he, hd⟩ := List.mem_flatMap.1 hd
  obtain ⟨x, hx, hxp⟩ := ha c e he
  obtain ⟨y, hy, hyp⟩ := hb e d hd
  exact ⟨x ++ y, hx.trans hy, by rw [List.all_append, hxp, hyp]; rfl⟩

theorem ReadsOnly.optional (ha : a.ReadsOnly p) : (optional a).ReadsOnly p := by
  intro c d hd
  rcases List.mem_append.1 hd with hd | hd
  · exact ha c d hd
  · obtain rfl := List.mem_singleton.1 hd
    exact ⟨[], .refl _, rfl⟩

theorem ReadsOnly.many (ha : a.ReadsOnly p) (most : Option Nat) (greedy : Bool) :
    (many a most greedy).ReadsOnly p := by
  intro c d hd
  refine reads_of_mem_repeatEnds (P := fun t => t.all p = true) rfl (fun x y hx hy => ?_) ha hd
  rw [List.all_append, hx, hy]
  rfl

end ReadsOnly

/-! ## Patterns as sets of texts -/

/-- The pattern reads exactly the pieces of text with a property, and remembers nothing. -/
def Describes (r : Pattern) (P : Text → Prop) : Prop :=
  ∀ c d, d ∈ r.ends c ↔ ∃ piece rest, c.rest = piece ++ rest ∧ P piece ∧ d = c.after piece rest

theorem describes_nothing : nothing.Describes (· = []) := by
  intro c d
  simp only [ends, List.mem_singleton]
  constructor
  · rintro rfl
    exact ⟨[], _, rfl, rfl, rfl⟩
  · rintro ⟨piece, rest, h, rfl, rfl⟩
    obtain rfl : c.rest = rest := h
    exact c.after_nil

theorem describes_one (p : Char → Bool) : (one p).Describes fun t => ∃ a, p a = true ∧ t = [a] := by
  intro c d
  unfold ends
  constructor
  · intro h
    split at h
    · simp at h
    · rename_i a rest hc
      split at h
      · rename_i ha
        exact ⟨[a], rest, hc, ⟨a, ha, rfl⟩, List.mem_singleton.1 h⟩
      · simp at h
  · rintro ⟨_, rest, hc, ⟨a, ha, rfl⟩, rfl⟩
    rw [hc]
    simp [ha, Cursor.after]

theorem Describes.seq {a b : Pattern} {P Q : Text → Prop} (ha : a.Describes P)
    (hb : b.Describes Q) : (a ++ b).Describes fun t => ∃ p q, P p ∧ Q q ∧ t = p ++ q := by
  intro c d
  refine Iff.trans List.mem_flatMap ⟨?_, ?_⟩
  · rintro ⟨e, he, h⟩
    obtain ⟨p, rest, hc, hp, rfl⟩ := (ha c e).1 he
    obtain ⟨q, rest', hr, hq, rfl⟩ := (hb _ d).1 h
    obtain rfl : rest = q ++ rest' := hr
    exact ⟨p ++ q, rest', by rw [hc, List.append_assoc], ⟨p, q, hp, hq, rfl⟩, c.after_after ..⟩
  · rintro ⟨_, rest, hc, ⟨p, q, hp, hq, rfl⟩, rfl⟩
    rw [List.append_assoc] at hc
    refine ⟨c.after p (q ++ rest), (ha c _).2 ⟨p, q ++ rest, hc, hp, rfl⟩, ?_⟩
    exact (hb _ _).2 ⟨q, rest, rfl, hq, (c.after_after ..).symm⟩

theorem Describes.congr {r : Pattern} {P Q : Text → Prop} (h : r.Describes P)
    (iff : ∀ t, P t ↔ Q t) : r.Describes Q := by
  obtain rfl : P = Q := funext fun t => propext (iff t)
  exact h

theorem Describes.readsOnly {r : Pattern} {P : Text → Prop} {p : Char → Bool} (h : r.Describes P)
    (hp : ∀ t, P t → t.all p = true) : r.ReadsOnly p := by
  intro c d hd
  obtain ⟨piece, rest, hc, ht, rfl⟩ := (h c d).1 hd
  exact ⟨piece, Cursor.reads_after hc, hp piece ht⟩

theorem describes_literal (s : Text) : (literal s).Describes (· = s) := by
  fun_induction literal s with
  | case1 => exact describes_nothing
  | case2 a => exact (describes_one (· == a)).congr fun t => by simp
  | case3 a r _ ih => exact ((describes_one (· == a)).seq ih).congr fun t => by simp

theorem describes_run (p : Char → Bool) : (run p).Describes fun t => t.all p = true := by
  intro c d
  simp only [run, ends, if_true, List.mem_reverse]
  exact Cursor.mem_stops_all

theorem describes_run1 (p : Char → Bool) :
    (run1 p).Describes fun t => ∃ a r, p a = true ∧ r.all p = true ∧ t = a :: r := by
  refine ((describes_one p).seq (describes_run p)).congr fun t => ?_
  constructor
  · rintro ⟨_, r, ⟨a, ha, rfl⟩, hr, rfl⟩
    exact ⟨a, r, ha, hr, rfl⟩
  · rintro ⟨a, r, ha, hr, rfl⟩
    exact ⟨[a], r, ⟨a, ha, rfl⟩, hr, rfl⟩

/-- One or more characters of a class. -/
theorem describes_run1_all (p : Char → Bool) :
    (run1 p).Describes fun t => t ≠ [] ∧ t.all p = true := by
  refine (describes_run1 p).congr fun t => ⟨?_, ?_⟩
  · rintro ⟨a, r, ha, hr, rfl⟩
    exact ⟨by simp, by simp [ha, hr]⟩
  · rintro ⟨hne, ht⟩
    obtain ⟨a, r, rfl⟩ := List.exists_cons_of_ne_nil hne
    obtain ⟨ha, hr⟩ := Bool.and_eq_true_iff.1 ht
    exact ⟨a, r, ha, hr, rfl⟩

end Pattern

end Modulize
