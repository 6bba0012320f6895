import Modulize.Proofs.Pattern.Replacing

/-!
# What a pattern reads and remembers

A pattern with groups is described by the pieces of text that it reads together with the texts that
its groups remember, the latest first (`Records`). The descriptions of the parts of a pattern are
put together by `Records.seq`, `Records.alt` and `Records.group`; a pattern without groups brings
its description along (`Describes.records`).

The preferred reading of a pattern and a second one after it begins with a preferred reading of the
first (`head?_ends_seq`); that of a run of characters is the longest (`head?_ends_run`).
-/

namespace Modulize

namespace Cursor

/-- The texts that the groups have read so far, the latest first. -/
def noted (c : Cursor) : List (Nat × Text) := c.groups.map fun g => (g.1, g.2.text)

@[simp] theorem noted_after (c : Cursor) (piece rest : Text) :
    (c.after piece rest).noted = c.noted := rfl

theorem Reads.eq_of_rest {c d : Cursor} {piece piece' rest : Text} (h : c.Reads piece d)
    (h' : c.rest = piece' ++ rest) (same : piece = piece') : d.rest = rest := by
  subst same
  exact List.append_cancel_left (h.rest.symm.trans h')

theorem lookup?_noted (i : Nat) (groups : List (Nat × Capture)) :
    lookup? i (groups.map fun g => (g.1, g.2.text)) = (lookup? i groups).map Capture.text := by
  induction groups with
  | nil => rfl
  | cons g groups ih =>
    simp only [List.map_cons, lookup?, ih]
    split <;> rfl

/-- The last of the places behind a run of characters is the one behind all of them. -/
theorem getLast?_stops (p : Char → Bool) (groups : List (Nat × Capture)) (past rest : Text)
    (offset : Nat) :
    (stops (fun a _ => p a) groups past offset rest).getLast? =
      some ((⟨past, offset, rest, groups⟩ : Cursor).after (rest.takeWhile p)
        (rest.dropWhile p)) := by
  induction rest generalizing past offset with
  | nil => rfl
  | cons a r ih =>
    simp only [stops]
    by_cases ha : p a = true
    · simp only [ha, if_true]
      rw [List.getLast?_cons, ih]
      simp [Cursor.after, ha, Nat.add_assoc, Nat.add_comm 1]
    · simp [ha, Cursor.after]

end Cursor

namespace Pattern

/-- The pattern reads exactly the pieces of text that stand in a relation to what is remembered
then. -/
structure Records (r : Pattern) (P : Text → List (Nat × Text) → Prop) : Prop where
  sound : ∀ c d, d ∈ r.ends c →
    ∃ piece notes, P piece notes ∧ c.Reads piece d ∧ d.noted = notes ++ c.noted
  complete : ∀ c piece notes rest, P piece notes → c.rest = piece ++ rest →
    ∃ d ∈ r.ends c, c.Reads piece d ∧ d.noted = notes ++ c.noted

section Records

variable {r a b : Pattern} {P Q : Text → List (Nat × Text) → Prop}

theorem Describes.records {R : Text → Prop} (h : r.Describes R) :
    r.Records fun piece notes => R piece ∧ notes = [] := by
  constructor
  · intro c d hd
    obtain ⟨piece, rest, hc, hp, rfl⟩ := (h c d).1 hd
    exact ⟨piece, [], ⟨hp, rfl⟩, Cursor.reads_after hc, rfl⟩
  · rintro c piece notes rest ⟨hp, rfl⟩ hc
    exact ⟨c.after piece rest, (h c _).2 ⟨piece, rest, hc, hp, rfl⟩, Cursor.reads_after hc, rfl⟩

theorem Records.congr (h : r.Records P) (iff : ∀ t notes, P t notes ↔ Q t notes) :
    r.Records Q := by
  obtain rfl : P = Q := funext fun t => funext fun notes => propext (iff t notes)
  exact h

theorem Records.seq (ha : a.Records P) (hb : b.Records Q) :
    (a ++ b).Records fun t notes =>
      ∃ p n q m, P p n ∧ Q q m ∧ t = p ++ q ∧ notes = m ++ n := by
  constructor
  · intro c d hd
    obtain ⟨e, he, hd⟩ := mem_ends_seq.1 hd
    obtain ⟨p, n, hp, reads, noted⟩ := ha.sound c e he
    obtain ⟨q, m, hq, reads', noted'⟩ := hb.sound e d hd
    refine ⟨p ++ q, m ++ n, ⟨p, n, q, m, hp, hq, rfl, rfl⟩, reads.trans reads', ?_⟩
    rw [noted', noted, List.append_assoc]
  · rintro c _ _ rest ⟨p, n, q, m, hp, hq, rfl, rfl⟩ hc
    rw [List.append_assoc] at hc
    obtain ⟨e, he, reads, noted⟩ := ha.complete c p n (q ++ rest) hp hc
    obtain ⟨d, hd, reads', noted'⟩ := hb.complete e q m rest hq (reads.eq_of_rest hc rfl)
    refine ⟨d, mem_ends_seq.2 ⟨e, he, hd⟩, reads.trans reads', ?_⟩
    rw [noted', noted, List.append_assoc]

/-- A part without groups in front. -/
theorem Describes.seq_records {R : Text → Prop} (ha : a.Describes R) (hb : b.Records Q) :
    (a ++ b).Records fun t notes => ∃ p q, R p ∧ Q q notes ∧ t = p ++ q := by
  refine (ha.records.seq hb).congr fun t notes => ⟨?_, ?_⟩
  · rintro ⟨p, _, q, m, ⟨hp, rfl⟩, hq, rfl, rfl⟩
    exact ⟨p, q, hp, by simpa using hq, rfl⟩
  · rintro ⟨p, q, hp, hq, rfl⟩
    exact ⟨p, [], q, notes, ⟨hp, rfl⟩, hq, rfl, (List.append_nil _).symm⟩

/-- A part without groups behind. -/
theorem Records.seq_describes {R : Text → Prop} (ha : a.Records P) (hb : b.Describes R) :
    (a ++ b).Records fun t notes => ∃ p q, P p notes ∧ R q ∧ t = p ++ q := by
  refine (ha.seq hb.records).congr fun t notes => ⟨?_, ?_⟩
  · rintro ⟨p, n, q, _, hp, ⟨hq, rfl⟩, rfl, rfl⟩
    exact ⟨p, q, hp, hq, rfl⟩
  · rintro ⟨p, q, hp, hq, rfl⟩
    exact ⟨p, notes, q, [], hp, ⟨hq, rfl⟩, rfl, rfl⟩

theorem mem_ends_orElse {c d : Cursor} :
    d ∈ (a <|> b).ends c ↔ d ∈ a.ends c ∨ d ∈ b.ends c := List.mem_append

theorem Records.alt (ha : a.Records P) (hb : b.Records Q) :
    (a <|> b).Records fun t notes => P t notes ∨ Q t notes := by
  constructor
  · intro c d hd
    rcases mem_ends_orElse.1 hd with hd | hd
    · obtain ⟨piece, notes, hp, rest⟩ := ha.sound c d hd
      exact ⟨piece, notes, Or.inl hp, rest⟩
    · obtain ⟨piece, notes, hq, rest⟩ := hb.sound c d hd
      exact ⟨piece, notes, Or.inr hq, rest⟩
  · rintro c piece notes rest (hp | hq) hc
    · obtain ⟨d, hd, h⟩ := ha.complete c piece notes rest hp hc
      exact ⟨d, mem_ends_orElse.2 (Or.inl hd), h⟩
    · obtain ⟨d, hd, h⟩ := hb.complete c piece notes rest hq hc
      exact ⟨d, mem_ends_orElse.2 (Or.inr hd), h⟩

theorem Records.optional (ha : a.Records P) :
    (optional a).Records fun t notes => P t notes ∨ t = [] ∧ notes = [] :=
  ha.alt describes_nothing.records

theorem Records.group (i : Nat) (h : r.Records P) :
    (Pattern.group i r).Records fun t notes => ∃ n, P t n ∧ notes = (i, t) :: n := by
  have noted_close {c e : Cursor} {piece : Text} (reads : c.Reads piece e) :
      (c.close i e).noted = (i, piece) :: e.noted := by
    simp [Cursor.noted, Cursor.close, reads.textTo]
  have reads_close {c e : Cursor} {piece : Text} (reads : c.Reads piece e) :
      c.Reads piece (c.close i e) := ⟨reads.rest, reads.past, reads.offset⟩
  constructor
  · intro c d hd
    obtain ⟨e, he, rfl⟩ := mem_ends_group.1 hd
    obtain ⟨piece, n, hp, reads, noted⟩ := h.sound c e he
    refine ⟨piece, (i, piece) :: n, ⟨n, hp, rfl⟩, reads_close reads, ?_⟩
    rw [noted_close reads, noted, List.cons_append]
  · rintro c piece _ rest ⟨n, hp, rfl⟩ hc
    obtain ⟨e, he, reads, noted⟩ := h.complete c piece n rest hp hc
    refine ⟨c.close i e, mem_ends_group.2 ⟨e, he, rfl⟩, reads_close reads, ?_⟩
    rw [noted_close reads, noted, List.cons_append]

end Records

/-- A group without groups inside. -/
theorem Describes.group {r : Pattern} {R : Text → Prop} (i : Nat) (h : r.Describes R) :
    (Pattern.group i r).Records fun t notes => R t ∧ notes = [(i, t)] := by
  refine (h.records.group i).congr fun t notes => ⟨?_, ?_⟩
  · rintro ⟨_, ⟨ht, rfl⟩, rfl⟩
    exact ⟨ht, rfl⟩
  · rintro ⟨ht, rfl⟩
    exact ⟨[], ⟨ht, rfl⟩, rfl⟩

theorem describes_orElse {a b : Pattern} {R S : Text → Prop} (ha : a.Describes R)
    (hb : b.Describes S) : (a <|> b).Describes fun t => R t ∨ S t := by
  intro c d
  rw [mem_ends_orElse, ha c d, hb c d]
  constructor
  · rintro (⟨piece, rest, hc, hp, hd⟩ | ⟨piece, rest, hc, hp, hd⟩)
    · exact ⟨piece, rest, hc, Or.inl hp, hd⟩
    · exact ⟨piece, rest, hc, Or.inr hp, hd⟩
  · rintro ⟨piece, rest, hc, hp | hp, hd⟩
    · exact Or.inl ⟨piece, rest, hc, hp, hd⟩
    · exact Or.inr ⟨piece, rest, hc, hp, hd⟩

/-- A choice between fixed texts. -/
theorem describes_oneOf {words : List Text} (h : words ≠ []) :
    (oneOf (words.map literal)).Describes (· ∈ words) := by
  induction words with
  | nil => exact absurd rfl h
  | cons w words ih =>
    cases words with
    | nil => exact (describes_literal w).congr fun t => by simp
    | cons w' words =>
      refine (describes_orElse (describes_literal w) (ih (by simp))).congr fun t => ?_
      simp [List.mem_cons]

/-! ## Preferred readings -/

theorem ends_seq (a b : Pattern) : (a ++ b).ends = fun c => (a.ends c).flatMap b.ends := rfl

/-- The preferred reading of two patterns in a row, when the second one can always be read. -/
theorem head?_ends_seq {a b : Pattern} {c : Cursor} (total : ∀ e, b.ends e ≠ []) :
    ((a ++ b).ends c).head? = (a.ends c).head?.bind fun e => (b.ends e).head? := by
  change ((a.ends c).flatMap b.ends).head? = _
  cases a.ends c with
  | nil => rfl
  | cons e es =>
    obtain ⟨d, ds, hd⟩ := List.exists_cons_of_ne_nil (total e)
    simp only [List.flatMap_cons, hd, List.cons_append, List.head?_cons, Option.bind_some]

/-- The preferred reading of a run of characters is the longest one. -/
theorem head?_ends_run (p : Char → Bool) (c : Cursor) :
    ((run p).ends c).head? = some (c.after (c.rest.takeWhile p) (c.rest.dropWhile p)) := by
  simp only [run, ends, if_true, List.head?_reverse]
  exact Cursor.getLast?_stops p c.groups c.past c.rest c.offset

/-- A run of characters is read everywhere, perhaps an empty one. -/
theorem ends_run_ne_nil (p : Char → Bool) (c : Cursor) : (run p).ends c ≠ [] := fun none => by
  have longest := head?_ends_run p c
  rw [none] at longest
  cases longest

end Pattern

end Modulize
