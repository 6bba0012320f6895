import Modulize.Proofs.Pattern.Ends

/-!
# Matches and groups

A match found in a text is a reading at one of its places (`mem_allMatches`), and where it ends is a
place of the text too (`Cursor.Reads.isIn`). What a group has read is found at the end of a match
when no later part of the pattern records anything (`KeepsGroups`, `lookup?_close`).
-/

namespace Modulize

namespace Cursor

/-- A place of a text. -/
structure IsIn (c : Cursor) (t : Text) : Prop where
  text : t = c.past.reverse ++ c.rest
  offset : c.offset = c.past.length

variable {c d : Cursor} {t piece : Text}

theorem Reads.isIn (h : c.Reads piece d) (hc : c.IsIn t) : d.IsIn t := by
  constructor
  · rw [hc.text, h.rest, h.past]
    simp
  · rw [h.offset, hc.offset, h.past, List.length_append, List.length_reverse, Nat.add_comm]

theorem IsIn.drop (h : c.IsIn t) : t.drop c.offset = c.rest := by
  rw [h.text, h.offset, ← List.length_reverse, List.drop_left]

theorem Reads.textTo (h : c.Reads piece d) : c.textTo d = piece := by
  rw [Cursor.textTo, h.offset, h.rest]
  simp

/-- The text between two places. -/
theorem Reads.slice (h : c.Reads piece d) (hc : c.IsIn t) : t.slice c.offset d.offset = piece := by
  rw [Text.slice, hc.drop]
  exact h.textTo

end Cursor

namespace Pattern

theorem mem_matchesAt {r : Pattern} {c : Cursor} {m : Match} (h : m ∈ r.matchesAt c) :
    m.start = c ∧ m.stop ∈ r.ends c := by
  have mem_of_matchAt? {m : Match} (h : r.matchAt? c = some m) :
      m.start = c ∧ m.stop ∈ r.ends c := by
    rw [matchAt?_eq_head?, Option.map_eq_some_iff] at h
    obtain ⟨d, hd, rfl⟩ := h
    exact ⟨rfl, List.mem_of_mem_head? hd⟩
  unfold matchesAt at h
  split at h
  · simp at h
  · rename_i n hn
    split at h
    · rcases List.mem_cons.1 h with rfl | h
      · exact mem_of_matchAt? hn
      · rw [Option.mem_toList, longerMatchAt?, attempt_eq_findSome?] at h
        obtain ⟨d, hd, h⟩ := List.exists_of_findSome?_eq_some h
        split at h
        · cases h
        · obtain rfl := Option.some.inj h
          exact ⟨rfl, hd⟩
    · obtain rfl := List.mem_singleton.1 h
      exact mem_of_matchAt? hn

theorem mem_matchesFrom {r : Pattern} {skip offset : Nat} {past rest : Text} {m : Match}
    (h : m ∈ r.matchesFrom skip past offset rest) :
    (∃ x y, rest = x ++ y ∧ m.start = ⟨x.reverse ++ past, offset + x.length, y, []⟩) ∧
      m.stop ∈ r.ends m.start := by
  have later {a : Char} {past rest : Text} {offset : Nat} (h :
      (∃ x y, rest = x ++ y ∧ m.start = ⟨x.reverse ++ a :: past, offset + 1 + x.length, y, []⟩) ∧
        m.stop ∈ r.ends m.start) :
      (∃ x y, a :: rest = x ++ y ∧ m.start = ⟨x.reverse ++ past, offset + x.length, y, []⟩) ∧
        m.stop ∈ r.ends m.start := by
    obtain ⟨⟨x, y, rfl, hs⟩, he⟩ := h
    refine ⟨⟨a :: x, y, rfl, hs.trans ?_⟩, he⟩
    simp [Nat.add_assoc, Nat.add_comm 1]
  fun_induction matchesFrom r skip past offset rest with
  | case1 past offset =>
    obtain ⟨hs, he⟩ := mem_matchesAt h
    exact ⟨⟨[], [], rfl, hs⟩, hs ▸ he⟩
  | case2 => simp at h
  | case3 past offset a rest c found ih =>
    rcases List.mem_append.1 h with h | h
    · obtain ⟨hs, he⟩ := mem_matchesAt h
      exact ⟨⟨[], a :: rest, rfl, hs⟩, hs ▸ he⟩
    · exact later (ih h)
  | case4 past offset a rest skip ih => exact later (ih h)

/-- **A match in a text is a reading at one of its places.** -/
theorem mem_allMatches {r : Pattern} {t : Text} {m : Match} (h : m ∈ r.allMatches t) :
    m.start.IsIn t ∧ m.start.groups = [] ∧ m.stop ∈ r.ends m.start := by
  obtain ⟨⟨x, y, rfl, hs⟩, he⟩ := mem_matchesFrom h
  refine ⟨⟨?_, ?_⟩, ?_, he⟩
  · simp [hs]
  · simp [hs]
  · rw [hs]

/-- What stands before a match, its text, and what follows. -/
theorem eq_append_of_mem_allMatches {r : Pattern} {t : Text} {m : Match} (h : m ∈ r.allMatches t) :
    t = m.start.past.reverse ++ (m.text ++ m.stop.rest) := by
  obtain ⟨isIn, -, hstop⟩ := mem_allMatches h
  obtain ⟨piece, reads⟩ := reads_of_mem_ends hstop
  rw [isIn.text, reads.rest, Match.text, reads.textTo]

/-- A match ends within the text. -/
theorem stop_le_of_mem_allMatches {r : Pattern} {t : Text} {m : Match} (h : m ∈ r.allMatches t) :
    m.stop.offset ≤ t.length := by
  obtain ⟨isIn, -, hstop⟩ := mem_allMatches h
  obtain ⟨piece, reads⟩ := reads_of_mem_ends hstop
  have stop := reads.isIn isIn
  rw [stop.offset, stop.text, List.length_append, List.length_reverse]
  exact Nat.le_add_right _ _

/-! ## Groups -/

/-- The readings of the pattern record nothing. -/
def KeepsGroups (r : Pattern) : Prop := ∀ c d, d ∈ r.ends c → d.groups = c.groups

theorem Describes.keepsGroups {r : Pattern} {P : Text → Prop} (h : r.Describes P) :
    r.KeepsGroups := by
  intro c d hd
  obtain ⟨piece, rest, -, -, rfl⟩ := (h c d).1 hd
  rfl

theorem keepsGroups_place (p : Option Char → Text → Bool) : (place p).KeepsGroups := by
  intro c d hd
  rw [(mem_ends_place.1 hd).2]

theorem mem_ends_group {i : Nat} {r : Pattern} {c d : Cursor} :
    d ∈ (group i r).ends c ↔ ∃ e ∈ r.ends c, d = c.close i e := by
  rw [ends, List.mem_map]
  simp [eq_comm]

theorem lookup?_close (i : Nat) (c e : Cursor) :
    lookup? i (c.close i e).groups = some ⟨c.offset, e.offset, c.textTo e⟩ := if_pos rfl

end Pattern

end Modulize
