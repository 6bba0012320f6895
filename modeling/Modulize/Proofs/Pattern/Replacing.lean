import Modulize.Proofs.Pattern.Matches

/-!
# Replacing the matches of a pattern

The matches behind a place are found from left to right. For a pattern without empty readings
(`Consumes`) there are none at the end of the text (`matchesFrom_nil`); where nothing can be read,
one character is passed over (`matchesFrom_of_none`), and otherwise the preferred reading
(`matchesFrom_of_match`). `Consumes.induct` is the induction along these three steps; by it no
reading is missed but for those that a match before them covers (`exists_mem_allMatches`).
`replaceAt` is what `replace` makes of the text behind a place; it goes along with the matches
(`replaceAt_nil`, `replaceAt_of_none`, `replaceAt_of_match`).

`occursIn_eq_false` says when a search fails; then there are no matches (`allMatches_eq_nil`).
`replaceFirst_nothing` says what the deletion of a match at the beginning of a text leaves.
-/

namespace Modulize.Pattern

theorem offset_le_of_mem_matchesFrom {r : Pattern} {skip offset : Nat} {past rest : Text}
    {m : Match} (h : m ∈ r.matchesFrom skip past offset rest) : offset ≤ m.start.offset := by
  obtain ⟨⟨x, y, -, hs⟩, -⟩ := mem_matchesFrom h
  rw [hs]
  exact Nat.le_add_right _ _

/-- Matches are found from left to right. -/
theorem pairwise_start_matchesFrom (r : Pattern) (skip offset : Nat) (past rest : Text) :
    (r.matchesFrom skip past offset rest).Pairwise fun m m' =>
      m.start.offset ≤ m'.start.offset := by
  have here (c : Cursor) :
      (r.matchesAt c).Pairwise fun m m' => m.start.offset ≤ m'.start.offset := by
    refine List.Pairwise.imp_of_mem (fun hm hm' _ => ?_)
      (List.pairwise_of_forall fun _ _ => trivial)
    simp only [(mem_matchesAt hm).1, (mem_matchesAt hm').1, Nat.le_refl]
  fun_induction matchesFrom r skip past offset rest with
  | case1 past offset => exact here _
  | case2 => exact .nil
  | case3 past offset a rest c found ih =>
    refine List.pairwise_append.2 ⟨here c, ih, fun m hm m' hm' => ?_⟩
    have := offset_le_of_mem_matchesFrom hm'
    rw [(mem_matchesAt hm).1]
    exact Nat.le_of_succ_le this
  | case4 past offset a rest skip ih => exact ih

/-- Matches are looked for behind the characters to be passed over. -/
theorem matchesFrom_append (r : Pattern) (piece past rest : Text) (offset : Nat) :
    r.matchesFrom piece.length past offset (piece ++ rest) =
      r.matchesFrom 0 (piece.reverse ++ past) (offset + piece.length) rest := by
  induction piece generalizing past offset with
  | nil => rfl
  | cons a piece ih =>
    have h := ih (a :: past) (offset + 1)
    simp only [List.length_cons, List.cons_append, matchesFrom, List.reverse_cons,
      List.append_assoc, List.nil_append]
    rw [h]
    congr 1
    omega

/-- The pattern has no empty reading. -/
def Consumes (r : Pattern) : Prop := ∀ c d, d ∈ r.ends c → c.offset < d.offset

theorem consumes_one (p : Char → Bool) : (one p).Consumes := by
  intro c d hd
  obtain ⟨_, rest, -, ⟨a, -, rfl⟩, rfl⟩ := (describes_one p c d).1 hd
  exact Nat.lt_succ_self _

section

variable {a b : Pattern}

theorem Consumes.seq_left (h : a.Consumes) (b : Pattern) : (a ++ b).Consumes := by
  intro c d hd
  obtain ⟨e, he, hd⟩ := mem_ends_seq.1 hd
  obtain ⟨piece, reads⟩ := reads_of_mem_ends hd
  have := h c e he
  have := reads.offset
  omega

theorem Consumes.seq_right (a : Pattern) (h : b.Consumes) : (a ++ b).Consumes := by
  intro c d hd
  obtain ⟨e, he, hd⟩ := mem_ends_seq.1 hd
  obtain ⟨piece, reads⟩ := reads_of_mem_ends he
  have := h e d hd
  have := reads.offset
  omega

end

/-- The text behind a place with every match in it replaced. -/
def replaceAt (r : Pattern) (f : Match → Text) (past : Text) (offset : Nat) (rest : Text) : Text :=
  rebuild f offset rest (r.matchesFrom 0 past offset rest)

section Replacing

variable {r : Pattern} (f : Match → Text) {past : Text} {offset : Nat}

theorem matchesAt_of_ends_eq_nil {c : Cursor} (h : r.ends c = []) : r.matchesAt c = [] := by
  simp [matchesAt, matchAt?_eq_head?, h]

theorem matchesAt_of_ends_eq_cons (hr : r.Consumes) {c d : Cursor} {ds : List Cursor}
    (h : r.ends c = d :: ds) : r.matchesAt c = [⟨c, d⟩] := by
  have hd : c.offset < d.offset := hr c d (h ▸ List.mem_cons_self)
  simp only [matchesAt, matchAt?_eq_head?, h, List.head?_cons, Option.map_some]
  exact if_neg (by omega)

/-- At the end of a text nothing is left that could be read. -/
theorem Consumes.ends_nil (hr : r.Consumes) : r.ends ⟨past, offset, [], []⟩ = [] := by
  refine List.eq_nil_iff_forall_not_mem.2 fun d hd => ?_
  obtain ⟨piece, hp⟩ := reads_of_mem_ends hd
  obtain ⟨rfl, -⟩ := List.append_eq_nil_iff.1 hp.rest.symm
  have := hr _ _ hd
  have := hp.offset
  simp only [List.length_nil] at *
  omega

theorem matchesFrom_nil (hr : r.Consumes) : r.matchesFrom 0 past offset [] = [] :=
  matchesAt_of_ends_eq_nil hr.ends_nil

theorem matchesFrom_of_none {a : Char} {rest : Text}
    (h : r.ends ⟨past, offset, a :: rest, []⟩ = []) :
    r.matchesFrom 0 past offset (a :: rest) = r.matchesFrom 0 (a :: past) (offset + 1) rest := by
  simp [matchesFrom, matchesAt_of_ends_eq_nil h, covered]

theorem matchesFrom_of_match (hr : r.Consumes) {piece rest : Text} {d : Cursor} {ds : List Cursor}
    (h : r.ends ⟨past, offset, piece ++ rest, []⟩ = d :: ds)
    (hd : Cursor.Reads ⟨past, offset, piece ++ rest, []⟩ piece d) :
    r.matchesFrom 0 past offset (piece ++ rest) =
      ⟨⟨past, offset, piece ++ rest, []⟩, d⟩ ::
        r.matchesFrom 0 (piece.reverse ++ past) (offset + piece.length) rest := by
  have hlt : offset < d.offset := hr _ d (h ▸ List.mem_cons_self)
  have hoff : d.offset = offset + piece.length := hd.offset
  cases piece with
  | nil => simp only [List.length_nil] at hoff; omega
  | cons a piece =>
    have hc : d.offset - offset - 1 = piece.length := by
      rw [hoff, List.length_cons]
      omega
    rw [← matchesFrom_append]
    simp only [List.cons_append, matchesFrom] at h ⊢
    rw [matchesAt_of_ends_eq_cons hr h]
    simp [covered, hc, matchesFrom]

/-- **Induction along a text**: at its end, in front of a character at which nothing can be read,
and in front of the preferred reading. -/
theorem Consumes.induct (hr : r.Consumes) {motive : Text → Nat → Text → Prop}
    (done : ∀ past offset, motive past offset [])
    (keep : ∀ past offset a rest, r.ends ⟨past, offset, a :: rest, []⟩ = [] →
      motive (a :: past) (offset + 1) rest → motive past offset (a :: rest))
    (swap : ∀ past offset piece d ds, r.ends ⟨past, offset, piece ++ d.rest, []⟩ = d :: ds →
      Cursor.Reads ⟨past, offset, piece ++ d.rest, []⟩ piece d →
      motive (piece.reverse ++ past) (offset + piece.length) d.rest →
      motive past offset (piece ++ d.rest))
    (past : Text) (offset : Nat) (t : Text) : motive past offset t := by
  induction hk : t.length using Nat.strongRecOn generalizing past offset t with
  | ind k ih =>
    cases t with
    | nil => exact done past offset
    | cons a rest =>
      cases hends : r.ends ⟨past, offset, a :: rest, []⟩ with
      | nil => exact keep past offset a rest hends (ih rest.length (by simp [← hk]) _ _ _ rfl)
      | cons d ds =>
        have hd : d ∈ r.ends ⟨past, offset, a :: rest, []⟩ := hends ▸ List.mem_cons_self
        obtain ⟨piece, reads⟩ := reads_of_mem_ends hd
        have longer := hr _ d hd
        have e : a :: rest = piece ++ d.rest := reads.rest
        have shorter : d.rest.length < k := by
          have := reads.offset
          have := congrArg List.length e
          simp only [List.length_append] at *
          omega
        rw [e] at hends reads ⊢
        exact swap past offset piece d ds hends reads (ih _ shorter _ _ _ rfl)

/-- **Where the pattern can be read, a match is found** that begins there, or one that begins before
that place and ends behind it. -/
theorem exists_mem_matchesFrom (hr : r.Consumes) {x rest : Text}
    (h : r.ends ⟨x.reverse ++ past, offset + x.length, rest, []⟩ ≠ []) :
    ∃ m ∈ r.matchesFrom 0 past offset (x ++ rest), ∃ x₁ x₂, x = x₁ ++ x₂ ∧
      m.start = ⟨x₁.reverse ++ past, offset + x₁.length, x₂ ++ rest, []⟩ ∧
      x₂.length < m.text.length := by
  generalize e : x ++ rest = t
  induction past, offset, t using hr.induct generalizing x with
  | done past offset =>
    obtain ⟨rfl, rfl⟩ := List.append_eq_nil_iff.1 e
    exact absurd hr.ends_nil h
  | keep past offset a t none ih =>
    cases x with
    | nil =>
      obtain rfl : rest = a :: t := e
      exact absurd none h
    | cons b x =>
      obtain ⟨rfl, tail⟩ : b = a ∧ x ++ rest = t := List.cons.inj e
      have h' : r.ends ⟨x.reverse ++ b :: past, offset + 1 + x.length, rest, []⟩ ≠ [] := by
        simpa [Nat.add_assoc, Nat.add_comm 1] using h
      obtain ⟨m, hm, x₁, x₂, rfl, start, behind⟩ := ih h' tail
      rw [matchesFrom_of_none none]
      refine ⟨m, hm, b :: x₁, x₂, rfl, ?_, behind⟩
      simp [start, Nat.add_assoc, Nat.add_comm 1]
  | swap past offset piece d ds hends reads ih =>
    rw [matchesFrom_of_match hr hends reads]
    by_cases beyond : x.length < piece.length
    · refine ⟨_, List.mem_cons_self, [], x, rfl, by rw [e]; rfl, ?_⟩
      rwa [Match.text, reads.textTo]
    · obtain ⟨x, rfl⟩ : piece <+: x :=
        List.prefix_of_prefix_length_le ⟨d.rest, e.symm⟩ (List.prefix_append x rest) (by omega)
      have h' : r.ends ⟨x.reverse ++ (piece.reverse ++ past), offset + piece.length + x.length,
          rest, []⟩ ≠ [] := by
        simpa [Nat.add_assoc] using h
      obtain ⟨m, hm, x₁, x₂, rfl, start, behind⟩ := ih h' (by simpa using e)
      refine ⟨m, List.mem_cons_of_mem _ hm, piece ++ x₁, x₂, by simp, ?_, behind⟩
      simp [start, Nat.add_assoc]

theorem exists_mem_allMatches (hr : r.Consumes) (x rest : Text)
    (h : r.ends ⟨x.reverse, x.length, rest, []⟩ ≠ []) :
    ∃ m ∈ r.allMatches (x ++ rest), ∃ x₁ x₂, x = x₁ ++ x₂ ∧
      m.start = ⟨x₁.reverse, x₁.length, x₂ ++ rest, []⟩ ∧ x₂.length < m.text.length := by
  obtain ⟨m, hm, x₁, x₂, split, start, behind⟩ :=
    exists_mem_matchesFrom (x := x) hr (by rwa [List.append_nil, Nat.zero_add])
  rw [List.append_nil, Nat.zero_add] at start
  exact ⟨m, hm, x₁, x₂, split, start, behind⟩

theorem replaceAt_nil (hr : r.Consumes) : r.replaceAt f past offset [] = [] := by
  rw [replaceAt, matchesFrom_nil hr, rebuild]

theorem rebuild_cons {a : Char} {rest : Text} {ms : List Match}
    (h : ∀ m ∈ ms, offset + 1 ≤ m.start.offset) :
    rebuild f offset (a :: rest) ms = a :: rebuild f (offset + 1) rest ms := by
  cases ms with
  | nil => rfl
  | cons m ms =>
    obtain ⟨k, hk⟩ := Nat.exists_eq_add_of_le (h m List.mem_cons_self)
    have e : m.start.offset - offset = k + 1 := by omega
    have e' : m.start.offset - (offset + 1) = k := by omega
    simp only [rebuild, e, e', List.take_succ_cons, List.cons_append]

theorem replaceAt_of_none {a : Char} {rest : Text} (h : r.ends ⟨past, offset, a :: rest, []⟩ = []) :
    r.replaceAt f past offset (a :: rest) = a :: r.replaceAt f (a :: past) (offset + 1) rest := by
  rw [replaceAt, matchesFrom_of_none h]
  exact rebuild_cons f fun m => offset_le_of_mem_matchesFrom

theorem replaceAt_of_match (hr : r.Consumes) {piece rest : Text} {d : Cursor} {ds : List Cursor}
    (h : r.ends ⟨past, offset, piece ++ rest, []⟩ = d :: ds)
    (hd : Cursor.Reads ⟨past, offset, piece ++ rest, []⟩ piece d) :
    r.replaceAt f past offset (piece ++ rest) =
      f ⟨⟨past, offset, piece ++ rest, []⟩, d⟩ ++
        r.replaceAt f (piece.reverse ++ past) (offset + piece.length) rest := by
  have hoff : d.offset = offset + piece.length := hd.offset
  have hrest : d.rest = rest := (List.append_cancel_left hd.rest).symm
  rw [replaceAt, matchesFrom_of_match hr h hd, rebuild, hoff, hrest]
  simp [replaceAt]

/-- A text is passed over in which nothing can be read. -/
theorem replaceAt_append_of_none {x rest : Text}
    (h : ∀ x₁ x₂, x = x₁ ++ x₂ → x₂ ≠ [] →
      r.ends ⟨x₁.reverse ++ past, offset + x₁.length, x₂ ++ rest, []⟩ = []) :
    r.replaceAt f past offset (x ++ rest) =
      x ++ r.replaceAt f (x.reverse ++ past) (offset + x.length) rest := by
  induction x generalizing past offset with
  | nil => rfl
  | cons a x ih =>
    have here : r.ends ⟨past, offset, a :: (x ++ rest), []⟩ = [] := h [] (a :: x) rfl (by simp)
    rw [List.cons_append, replaceAt_of_none f here, ih fun x₁ x₂ e hne => ?_]
    · simp [Nat.add_assoc, Nat.add_comm 1]
    · have later := h (a :: x₁) x₂ (by simp [e]) hne
      simpa [Nat.add_assoc, Nat.add_comm 1] using later

end Replacing

/-! ## Searching -/

theorem find?_of_matchAt? {r : Pattern} {t : Text} {m : Match}
    (h : r.matchAt? (Cursor.start t) = some m) : r.find? t = some m := by
  unfold Cursor.start at h
  cases t with
  | nil => exact h
  | cons a t => rw [find?, findFrom, h]

/-- Deleting a match at the beginning leaves what follows it. -/
theorem replaceFirst_nothing {r : Pattern} {t : Text} {d : Cursor}
    (h : r.matchAt? (Cursor.start t) = some ⟨Cursor.start t, d⟩) :
    r.replaceFirst (fun _ => []) t = d.rest := by
  rw [replaceFirst, find?_of_matchAt? h]
  rfl

theorem findFrom_eq_none {r : Pattern} {past rest : Text} {offset : Nat}
    (h : ∀ x y, rest = x ++ y → r.matchAt? ⟨x.reverse ++ past, offset + x.length, y, []⟩ = none) :
    r.findFrom past offset rest = none := by
  induction rest generalizing past offset with
  | nil => exact h [] [] rfl
  | cons a rest ih =>
    have here : r.matchAt? ⟨past, offset, a :: rest, []⟩ = none := h [] (a :: rest) rfl
    rw [findFrom, here]
    refine ih fun x y e => ?_
    have behind := h (a :: x) y (congrArg _ e)
    rw [List.reverse_cons, List.append_assoc, List.length_cons, Nat.add_comm x.length,
      ← Nat.add_assoc] at behind
    exact behind

theorem matchAt?_of_findFrom_eq_none {r : Pattern} {past rest : Text} {offset : Nat}
    (h : r.findFrom past offset rest = none) {x y : Text} (e : rest = x ++ y) :
    r.matchAt? ⟨x.reverse ++ past, offset + x.length, y, []⟩ = none := by
  induction rest generalizing past offset x with
  | nil =>
    obtain ⟨rfl, rfl⟩ := List.append_eq_nil_iff.1 e.symm
    exact h
  | cons a rest ih =>
    unfold findFrom at h
    split at h
    · cases h
    · rename_i here
      cases x with
      | nil =>
        obtain rfl : a :: rest = y := e
        exact here
      | cons b x =>
        obtain ⟨rfl, e'⟩ := List.cons.inj e
        have behind := ih h e'
        rw [List.reverse_cons, List.append_assoc, List.length_cons, Nat.add_comm x.length,
          ← Nat.add_assoc]
        exact behind

theorem matchesFrom_eq_nil {r : Pattern} {past rest : Text} {offset : Nat}
    (h : r.findFrom past offset rest = none) : r.matchesFrom 0 past offset rest = [] := by
  induction rest generalizing past offset with
  | nil =>
    unfold findFrom at h
    simp [matchesFrom, matchesAt, h]
  | cons a rest ih =>
    unfold findFrom at h
    split at h
    · cases h
    · rename_i here
      simp [matchesFrom, matchesAt, here, covered, ih h]

/-- A pattern that does not occur in a text has no matches there. -/
theorem allMatches_eq_nil {r : Pattern} {t : Text} (h : r.occursIn t = false) :
    r.allMatches t = [] :=
  matchesFrom_eq_nil (Option.isSome_eq_false_iff.1 h |> Option.isNone_iff_eq_none.1)

/-- A pattern that can be read nowhere in a text does not occur in it. -/
theorem occursIn_eq_false {r : Pattern} {t : Text}
    (h : ∀ x y, t = x ++ y → r.matchAt? ⟨x.reverse, x.length, y, []⟩ = none) :
    r.occursIn t = false := by
  have none : r.find? t = none := findFrom_eq_none fun x y e => by simpa using h x y e
  simp [occursIn, none]

/-- A pattern does not occur in a text in which it has no readings. -/
theorem occursIn_eq_false_of_ends {r : Pattern} {t : Text}
    (h : ∀ x y d, t = x ++ y → d ∉ r.ends ⟨x.reverse, x.length, y, []⟩) : r.occursIn t = false := by
  refine occursIn_eq_false fun x y e => ?_
  rw [matchAt?_eq_head?, Option.map_eq_none_iff, List.head?_eq_none_iff]
  exact List.eq_nil_iff_forall_not_mem.2 fun d => h x y d e

/-- A pattern that occurs in a text can be read somewhere in it. -/
theorem exists_ends_of_occursIn {r : Pattern} {t : Text} (h : r.occursIn t = true) :
    ∃ x y d, t = x ++ y ∧ d ∈ r.ends ⟨x.reverse, x.length, y, []⟩ := by
  refine Classical.byContradiction fun none => ?_
  have absent : r.occursIn t = false :=
    occursIn_eq_false_of_ends fun x y d e hd => none ⟨x, y, d, e, hd⟩
  rw [h] at absent
  cases absent

/-- A pattern that does not occur in a text can be read nowhere in it. -/
theorem matchAt?_of_occursIn_eq_false {r : Pattern} {t x y : Text} (h : r.occursIn t = false)
    (e : t = x ++ y) : r.matchAt? ⟨x.reverse, x.length, y, []⟩ = none := by
  have none : r.findFrom [] 0 t = none := by
    simpa [occursIn, find?, Option.isSome_eq_false_iff] using h
  simpa using matchAt?_of_findFrom_eq_none none e

end Modulize.Pattern
