import Modulize.Qualified
import Modulize.Proofs.Text
import Modulize.Proofs.Pattern.Ends

/-!
# Where a reference stands

A reference to a namespace stands at a place of a text (`StandsAt`) when the text behind the place
begins with a spelling of the segments of the namespace (`Spells`), and neither the character
before the spelling nor the one behind it may touch a reference (`Clear`). These are the readings of
the pattern for references (`mem_ends_reference`).

For namespaces whose segments are identifiers (`IsNamespace`) spellings are easy to tell apart.

* An identifier character inside a spelling comes directly after another one or, with blanks
  between, after a dot (`Spells.inner`).
* Of two spellings that a text begins with, one spells the first segments of the other
  (`Spells.prefix_or_prefix`); so namespaces of the same length that stand at the same place are the
  same (`StandsAt.eq_of_length_eq`).
-/

namespace Modulize.Qualified

open Pattern

/-! ## Characters that touch a reference -/

theorem guards_of_isIdent {a : Char} (h : isIdent a = true) : guards a = true := by
  simp [guards, h]

/-- The first character of a text, if there is one, may touch a reference. -/
def Clear (t : Text) : Prop := ∀ a ∈ t.head?, guards a = false

theorem Clear.head_not_isIdent {t : Text} (h : Clear t) : ∀ a ∈ t.head?, isIdent a = false := by
  intro a ha
  have hg := h a ha
  simp only [guards, Bool.or_eq_false_iff] at hg
  exact hg.1.1.1

theorem clear_cons {a : Char} {t : Text} : Clear (a :: t) ↔ guards a = false := by simp [Clear]

theorem not_clear_of_isIdent {a : Char} {t : Text} (h : isIdent a = true) : ¬ Clear (a :: t) := by
  simp [clear_cons, guards_of_isIdent h]

/-- A text that consists of one or more identifier characters. -/
def IsIdentifier (s : Text) : Prop := s ≠ [] ∧ s.all isIdent = true

/-- A dotted name whose segments are identifiers. -/
def IsNamespace (name : Text) : Prop := ∀ s ∈ segments name, IsIdentifier s

instance (s : Text) : Decidable (IsIdentifier s) := inferInstanceAs (Decidable (_ ∧ _))

instance (name : Text) : Decidable (IsNamespace name) :=
  inferInstanceAs (Decidable (∀ s ∈ segments name, IsIdentifier s))

theorem IsIdentifier.not_mem {s : Text} {a : Char} (h : IsIdentifier s) (ha : isIdent a = false) :
    a ∉ s := not_mem_of_all h.2 ha

theorem IsIdentifier.exists_cons {s : Text} (h : IsIdentifier s) :
    ∃ a r, s = a :: r ∧ isIdent a = true := by
  obtain ⟨hne, hs⟩ := h
  obtain ⟨a, r, rfl⟩ := List.exists_cons_of_ne_nil hne
  exact ⟨a, r, rfl, (Bool.and_eq_true_iff.1 hs).1⟩

theorem IsIdentifier.exists_concat {s : Text} (h : IsIdentifier s) :
    ∃ r a, s = r ++ [a] ∧ isIdent a = true := by
  exact exists_concat_of_all h.2 h.1 (List.append_nil s).symm

/-! ## Spellings -/

/-- A dot with any blanks around it. -/
def IsGap (g : Text) : Prop :=
  ∃ b b', g = b ++ '.' :: b' ∧ b.all isBlank = true ∧ b'.all isBlank = true

/-- A text that spells some segments, with a dot and any blanks between neighbours. -/
inductive Spells : List Text → Text → Prop
  | nothing : Spells [] []
  | last (s : Text) : Spells [s] s
  | dot (s : Text) {s' : Text} {ss : List Text} {gap piece : Text} (hg : IsGap gap)
      (h : Spells (s' :: ss) piece) : Spells (s :: s' :: ss) (s ++ (gap ++ piece))

/-- Segments with dots between them are spelled without blanks. -/
theorem spells_joinWith (ss : List Text) : Spells ss (Text.joinWith ['.'] ss) := by
  induction ss with
  | nil => exact .nothing
  | cons s ss ih =>
    cases ss with
    | nil => exact .last s
    | cons s' ss => simpa [Text.joinWith] using Spells.dot s ⟨[], [], rfl, rfl, rfl⟩ ih

theorem IsGap.all_not_isIdent {g : Text} (h : IsGap g) : (g.all fun a => ! isIdent a) = true := by
  obtain ⟨b, b', rfl, hb, hb'⟩ := h
  have dot : isIdent '.' = false := by decide
  rw [List.all_eq_true] at hb hb' ⊢
  intro a ha
  rcases List.mem_append.1 ha with ha | ha
  · simp [isIdent_eq_false_of_isBlank (hb a ha)]
  · rcases List.mem_cons.1 ha with rfl | ha
    · simp [dot]
    · simp [isIdent_eq_false_of_isBlank (hb' a ha)]

theorem IsGap.ne_nil {g : Text} (h : IsGap g) : g ≠ [] := by
  obtain ⟨b, b', rfl, -, -⟩ := h
  simp

theorem IsGap.head_not_isIdent {g : Text} (h : IsGap g) (t : Text) :
    ∀ a ∈ (g ++ t).head?, isIdent a = false := by
  intro a ha
  obtain ⟨b, r, rfl⟩ := List.exists_cons_of_ne_nil h.ne_nil
  obtain rfl : b = a := Option.some.inj ha
  simpa using List.all_eq_true.1 h.all_not_isIdent b List.mem_cons_self

theorem describes_spacedSegments (ss : List Text) : (spacedSegments ss).Describes (Spells ss) := by
  fun_induction spacedSegments ss with
  | case1 =>
    refine describes_nothing.congr fun t => ⟨?_, ?_⟩
    · rintro rfl
      exact .nothing
    · rintro ⟨⟩
      rfl
  | case2 s =>
    refine (describes_literal s).congr fun t => ⟨?_, ?_⟩
    · rintro rfl
      exact .last _
    · rintro ⟨⟩
      rfl
  | case3 s ss hne ih =>
    obtain ⟨s', ss, rfl⟩ := List.exists_cons_of_ne_nil hne
    refine (((((describes_literal s).seq (describes_run isBlank)).seq
      (describes_one (· == '.'))).seq (describes_run isBlank)).seq ih).congr fun t => ⟨?_, ?_⟩
    · rintro ⟨_, piece, ⟨_, b', ⟨_, _, ⟨_, b, rfl, hb, rfl⟩, ⟨a, ha, rfl⟩, rfl⟩, hb', rfl⟩, h, rfl⟩
      obtain rfl := eq_of_beq ha
      have gap : IsGap (b ++ '.' :: b') := ⟨b, b', rfl, hb, hb'⟩
      simpa using Spells.dot _ gap h
    · intro h
      cases h with
      | @dot _ _ _ gap piece hg h =>
        obtain ⟨b, b', rfl, hb, hb'⟩ := hg
        exact ⟨_, piece, ⟨_, b', ⟨_, _, ⟨_, b, rfl, hb, rfl⟩, ⟨'.', rfl, rfl⟩, rfl⟩, hb', rfl⟩, h,
          by simp⟩

/-! ## Spellings of identifiers -/

namespace Spells

variable {s : Text} {ss ss' : List Text} {piece rest : Text}

/-- A spelling begins with an identifier character. -/
theorem exists_cons (h : Spells ss piece) (hne : ss ≠ []) (hss : ∀ s ∈ ss, IsIdentifier s) :
    ∃ a r, piece = a :: r ∧ isIdent a = true := by
  cases h with
  | nothing => exact absurd rfl hne
  | last => exact (hss _ List.mem_cons_self).exists_cons
  | dot s hg h =>
    obtain ⟨a, r, rfl, ha⟩ := (hss s List.mem_cons_self).exists_cons
    exact ⟨a, _, rfl, ha⟩

/-- A spelling ends with an identifier character. -/
theorem exists_concat (h : Spells ss piece) (hne : ss ≠ []) (hss : ∀ s ∈ ss, IsIdentifier s) :
    ∃ r a, piece = r ++ [a] ∧ isIdent a = true := by
  induction h with
  | nothing => exact absurd rfl hne
  | last s => exact (hss s List.mem_cons_self).exists_concat
  | @dot s _ _ gap _ hg _ ih =>
    obtain ⟨r, a, rfl, ha⟩ := ih (by simp) fun s hs => hss s (List.mem_cons_of_mem _ hs)
    exact ⟨s ++ (gap ++ r), a, by simp, ha⟩

/-- A spelling begins with the whole of the first segment. -/
theorem exists_head (h : Spells ss piece) (hne : ss ≠ []) :
    ∃ s u, ss.head? = some s ∧ piece = s ++ u ∧
      ∀ rest, Clear rest → ∀ a ∈ (u ++ rest).head?, isIdent a = false := by
  cases h with
  | nothing => exact absurd rfl hne
  | last => exact ⟨_, [], rfl, (List.append_nil _).symm, fun _ => Clear.head_not_isIdent⟩
  | dot s hg h =>
    refine ⟨s, _, rfl, rfl, fun rest _ => ?_⟩
    rw [List.append_assoc]
    exact hg.head_not_isIdent _

/-- An identifier character inside a spelling comes directly after another one, or after a dot and
any blanks. -/
theorem inner (h : Spells ss piece) (hss : ∀ s ∈ ss, IsIdentifier s) {x y : Text} {a : Char}
    (hx : x ≠ []) (ha : isIdent a = true) (split : piece = x ++ a :: y) :
    (∃ x' b, x = x' ++ [b] ∧ isIdent b = true) ∨
      ∃ x' b, x = x' ++ '.' :: b ∧ b.all isBlank = true := by
  induction h generalizing x with
  | nothing => simp at split
  | last s => exact Or.inl (exists_concat_of_all (hss s List.mem_cons_self).2 hx (split.trans rfl))
  | @dot s s' ss gap piece hg h ih =>
    rcases List.append_eq_append_iff.1 split with ⟨u, rfl, e⟩ | ⟨u, e, -⟩
    · -- the character stands behind the first segment, hence behind the gap
      have hgap := hg.all_not_isIdent
      obtain ⟨x', rfl, e'⟩ := append_eq_append_cons hgap (by simp [ha]) e
      by_cases hx' : x' = []
      · subst hx'
        obtain ⟨b, b', rfl, -, hb'⟩ := hg
        exact Or.inr ⟨s ++ b, b', by simp, hb'⟩
      · have hss' : ∀ s ∈ s' :: ss, IsIdentifier s := fun s hs => hss s (List.mem_cons_of_mem _ hs)
        rcases ih hss' hx' e' with ⟨r, b, rfl, hb⟩ | ⟨r, b, rfl, hb⟩
        · exact Or.inl ⟨s ++ (gap ++ r), b, by simp, hb⟩
        · exact Or.inr ⟨s ++ (gap ++ r), b, by simp, hb⟩
    · exact Or.inl (exists_concat_of_all (hss s List.mem_cons_self).2 hx e)

theorem head_isIdent (h : Spells ss piece) (hne : ss ≠ []) (hss : ∀ s ∈ ss, IsIdentifier s)
    (t : Text) : ∀ a ∈ (piece ++ t).head?, (! isIdent a) = false := by
  obtain ⟨b, r, rfl, hb⟩ := h.exists_cons hne hss
  intro a ha
  obtain rfl : b = a := Option.some.inj ha
  simp [hb]

/-- Of two spellings that a text begins with, one spells the first segments of the other. -/
theorem prefix_or_prefix {piece' rest' : Text} (h : Spells ss piece) (h' : Spells ss' piece')
    (hss : ∀ s ∈ ss, IsIdentifier s) (hss' : ∀ s ∈ ss', IsIdentifier s)
    (apart : ∀ a ∈ rest.head?, isIdent a = false) (apart' : ∀ a ∈ rest'.head?, isIdent a = false)
    (e : piece ++ rest = piece' ++ rest') :
    (ss <+: ss' ∨ ss' <+: ss) ∧ (ss = ss' → piece = piece') := by
  induction h generalizing ss' piece' with
  | nothing =>
    refine ⟨Or.inl (List.nil_prefix), ?_⟩
    rintro rfl
    cases h'
    rfl
  | last s =>
    have hs := (hss s List.mem_cons_self).2
    cases h' with
    | nothing => exact ⟨Or.inr (List.nil_prefix), fun e => by cases e⟩
    | last =>
      have hs' := (hss' _ List.mem_cons_self).2
      obtain ⟨rfl, -⟩ := append_inj_of_all hs hs' apart apart' e
      exact ⟨Or.inl (List.prefix_refl _), fun _ => rfl⟩
    | dot s' hg' h' =>
      have hs' := (hss' _ List.mem_cons_self).2
      rw [List.append_assoc, List.append_assoc] at e
      obtain ⟨rfl, -⟩ :=
        append_inj_of_all hs hs' apart (hg'.head_not_isIdent _) e
      exact ⟨Or.inl ⟨_, rfl⟩, fun e => by cases e⟩
  | @dot s s₂ ss gap piece hg h ih =>
    have hs := (hss s List.mem_cons_self).2
    rw [List.append_assoc, List.append_assoc] at e
    cases h' with
    | nothing => exact ⟨Or.inr (List.nil_prefix), fun e => by cases e⟩
    | last =>
      have hs' := (hss' _ List.mem_cons_self).2
      obtain ⟨rfl, -⟩ :=
        append_inj_of_all hs hs' (hg.head_not_isIdent _) apart' e
      exact ⟨Or.inr ⟨_, rfl⟩, fun e => by cases e⟩
    | @dot s' s₂' ss' gap' piece' hg' h' =>
      have hs' := (hss' _ List.mem_cons_self).2
      have tail : ∀ t ∈ s₂ :: ss, IsIdentifier t := fun t ht => hss t (List.mem_cons_of_mem _ ht)
      have tail' : ∀ t ∈ s₂' :: ss', IsIdentifier t := fun t ht =>
        hss' t (List.mem_cons_of_mem _ ht)
      rw [List.append_assoc, List.append_assoc] at e
      obtain ⟨rfl, e₂⟩ :=
        append_inj_of_all hs hs' (hg.head_not_isIdent _) (hg'.head_not_isIdent _) e
      obtain ⟨rfl, e₃⟩ := append_inj_of_all hg.all_not_isIdent hg'.all_not_isIdent
        (h.head_isIdent (by simp) tail _) (h'.head_isIdent (by simp) tail' _) e₂
      obtain ⟨comparable, same⟩ := ih h' tail tail' e₃
      refine ⟨comparable.imp ?_ ?_, fun e => ?_⟩
      · exact fun hp => (List.prefix_cons_inj s).2 hp
      · exact fun hp => (List.prefix_cons_inj s).2 hp
      · rw [same (List.cons.inj e).2]

end Spells

/-! ## Where segments begin -/

/-- A beginning of an identifier that does not end in one of its characters is empty. -/
theorem IsIdentifier.eq_nil_of_edge {s x u : Text} (hs : IsIdentifier s) (e : s = x ++ u)
    (edge : ∀ b ∈ x.getLast?, isIdent b = false) : x = [] := by
  rcases List.eq_nil_or_concat x with rfl | ⟨x', b, rfl⟩
  · rfl
  · have hb : isIdent b = true := List.all_eq_true.1 hs.2 b (by simp [e])
    rw [edge b (by simp)] at hb
    cases hb

/-- An identifier that begins in a text which begins with an identifier begins with it, or behind
it. -/
theorem IsIdentifier.begins_or_behind {g w v x y : Text} {a : Char} (hw : IsIdentifier w)
    (hg : (g.all fun a => ! isIdent a) = true) (split : g ++ (w ++ v) = x ++ a :: y)
    (ha : isIdent a = true) (edge : ∀ b ∈ x.getLast?, isIdent b = false) :
    a :: y = w ++ v ∨ ∃ x', x = g ++ (w ++ x') ∧ v = x' ++ a :: y := by
  obtain ⟨x', rfl, e⟩ := append_eq_append_cons hg (by simp [ha]) split
  rcases List.append_eq_append_iff.1 e with ⟨u, rfl, e'⟩ | ⟨u, e', tail⟩
  · exact Or.inr ⟨u, rfl, e'⟩
  · obtain rfl := hw.eq_nil_of_edge e' fun b hb => edge b (Text.mem_getLast?_append hb)
    exact Or.inl e.symm

/-- An identifier that begins in a spelling is one of the segments. -/
theorem Spells.segment_at {ss : List Text} {piece x y : Text} {a : Char} (h : Spells ss piece)
    (hss : ∀ s ∈ ss, IsIdentifier s) (split : piece = x ++ a :: y) (ha : isIdent a = true)
    (edge : ∀ b ∈ x.getLast?, isIdent b = false) :
    ∃ s ∈ ss, ∃ u, a :: y = s ++ u ∧ ∀ b ∈ u.head?, isIdent b = false := by
  induction h generalizing x with
  | nothing => simp at split
  | last s =>
    obtain rfl := (hss s List.mem_cons_self).eq_nil_of_edge split edge
    exact ⟨s, List.mem_cons_self, [], by simpa using split.symm, by simp⟩
  | @dot s s' ss gap piece hg h ih =>
    rcases List.append_eq_append_iff.1 split with ⟨u, rfl, e⟩ | ⟨u, e, e'⟩
    · obtain ⟨x', rfl, e'⟩ := append_eq_append_cons hg.all_not_isIdent (by simp [ha]) e
      obtain ⟨t, ht, found⟩ := ih (fun t ht => hss t (List.mem_cons_of_mem _ ht)) e' fun b hb =>
        edge b (Text.mem_getLast?_append (Text.mem_getLast?_append hb))
      exact ⟨t, List.mem_cons_of_mem _ ht, found⟩
    · obtain rfl := (hss s List.mem_cons_self).eq_nil_of_edge e edge
      obtain rfl : s = u := e
      exact ⟨s, List.mem_cons_self, gap ++ piece, e', hg.head_not_isIdent _⟩

/-- A spelling of one more segment is a spelling of the others, a gap and that segment. -/
theorem spells_concat_iff {ss : List Text} (hne : ss ≠ []) {s t : Text} :
    Spells (ss ++ [s]) t ↔ ∃ head g, Spells ss head ∧ IsGap g ∧ t = head ++ (g ++ s) := by
  induction ss generalizing t with
  | nil => exact absurd rfl hne
  | cons s₁ ss ih =>
    cases ss with
    | nil =>
      constructor
      · rintro (_ | _ | @⟨_, _, _, g, piece, hg, h⟩)
        cases h
        exact ⟨s₁, g, .last s₁, hg, rfl⟩
      · rintro ⟨head, g, h, hg, rfl⟩
        cases h
        exact .dot s₁ hg (.last s)
    | cons s₂ ss =>
      constructor
      · rintro (_ | _ | @⟨_, _, _, g, piece, hg, h⟩)
        obtain ⟨head, g', spelled, hg', rfl⟩ := (ih (by simp)).1 h
        exact ⟨s₁ ++ (g ++ head), g', .dot s₁ hg spelled, hg', by simp⟩
      · rintro ⟨head, g', h, hg', rfl⟩
        cases h with
        | @dot _ _ _ g piece hg h =>
          have := (ih (by simp)).2 ⟨piece, g', h, hg', rfl⟩
          simpa using Spells.dot s₁ hg this

/-- A segment stands in a spelling. -/
theorem Spells.infix_of_mem {ss : List Text} {t s : Text} (h : Spells ss t) (hs : s ∈ ss) :
    s <:+: t := by
  induction h with
  | nothing => simp at hs
  | last => exact List.mem_singleton.1 hs ▸ List.infix_refl _
  | @dot s' _ _ g piece _ _ ih =>
    rcases List.mem_cons.1 hs with rfl | hs
    · exact ⟨[], g ++ piece, by simp⟩
    · exact (ih hs).trans ⟨s' ++ g, [], by simp⟩

/-! ## References -/

/-- A reference to a namespace stands at a place: it is written as `piece`, behind `past` (with its
last character first) and before `rest`. -/
structure StandsAt (name past piece rest : Text) : Prop where
  spelled : Spells (segments name) piece
  before : Clear past
  after : Clear rest

/-- **The readings of a reference are the places where it stands.** -/
theorem mem_ends_reference {name : Text} {c d : Cursor} :
    d ∈ (reference name).ends c ↔
      ∃ piece rest, c.rest = piece ++ rest ∧ StandsAt name c.past piece rest ∧
        d = c.after piece rest := by
  have spelled : (spaced name).Describes (Spells (segments name)) := describes_spacedSegments _
  unfold reference
  rw [mem_ends_seq]
  simp only [mem_ends_seq, mem_ends_notAfter, mem_ends_notBefore]
  constructor
  · rintro ⟨e, ⟨_, ⟨before, rfl⟩, he⟩, after, rfl⟩
    obtain ⟨piece, rest, hc, hp, rfl⟩ := (spelled _ _).1 he
    exact ⟨piece, rest, hc, ⟨hp, before, after⟩, rfl⟩
  · rintro ⟨piece, rest, hc, stands, rfl⟩
    exact ⟨_, ⟨c, ⟨stands.before, rfl⟩, (spelled _ _).2 ⟨piece, rest, hc, stands.spelled, rfl⟩⟩,
      stands.after, rfl⟩

/-! ## Names and their segments -/

theorem splitOn_ne_nil (mark : Char) (t : Text) : Text.splitOn mark t ≠ [] := by
  fun_induction Text.splitOn mark t with
  | case1 => simp
  | case2 => simp
  | case3 => simp
  | case4 => simp

theorem joinWith_splitOn (mark : Char) (t : Text) :
    Text.joinWith [mark] (Text.splitOn mark t) = t := by
  fun_induction Text.splitOn mark t with
  | case1 => rfl
  | case2 c r h => exact absurd h (splitOn_ne_nil mark r)
  | case3 r piece pieces h ih =>
    rw [h] at ih
    simp [Text.joinWith, ih]
  | case4 c r piece pieces h hc ih =>
    rw [h] at ih
    rw [← ih]
    cases pieces <;> rfl

theorem joinWith_isPrefix {glue : Text} {ss ss' : List Text} (h : ss <+: ss') :
    Text.joinWith glue ss <+: Text.joinWith glue ss' := by
  induction ss generalizing ss' with
  | nil => exact List.nil_prefix
  | cons s ss ih =>
    obtain ⟨ss', rfl⟩ := h
    cases ss with
    | nil =>
      cases ss' with
      | nil => exact List.prefix_refl _
      | cons s' ss' => exact ⟨glue ++ Text.joinWith glue (s' :: ss'), by simp [Text.joinWith]⟩
    | cons s₂ ss =>
      have front : s₂ :: ss <+: s₂ :: ss ++ ss' := ⟨ss', rfl⟩
      obtain ⟨u, hu⟩ := ih front
      refine ⟨u, ?_⟩
      simp only [List.cons_append, Text.joinWith] at hu ⊢
      rw [← hu, List.append_assoc]

theorem segments_ne_nil (name : Text) : segments name ≠ [] := splitOn_ne_nil '.' name

theorem IsNamespace.ne_nil {name : Text} (h : IsNamespace name) : name ≠ [] := by
  rintro rfl
  exact (h [] (by decide)).1 rfl

namespace StandsAt

variable {name past piece rest : Text}

theorem ne_nil (h : StandsAt name past piece rest) (hne : name ≠ []) : piece ≠ [] := by
  have joined : Text.joinWith ['.'] (segments name) = name := joinWith_splitOn '.' name
  have spelled := h.spelled
  generalize segments name = ss at joined spelled
  cases spelled with
  | nothing => exact absurd joined.symm hne
  | last =>
    obtain rfl : piece = name := joined
    exact hne
  | dot s hg h => simp [hg.ne_nil]

/-- A reference begins with an identifier character. -/
theorem exists_cons (h : StandsAt name past piece rest) (hn : IsNamespace name) :
    ∃ a r, piece = a :: r ∧ isIdent a = true :=
  h.spelled.exists_cons (segments_ne_nil name) hn

/-- A reference ends with an identifier character. -/
theorem exists_concat (h : StandsAt name past piece rest) (hn : IsNamespace name) :
    ∃ r a, piece = r ++ [a] ∧ isIdent a = true :=
  h.spelled.exists_concat (segments_ne_nil name) hn

theorem length_lt (h : StandsAt name past piece rest) (hn : IsNamespace name) :
    rest.length < (piece ++ rest).length := by
  obtain ⟨a, r, rfl, -⟩ := h.exists_cons hn
  simp only [List.length_append, List.length_cons]
  omega

/-- Namespaces of the same length that stand at the same place are the same. -/
theorem eq_of_length_eq {name' piece' rest' : Text} (h : StandsAt name past piece rest)
    (h' : StandsAt name' past piece' rest') (hn : IsNamespace name) (hn' : IsNamespace name')
    (e : piece ++ rest = piece' ++ rest') (length : name.length = name'.length) :
    name = name' ∧ piece = piece' := by
  obtain ⟨comparable, same⟩ := h.spelled.prefix_or_prefix h'.spelled hn hn'
    h.after.head_not_isIdent h'.after.head_not_isIdent e
  have joined (n : Text) : Text.joinWith ['.'] (segments n) = n := joinWith_splitOn '.' n
  have names : name = name' := by
    rw [← joined name, ← joined name'] at length ⊢
    rcases comparable with hp | hp
    · exact (joinWith_isPrefix hp).eq_of_length length
    · exact ((joinWith_isPrefix hp).eq_of_length length.symm).symm
  exact ⟨names, same (congrArg segments names)⟩

end StandsAt

end Modulize.Qualified
