import Modulize.Class.Collect
import Modulize.Proofs.Class.Recasting
import Modulize.Proofs.Declaration.Headers
import Modulize.Proofs.Pattern.Composed

/-!
# The written forms of calls to the parent

A form of a call to the parent reads a dotted name with a parenthesis and the argument `this` behind
it (`Called`), and then a comma, or a member in quotation marks (`Quoted`). The dotted name consists
of fixed words, or there is the name of a member between two of them (`Exactly`, `WithMember`).

Every form recasts what it reads (`recasts_constructorForms`, `recasts_methodForms`). Which
delegations a form reads is told by the words in it (`handles_base`, `handles_call`,
`handles_applySome`), so that only those without a form are left in a constructor
(`constructor_survivors`) and in a method (`method_survivors`).
-/

namespace Modulize.Class

open Pattern Qualified Declaration

/-! ## Calls -/

/-- These segments, without notes. -/
def Exactly (ss₀ ss : List Text) (notes : List (Nat × Text)) : Prop := ss = ss₀ ∧ notes = []

/-- These segments and behind them the name of a member between two words; group 1 is the member. -/
def WithMember (ss₀ : List Text) (w w' : Text) (ss : List Text) (notes : List (Nat × Text)) :
    Prop :=
  ∃ m, IsIdentifier m ∧ ss = ss₀ ++ [w, m, w'] ∧ notes = [(1, m)]

/-- Spellings of some segments, with the notes that belong to them. -/
def Spelled (N : List Text → List (Nat × Text) → Prop) (t : Text) (notes : List (Nat × Text)) :
    Prop := ∃ ss, N ss notes ∧ Spells ss t

/-- The segments of one relation with one more of another. -/
def Snoc (N : List Text → List (Nat × Text) → Prop) (M : Text → List (Nat × Text) → Prop)
    (ss : List Text) (notes : List (Nat × Text)) : Prop :=
  ∃ ss' n s n', N ss' n ∧ M s n' ∧ ss = ss' ++ [s] ∧ notes = n' ++ n

/-- A spelling with the parenthesis behind it and the first argument `this`, and blanks. -/
def Called (N : List Text → List (Nat × Text) → Prop) (t : Text) (notes : List (Nat × Text)) :
    Prop :=
  ∃ head o b, t = head ++ (o ++ b) ∧ Spelled N head notes ∧ OpensThis o ∧ b.all isBlank = true

section

variable {r part : Pattern} {N : List Text → List (Nat × Text) → Prop}
  {M : Text → List (Nat × Text) → Prop}

theorem recordsAfter_standalone (name : Text) : (standalone name).RecordsAfter isDotted
    (Spelled (Exactly (segments name))) := by
  refine ((describes_spaced name).records.after isDotted).congr fun t notes => ⟨?_, ?_⟩
  · rintro ⟨spelled, rfl⟩
    exact ⟨_, ⟨rfl, rfl⟩, spelled⟩
  · rintro ⟨_, ⟨rfl, rfl⟩, spelled⟩
    exact ⟨spelled, rfl⟩

theorem recordsAfter_dot (h : r.RecordsAfter isDotted (Spelled N)) (hne : ∀ ss n, N ss n → ss ≠ [])
    (hp : part.Records M) : (r ++ dot ++ part).RecordsAfter isDotted (Spelled (Snoc N M)) := by
  refine ((h.seq_describes describes_dot).seq hp).congr fun t notes => ⟨?_, ?_⟩
  · rintro ⟨_, n, s, n', ⟨head, g, ⟨ss, hN, front⟩, hg, rfl⟩, hM, rfl, rfl⟩
    refine ⟨ss ++ [s], ⟨ss, n, s, n', hN, hM, rfl, rfl⟩, ?_⟩
    exact (spells_concat_iff (hne ss n hN)).2 ⟨head, g, front, hg, by simp⟩
  · rintro ⟨_, ⟨ss, n, s, n', hN, hM, rfl, rfl⟩, spelled⟩
    obtain ⟨head, g, front, hg, rfl⟩ := (spells_concat_iff (hne ss n hN)).1 spelled
    exact ⟨head ++ g, n, s, n', ⟨head, g, ⟨ss, hN, front⟩, hg, rfl⟩, hM, by simp, rfl⟩

theorem describes_openThis : openThis.Describes fun t =>
    ∃ o b, t = o ++ b ∧ OpensThis o ∧ b.all isBlank = true := by
  have blanks := describes_run isBlank
  refine ((((blanks.seq (describes_char '(')).seq blanks).seq (describes_literal "this")).seq
    blanks).congr fun t => ⟨?_, ?_⟩
  · rintro ⟨_, b₃, ⟨_, _, ⟨_, b₂, ⟨b₁, _, hb₁, rfl, rfl⟩, hb₂, rfl⟩, rfl, rfl⟩, hb₃, rfl⟩
    exact ⟨b₁ ++ '(' :: (b₂ ++ "this"), b₃, by simp, ⟨b₁, b₂, rfl, hb₁, hb₂⟩, hb₃⟩
  · rintro ⟨_, b₃, rfl, ⟨b₁, b₂, rfl, hb₁, hb₂⟩, hb₃⟩
    exact ⟨_, b₃, ⟨_, _, ⟨_, b₂, ⟨b₁, _, hb₁, rfl, rfl⟩, hb₂, rfl⟩, rfl, rfl⟩, hb₃, by simp⟩

theorem recordsAfter_openThis (h : r.RecordsAfter isDotted (Spelled N)) :
    (r ++ openThis).RecordsAfter isDotted (Called N) := by
  refine (h.seq_describes describes_openThis).congr fun t notes => ⟨?_, ?_⟩
  · rintro ⟨head, _, spelled, ⟨o, b, rfl, opens, hb⟩, rfl⟩
    exact ⟨head, o, b, rfl, spelled, opens, hb⟩
  · rintro ⟨head, o, b, rfl, spelled, opens, hb⟩
    exact ⟨head, _, spelled, ⟨o, b, rfl, opens, hb⟩, rfl⟩

/-- One more segment that is a fixed word. -/
theorem recordsAfter_word {ss : List Text} (h : r.RecordsAfter isDotted (Spelled (Exactly ss)))
    (hne : ss ≠ []) (w : Text) :
    (r ++ dot ++ literal w).RecordsAfter isDotted (Spelled (Exactly (ss ++ [w]))) := by
  refine (recordsAfter_dot h ?_ (describes_literal w).records).congr fun t notes => ⟨?_, ?_⟩
  · rintro _ _ ⟨rfl, -⟩
    exact hne
  · rintro ⟨_, ⟨_, _, _, _, ⟨rfl, rfl⟩, ⟨rfl, rfl⟩, rfl, rfl⟩, spelled⟩
    exact ⟨_, ⟨rfl, rfl⟩, spelled⟩
  · rintro ⟨_, ⟨rfl, rfl⟩, spelled⟩
    exact ⟨_, ⟨_, _, _, _, ⟨rfl, rfl⟩, ⟨rfl, rfl⟩, rfl, rfl⟩, spelled⟩

theorem recordsAfter_words {ss : List Text} (h : r.RecordsAfter isDotted (Spelled (Exactly ss)))
    (hne : ss ≠ []) (ws : List Text) :
    ((ws.map literal).foldl (fun r part => r ++ dot ++ part) r).RecordsAfter isDotted
      (Spelled (Exactly (ss ++ ws))) := by
  induction ws generalizing r ss with
  | nil => simpa using h
  | cons w ws ih => simpa using ih (recordsAfter_word h hne w) (by simp)

/-- The call of what fixed words lead to. -/
theorem recordsAfter_callThis (name : Text) (ws : List Text) :
    (callThis (standalone name) (ws.map literal)).RecordsAfter isDotted
      (Called (Exactly (segments name ++ ws))) :=
  recordsAfter_openThis
    (recordsAfter_words (recordsAfter_standalone name) (segments_ne_nil name) ws)

/-- The call of a member. -/
theorem recordsAfter_callThis_member (name w w' : Text) :
    (callThis (standalone name) [literal w, group 1 identifier, literal w']).RecordsAfter isDotted
      (Called (WithMember (segments name) w w')) := by
  have front := recordsAfter_word (recordsAfter_standalone name) (segments_ne_nil name) w
  have member := recordsAfter_dot front (by rintro _ _ ⟨rfl, -⟩; simp)
    (describes_identifier.group 1)
  have whole := recordsAfter_dot member (by rintro _ _ ⟨_, _, _, _, -, -, rfl, -⟩; simp)
    (describes_literal w').records
  refine recordsAfter_openThis (whole.congr fun t notes => ⟨?_, ?_⟩)
  · rintro ⟨_, ⟨_, _, _, _, ⟨_, _, m, _, ⟨rfl, rfl⟩, ⟨hm, rfl⟩, rfl, rfl⟩, ⟨rfl, rfl⟩, rfl, rfl⟩,
      spelled⟩
    exact ⟨_, ⟨m, hm, by simp, rfl⟩, spelled⟩
  · rintro ⟨_, ⟨m, hm, rfl, rfl⟩, spelled⟩
    refine ⟨_, ⟨segments name ++ [w] ++ [m], _, w', [], ⟨_, [], m, _, ⟨rfl, rfl⟩, ⟨hm, rfl⟩, rfl,
      rfl⟩, ⟨rfl, rfl⟩, by simp, rfl⟩, spelled⟩

/-- The call through the root. -/
theorem gives_rootBase (root : Text) : (rootBase root).Gives fun past t notes =>
    Guarded past ∧ Called (Exactly (segments root ++ ["base".toList])) t notes := by
  have blanks := describes_run isBlank
  have front := (recordsAfter_standalone root).seq_describes (describes_literal ".base(")
  refine ((((front.seq_describes blanks).seq_describes (describes_literal "this")).seq_describes
    blanks).gives).imp ?_
  rintro past _ notes ⟨guarded, _, b', ⟨_, _, ⟨_, b, ⟨head, _, ⟨ss, hN, spelled⟩, rfl, rfl⟩, hb,
    rfl⟩, rfl, rfl⟩, hb', rfl⟩
  obtain ⟨rfl, rfl⟩ := hN
  have gap : IsGap ['.'] := ⟨[], [], rfl, rfl, rfl⟩
  have dotted : Spells (segments root ++ ["base".toList]) (head ++ (['.'] ++ "base".toList)) :=
    (spells_concat_iff (segments_ne_nil root)).2 ⟨head, ['.'], spelled, gap, rfl⟩
  exact ⟨guarded, head ++ (['.'] ++ "base"), '(' :: (b ++ "this"), b', by simp,
    ⟨_, ⟨rfl, rfl⟩, dotted⟩, ⟨[], b, rfl, rfl, hb⟩, hb'⟩

end

/-! ## What comes behind a call -/

/-- Blanks and commas. -/
def isGlue (c : Char) : Bool := isBlank c || c == ','

/-- The text ends with blanks and commas, behind a quotation mark if it begins otherwise. -/
def IsEnding (y : Text) : Prop :=
  ∃ u v, y = u ++ v ∧ v.all isGlue = true ∧ ∀ c ∈ u.getLast?, Way.isMark c = true

/-- A comma with any blanks behind it, or only blanks. -/
def IsComma (y : Text) : Prop := ∃ b, b.all isBlank = true ∧ (y = b ∨ y = ',' :: b)

/-- A comma, a word in quotation marks, and perhaps another comma, with blanks. -/
def Quoted (M : Text → List (Nat × Text) → Prop) (y : Text) (notes : List (Nat × Text)) : Prop :=
  ∃ b q w q' b' y', y = ',' :: (b ++ q :: (w ++ q' :: (b' ++ y'))) ∧ M w notes ∧
    b.all isBlank = true ∧ Way.isMark q = true ∧ Way.isMark q' = true ∧ b'.all isBlank = true ∧
    IsComma y'

theorem all_isGlue_of_isBlank {b : Text} (h : b.all isBlank = true) : b.all isGlue = true :=
  List.all_eq_true.2 fun a ha => by simp [isGlue, List.all_eq_true.1 h a ha]

theorem IsComma.all_isGlue {y : Text} (h : IsComma y) : y.all isGlue = true := by
  obtain ⟨b, hb, rfl | rfl⟩ := h
  · exact all_isGlue_of_isBlank hb
  · simp [isGlue, all_isGlue_of_isBlank hb]

theorem IsComma.isEnding {y : Text} (h : IsComma y) : IsEnding y :=
  ⟨[], y, rfl, h.all_isGlue, by simp⟩

theorem Quoted.isEnding {M : Text → List (Nat × Text) → Prop} {y : Text}
    {notes : List (Nat × Text)} (h : Quoted M y notes) : IsEnding y := by
  obtain ⟨b, q, w, q', b', y', rfl, -, -, -, hq', hb', comma⟩ := h
  refine ⟨',' :: (b ++ q :: (w ++ [q'])), b' ++ y', by simp, ?_, ?_⟩
  · rw [List.all_append, all_isGlue_of_isBlank hb', comma.all_isGlue]
    rfl
  · have whole : ',' :: (b ++ q :: (w ++ [q'])) = (',' :: (b ++ q :: w)) ++ [q'] := by simp
    rw [whole, List.getLast?_concat]
    rintro _ ⟨⟩
    exact hq'

theorem describes_optionalComma : optionalComma.Describes IsComma := by
  refine ((describes_orElse (describes_char ',') describes_nothing).seq
    (describes_run isBlank)).congr fun t => ⟨?_, ?_⟩
  · rintro ⟨_, b, rfl | rfl, hb, rfl⟩
    · exact ⟨b, hb, Or.inr rfl⟩
    · exact ⟨_, hb, Or.inl rfl⟩
  · rintro ⟨b, hb, rfl | rfl⟩
    · exact ⟨[], t, Or.inr rfl, hb, rfl⟩
    · exact ⟨[','], b, Or.inl rfl, hb, rfl⟩

theorem describes_spread : (one (· == ',') ++ blanks).Describes fun y =>
    ∃ b, b.all isBlank = true ∧ y = ',' :: b := by
  refine ((describes_char ',').seq (describes_run isBlank)).congr fun t => ⟨?_, ?_⟩
  · rintro ⟨_, b, rfl, hb, rfl⟩
    exact ⟨b, hb, rfl⟩
  · rintro ⟨b, hb, rfl⟩
    exact ⟨[','], b, rfl, hb, rfl⟩

theorem records_quoted {word : Pattern} {M : Text → List (Nat × Text) → Prop}
    (hw : word.Records M) :
    (one (· == ',') ++ blanks ++ quotedWord word ++ blanks ++ optionalComma).Records
      (Quoted M) := by
  have blanks := describes_run isBlank
  have quote := describes_one Way.isMark
  refine ((((((describes_char ',').seq blanks).seq_records
    ((quote.seq_records hw).seq_describes quote)).seq_describes blanks).seq_describes
    describes_optionalComma)).congr fun t notes => ⟨?_, ?_⟩
  · rintro ⟨_, y', ⟨_, b', ⟨_, _, ⟨_, b, rfl, hb, rfl⟩, ⟨_, _, ⟨_, w, ⟨q, hq, rfl⟩, hM, rfl⟩,
      ⟨q', hq', rfl⟩, rfl⟩, rfl⟩, hb', rfl⟩, comma, rfl⟩
    exact ⟨b, q, w, q', b', y', by simp, hM, hb, hq, hq', hb', comma⟩
  · rintro ⟨b, q, w, q', b', y', rfl, hM, hb, hq, hq', hb', comma⟩
    exact ⟨_, y', ⟨_, b', ⟨_, _, ⟨_, b, rfl, hb, rfl⟩, ⟨_, _, ⟨_, w, ⟨q, hq, rfl⟩, hM, rfl⟩,
      ⟨q', hq', rfl⟩, rfl⟩, rfl⟩, hb', rfl⟩, comma, by simp⟩

/-! ## Forms recast what they read -/

theorem guarded_append {s t : Text} (hne : t ≠ []) (h : ∀ c ∈ t.getLast?, isDotted c = false) :
    Guarded (s ++ t).reverse := by
  intro c hc
  rw [List.head?_reverse, Text.getLast?_append_right s hne] at hc
  exact h c hc

theorem isDotted_of_isMark {c : Char} (h : Way.isMark c = true) : isDotted c = false := by
  have : c = '\'' ∨ c = '"' := by simpa [Way.isMark] using h
  rcases this with rfl | rfl <;> decide

theorem isDotted_of_isGlue {c : Char} (h : isGlue c = true) : isDotted c = false := by
  rcases Bool.or_eq_true_iff.1 h with blank | comma
  · have dot : c ≠ '.' := ne_of_isBlank blank (by decide)
    simp [isDotted, isIdent_eq_false_of_isBlank blank, dot]
  · rw [beq_iff_eq.1 comma]
    decide

theorem getLast?_isDotted {t : Text} {q : Char → Bool} (hq : ∀ c, q c = true → isDotted c = false)
    (h : t.all q = true) : ∀ c ∈ t.getLast?, isDotted c = false := fun c hc =>
  hq c (List.all_eq_true.1 h c (List.mem_of_getLast? hc))

section

variable {N : List Text → List (Nat × Text) → Prop} {t y : Text} {notes : List (Nat × Text)}

theorem Called.begins (h : Called N t notes)
    (hN : ∀ ss n, N ss n → ∃ s ss', ss = s :: ss' ∧ IsIdentifier s) :
    ∃ a r, t = a :: r ∧ isIdent a = true := by
  obtain ⟨head, o, b, rfl, ⟨ss, hss, spelled⟩, -, -⟩ := h
  obtain ⟨s, ss, rfl, hs⟩ := hN ss notes hss
  obtain ⟨_, u, first, rfl, -⟩ := spelled.exists_head (by simp)
  obtain rfl := Option.some.inj first
  obtain ⟨a, r, rfl, ha⟩ := hs.exists_cons
  exact ⟨a, _, rfl, ha⟩

/-- A call ends, with what comes behind it, where no name goes on, or with the word `this`. -/
theorem Called.behind (h : Called N t notes) (hy : IsEnding y) :
    Guarded (t ++ y).reverse ∨ "this".toList <:+ t ++ y := by
  obtain ⟨head, _, b, rfl, -, ⟨b₁, b₂, rfl, -, -⟩, hb⟩ := h
  obtain ⟨u, v, rfl, hv, hu⟩ := hy
  by_cases ev : v = []
  · by_cases eu : u = []
    · subst ev eu
      by_cases eb : b = []
      · subst eb
        exact Or.inr ⟨head ++ (b₁ ++ '(' :: b₂), by simp⟩
      · refine Or.inl ?_
        have whole : head ++ (b₁ ++ '(' :: (b₂ ++ "this") ++ b) ++ ([] ++ []) =
            (head ++ (b₁ ++ '(' :: (b₂ ++ "this"))) ++ b := by simp
        rw [whole]
        exact guarded_append eb
          (getLast?_isDotted (fun c => isDotted_of_isGlue) (all_isGlue_of_isBlank hb))
    · subst ev
      rw [List.append_nil]
      exact Or.inl (guarded_append eu fun c hc => isDotted_of_isMark (hu c hc))
  · rw [← List.append_assoc _ u v]
    exact Or.inl (guarded_append ev (getLast?_isDotted (fun c => isDotted_of_isGlue) hv))

end

/-- What a form reads: a call and what comes behind it. -/
def IsParentForm (past piece : Text) : Prop :=
  Guarded past ∧ (∃ a r, piece = a :: r ∧ isIdent a = true) ∧
    (Guarded piece.reverse ∨ "this".toList <:+ piece)

section

variable {r : Pattern}

theorem consumes_of_isParentForm (h : r.Gives fun past piece _ => IsParentForm past piece) :
    r.Consumes := h.consumes fun _ _ _ ⟨_, ⟨_, _, e, _⟩, _⟩ => by simp [e]

/-- A form that writes the call of the parent constructor. -/
theorem recasts_superConstructor (h : r.Gives fun past piece _ => IsParentForm past piece) :
    Recasts ⟨r, superConstructor⟩ where
  consumes := consumes_of_isParentForm h
  allows := h.allows fun _ _ _ _ _ ⟨guarded, begins, last⟩ _ =>
    ⟨guarded, begins, last, [], [], rfl, Or.inl rfl, Or.inl rfl⟩

/-- A form that writes the call of the method that group 1 names. -/
theorem recasts_method (h : r.Gives fun past piece notes => IsParentForm past piece ∧
    ∃ m, notes = [(1, m)] ∧ m.all isIdent = true ∧ m <:+: piece) :
    Recasts ⟨r, superMethod⟩ ∧ Recasts ⟨r, superMethodSpread⟩ := by
  have consumes : r.Consumes := consumes_of_isParentForm (h.imp fun _ _ _ h => h.1)
  have named {found : Match} {m : Text} (e : found.stop.noted = [(1, m)]) :
      found.groupText 1 = m := groupText_of_noted e 1
  constructor
  · refine ⟨consumes, h.allows ?_⟩
    rintro past piece _ rest found ⟨⟨guarded, begins, last⟩, m, rfl, hm, inside⟩ noted
    refine ⟨guarded, begins, last, '.' :: m, [], ?_, Or.inr ⟨m, rfl, hm, inside⟩, Or.inl rfl⟩
    change "super.".toList ++ found.groupText 1 ++ "(".toList = _
    rw [named noted]
    simp
  · refine ⟨consumes, h.allows ?_⟩
    rintro past piece _ rest found ⟨⟨guarded, begins, last⟩, m, rfl, hm, inside⟩ noted
    refine ⟨guarded, begins, last, '.' :: m, "...", ?_, Or.inr ⟨m, rfl, hm, inside⟩, Or.inr rfl⟩
    change "super.".toList ++ found.groupText 1 ++ "(...".toList = _
    rw [named noted]
    simp

end

/-! ## The forms -/

section

variable {call ending : Pattern} {N : List Text → List (Nat × Text) → Prop}
  {E : Text → List (Nat × Text) → Prop}

/-- A call with what comes behind it is what a form reads. -/
theorem gives_form (hc : call.Gives fun past t n => Guarded past ∧ Called N t n)
    (hN : ∀ ss n, N ss n → ∃ s ss', ss = s :: ss' ∧ IsIdentifier s)
    (he : ending.Gives fun _ => E) (hE : ∀ y n, E y n → IsEnding y) :
    (call ++ ending).Gives fun past piece notes => IsParentForm past piece ∧
      ∃ t n y n', Called N t n ∧ E y n' ∧ piece = t ++ y ∧ notes = n' ++ n := by
  refine (hc.seq he).imp ?_
  rintro past _ _ ⟨t, n, y, n', ⟨guarded, called⟩, hy, rfl, rfl⟩
  obtain ⟨a, r, rfl, ha⟩ := called.begins hN
  exact ⟨⟨guarded, ⟨a, r ++ y, rfl, ha⟩, called.behind (hE y n' hy)⟩, _, n, y, n', called, hy, rfl,
    rfl⟩

theorem exists_first_segment {name : Text} (hn : IsNamespace name) (ws : List Text) :
    ∃ s ss, segments name ++ ws = s :: ss ∧ IsIdentifier s := by
  obtain ⟨s, ss, split⟩ := List.exists_cons_of_ne_nil (segments_ne_nil name)
  exact ⟨s, ss ++ ws, by rw [split]; rfl, hn s (by simp [split])⟩

theorem exactly_first {name : Text} (hn : IsNamespace name) (ws ss : List Text)
    (n : List (Nat × Text)) (h : Exactly (segments name ++ ws) ss n) :
    ∃ s ss', ss = s :: ss' ∧ IsIdentifier s := h.1 ▸ exists_first_segment hn ws

theorem withMember_first {name : Text} (hn : IsNamespace name) (w w' : Text) (ss : List Text)
    (n : List (Nat × Text)) (h : WithMember (segments name) w w' ss n) :
    ∃ s ss', ss = s :: ss' ∧ IsIdentifier s := by
  obtain ⟨m, -, rfl, -⟩ := h
  exact exists_first_segment hn _

/-- A form with the member in the call. -/
theorem recasts_member {name : Text} (hn : IsNamespace name) (w w' : Text) {R : Text → Prop}
    (he : ending.Describes R) (hR : ∀ y, R y → IsEnding y) :
    Recasts ⟨callThis (standalone name) [literal w, group 1 identifier, literal w'] ++ ending,
        superMethod⟩ ∧
      Recasts ⟨callThis (standalone name) [literal w, group 1 identifier, literal w'] ++ ending,
        superMethodSpread⟩ := by
  refine recasts_method ((gives_form (recordsAfter_callThis_member name w w').gives
    (withMember_first hn w w') he.gives fun y _ h => hR y h.1).imp ?_)
  rintro past _ _ ⟨form, _, _, y, _, ⟨head, o, b, rfl, ⟨_, ⟨m, hm, rfl, rfl⟩, spelled⟩, -, -⟩,
    ⟨-, rfl⟩, rfl, rfl⟩
  refine ⟨form, m, rfl, hm.2, ?_⟩
  exact (spelled.infix_of_mem (by simp)).trans ⟨[], o ++ b ++ y, by simp⟩

/-- A form with the member in quotation marks. -/
theorem recasts_quoted {name : Text} {ws : List Text} (hn : IsNamespace name)
    (hc : call.Gives fun past t n => Guarded past ∧ Called (Exactly (segments name ++ ws)) t n) :
    Recasts ⟨call ++ (one (· == ',') ++ blanks ++ quotedWord (group 1 identifier) ++ blanks ++
      optionalComma), superMethod⟩ := by
  refine (recasts_method ((gives_form hc (exactly_first hn ws)
    (records_quoted (describes_identifier.group 1)).gives fun y _ h => h.isEnding).imp ?_)).1
  rintro past _ _ ⟨form, t, _, _, _, ⟨head, o, b', rfl, ⟨_, ⟨rfl, rfl⟩, -⟩, -, -⟩,
    ⟨b, q, m, q', b'', y', rfl, ⟨hm, rfl⟩, -⟩, rfl, rfl⟩
  exact ⟨form, m, rfl, hm.2, head ++ (o ++ b') ++ ',' :: (b ++ [q]), q' :: (b'' ++ y'), by simp⟩

/-- A form of the call of the parent constructor. -/
theorem recasts_constructor {name : Text} {ws : List Text} (hn : IsNamespace name)
    (hc : call.Gives fun past t n => Guarded past ∧ Called (Exactly (segments name ++ ws)) t n)
    (he : ending.Gives fun _ => E) (hE : ∀ y n, E y n → IsEnding y) :
    Recasts ⟨call ++ ending, superConstructor⟩ :=
  recasts_superConstructor ((gives_form hc (exactly_first hn ws) he hE).imp fun _ _ _ h => h.1)

end

/-! ## Delegations that forms read -/

section

variable {call ending word : Pattern} {f : Match → Text} {name m : Text}

/-- A form handles the delegations through `base` whose member it has in quotation marks. -/
theorem handles_base {M : Text → List (Nat × Text) → Prop} (hw : word.Records M)
    (hm : ∃ notes, M m notes) :
    Handles ⟨callThis (standalone name) [literal "base"] ++ (one (· == ',') ++ blanks ++
      quotedWord word ++ blanks ++ optionalComma), f⟩ name .base m := by
  intro past offset piece rest guarded delegation
  obtain ⟨notes, hm⟩ := hm
  obtain ⟨head, o, _, rfl, spelled, opens, b, b', q, q', rfl, hb, hb', hq, hq'⟩ := delegation.parts
  have called : Called (Exactly (segments name ++ ["base".toList])) (head ++ (o ++ b)) [] :=
    ⟨head, o, b, rfl, ⟨_, ⟨rfl, rfl⟩, spelled⟩, opens, hb⟩
  have quoted : Quoted M (',' :: (b' ++ q :: (m ++ q' :: ([] ++ [])))) notes :=
    ⟨b', q, m, q', [], [], rfl, hm, hb', hq, hq', rfl, [], rfl, Or.inl rfl⟩
  have read := ((recordsAfter_callThis name ["base"]).seq (records_quoted hw)).ends_ne_nil
    offset rest guarded ⟨_, _, _, _, called, quoted, rfl, rfl⟩
  simpa using read

variable {N : List Text → List (Nat × Text) → Prop}

/-- A form handles the delegations through `call` that it spells. -/
theorem handles_call (hc : call.RecordsAfter isDotted (Called N))
    (hN : ∃ notes, N (segments name ++ Way.words m .call) notes) :
    Handles ⟨call ++ optionalComma, f⟩ name .call m := by
  intro past offset piece rest guarded delegation
  obtain ⟨notes, hN⟩ := hN
  obtain ⟨head, o, _, rfl, spelled, opens, rfl, -⟩ := delegation.parts
  have called : Called N (head ++ (o ++ [])) notes :=
    ⟨head, o, [], rfl, ⟨_, hN, spelled⟩, opens, rfl⟩
  have read := (hc.seq_describes describes_optionalComma).ends_ne_nil offset rest guarded
    ⟨_, [], called, ⟨[], rfl, Or.inl rfl⟩, rfl⟩
  simpa using read

/-- A form handles the delegations through `apply` with arguments that it spells. -/
theorem handles_applySome (hc : call.RecordsAfter isDotted (Called N))
    (hN : ∃ notes, N (segments name ++ Way.words m .applySome) notes) :
    Handles ⟨call ++ (one (· == ',') ++ blanks), f⟩ name .applySome m := by
  intro past offset piece rest guarded delegation
  obtain ⟨notes, hN⟩ := hN
  obtain ⟨head, o, _, rfl, spelled, opens, rfl, -, comma⟩ := delegation.parts
  obtain ⟨r, hr⟩ := List.head?_eq_some_iff.1 comma
  obtain ⟨b, hb, rfl⟩ : ∃ b, b.all isBlank = true ∧ rest = b ++ ',' :: r :=
    ⟨rest.takeWhile isBlank, List.all_takeWhile, hr ▸ List.takeWhile_append_dropWhile.symm⟩
  have called : Called N (head ++ (o ++ b)) notes := ⟨head, o, b, rfl, ⟨_, hN, spelled⟩, opens, hb⟩
  have read := (hc.seq_describes describes_spread).ends_ne_nil offset r guarded
    ⟨_, [','], called, ⟨[], rfl, rfl⟩, rfl⟩
  simpa using read

end

/-! ## All forms -/

/-- What a form reads does not depend on how its pattern is put together. -/
theorem Recasts.of_ends {r r' : Pattern} {f : Match → Text} (same : r'.ends = r.ends)
    (h : Recasts ⟨r, f⟩) : Recasts ⟨r', f⟩ :=
  ⟨fun c d hd => h.consumes c d (same ▸ hd), fun c d piece hd => h.allows c d piece (same ▸ hd)⟩

theorem Handles.of_ends {r r' : Pattern} {f : Match → Text} {name m : Text} {way : Way}
    (same : r'.ends = r.ends) (h : Handles ⟨r, f⟩ name way m) : Handles ⟨r', f⟩ name way m := by
  intro past offset piece rest guarded delegation
  rw [same]
  exact h past offset piece rest guarded delegation

theorem ends_quoted (call word : Pattern) :
    (call ++ one (· == ',') ++ blanks ++ quotedWord word ++ blanks ++ optionalComma).ends =
      (call ++ (one (· == ',') ++ blanks ++ quotedWord word ++ blanks ++ optionalComma)).ends := by
  have comma := ends_assoc call (one (· == ',')) blanks
  have quoted := (ends_seq_congr comma (quotedWord word)).trans (ends_assoc _ _ _)
  have behind := (ends_seq_congr quoted blanks).trans (ends_assoc _ _ _)
  exact (ends_seq_congr behind optionalComma).trans (ends_assoc _ _ _)

section

variable {root : Text} {d : Definition}

theorem recasts_constructorForms (hn : IsNamespace d.name) (hroot : IsNamespace root)
    (hparent : ∀ parent ∈ d.superclass, IsNamespace parent) :
    ∀ form ∈ constructorForms root d, Recasts form := by
  have comma := describes_optionalComma.gives
  have isComma : ∀ y (n : List (Nat × Text)), IsComma y ∧ n = [] → IsEnding y :=
    fun _ _ h => h.1.isEnding
  have quoted := (recasts_constructor hn (recordsAfter_callThis d.name ["base"]).gives
    (records_quoted (describes_literal "constructor").records).gives
    fun _ _ h => h.isEnding).of_ends (ends_quoted _ _)
  have called := recasts_constructor hn
    (recordsAfter_callThis d.name ["superClass_", "constructor", "call"]).gives comma isComma
  have rooted := recasts_constructor hroot (gives_rootBase root) comma isComma
  refine List.forall_mem_append.2 ⟨List.forall_mem_cons.2 ⟨quoted, List.forall_mem_cons.2 ⟨called,
    List.forall_mem_singleton.2 rooted⟩⟩, ?_⟩
  cases e : d.superclass with
  | none => exact List.forall_mem_nil _
  | some parent => exact List.forall_mem_singleton.2 (recasts_constructor (hparent parent e)
      (recordsAfter_callThis parent ["call"]).gives comma isComma)

theorem recasts_methodForms (hn : IsNamespace d.name) (hroot : IsNamespace root)
    (hparent : ∀ parent ∈ d.superclass, IsNamespace parent) :
    ∀ form ∈ methodForms root d, Recasts form := by
  have comma : ∀ y, IsComma y → IsEnding y := fun _ h => h.isEnding
  have spread : ∀ y, (∃ b, b.all isBlank = true ∧ y = ',' :: b) → IsEnding y :=
    fun _ ⟨b, hb, e⟩ => IsComma.isEnding ⟨b, hb, Or.inr e⟩
  have members {name : Text} (hn : IsNamespace name) (w : Text) :=
    And.intro (recasts_member hn w "call" describes_optionalComma comma).1
      (recasts_member hn w "apply" describes_spread spread).2
  have quoted := recasts_quoted hn (recordsAfter_callThis d.name ["base"]).gives
  have rooted := recasts_quoted hroot (gives_rootBase root)
  have own := members hn "superClass_"
  refine List.forall_mem_append.2 ⟨List.forall_mem_cons.2 ⟨quoted, List.forall_mem_cons.2 ⟨rooted,
    List.forall_mem_cons.2 ⟨own.1, List.forall_mem_singleton.2 own.2⟩⟩⟩, ?_⟩
  cases e : d.superclass with
  | none => exact List.forall_mem_nil _
  | some parent =>
    have theirs := members (hparent parent e) "prototype"
    exact List.forall_mem_cons.2 ⟨theirs.1, List.forall_mem_singleton.2 theirs.2⟩

/-- **The delegations that are left in a constructor** are not to the constructor of the parent, or
they apply it. -/
theorem constructor_survivors {way : Way} {m source : Text} (hn : IsNamespace d.name)
    (hroot : IsNamespace root) (hparent : ∀ parent ∈ d.superclass, IsNamespace parent)
    (plain : "super".toList ∉ segments d.name) (hm : m ≠ "super") (parted : Parted d.name source)
    (delegates : Delegates d.name way m (recastParentCalls (constructorForms root d) source)) :
    Delegates d.name way m source ∧
      ¬ (m = "constructor" ∧ (way = .base ∨ way = .call)) := by
  obtain ⟨inSource, unhandled⟩ := recast_survivors
    (recasts_constructorForms hn hroot hparent) hn plain hm parted delegates
  refine ⟨inSource, ?_⟩
  rintro ⟨rfl, rfl | rfl⟩
  · have handles : Handles ⟨_, superConstructor⟩ d.name .base "constructor" :=
      handles_base (describes_literal "constructor").records ⟨[], rfl, rfl⟩
    exact unhandled _ (List.mem_append_left _ List.mem_cons_self)
      (handles.of_ends (ends_quoted _ _))
  · refine unhandled _ (List.mem_append_left _ (List.mem_cons_of_mem _ List.mem_cons_self))
      (handles_call (recordsAfter_callThis d.name ["superClass_", "constructor", "call"]) ?_)
    exact ⟨[], rfl, rfl⟩

/-- **The delegations that are left in a method** apply a member without arguments. -/
theorem method_survivors {way : Way} {m source : Text} (hn : IsNamespace d.name)
    (hroot : IsNamespace root) (hparent : ∀ parent ∈ d.superclass, IsNamespace parent)
    (plain : "super".toList ∉ segments d.name) (hm : m ≠ "super") (parted : Parted d.name source)
    (delegates : Delegates d.name way m (recastParentCalls (methodForms root d) source)) :
    Delegates d.name way m source ∧ way = .applyNone := by
  obtain ⟨inSource, unhandled⟩ := recast_survivors
    (recasts_methodForms hn hroot hparent) hn plain hm parted delegates
  refine ⟨inSource, ?_⟩
  obtain ⟨_, _, _, _, _, member, -⟩ := delegates
  cases way with
  | base =>
    refine absurd (handles_base (describes_identifier.group 1) ⟨_, member, rfl⟩)
      (unhandled _ (List.mem_append_left _ List.mem_cons_self))
  | call =>
    refine absurd (handles_call (f := superMethod)
      (recordsAfter_callThis_member d.name "superClass_" "call") ⟨_, m, member, rfl, rfl⟩)
      (unhandled _ (List.mem_append_left _ (.tail _ (.tail _ (.head _)))))
  | applyNone => rfl
  | applySome =>
    refine absurd (handles_applySome (f := superMethodSpread)
      (recordsAfter_callThis_member d.name "superClass_" "apply") ⟨_, m, member, rfl, rfl⟩)
      (unhandled _ (List.mem_append_left _ (.tail _ (.tail _ (.tail _ (.head _))))))

end

end Modulize.Class
