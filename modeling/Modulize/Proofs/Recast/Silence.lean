import Modulize.Proofs.Declaration.Lines
import Modulize.Proofs.Pattern.Rewriting
import Modulize.Recast.Imports

/-!
# Texts without calls

A header is a call behind a dot: a word such as `require` and a parenthesis, with any blanks around
the word. A text is silent (`Silent`) when no dot in it is followed by the beginning of such a call,
not even by a part of one with which the text breaks off. Nothing but silence is asked of what
stands before and behind, so silent texts make a silent text together (`Silent.append`), and in a
silent text a piece can be exchanged for another one that begins with a word of its own
(`Silent.splice`).

An at sign counts as the end of the text here, since a tag that begins with it may be erased
(`Silent.of_tag`). No header can be read in a text that is silent (`occursIn_provideHeader`,
`occursIn_requireHeader`).
-/

namespace Modulize.Recast

open Pattern Qualified Declaration

/-- The words of the calls below the root that are declarations. -/
def callWords : List Text := "define" :: (provideWords ++ requireWords)

/-- Nothing but a parenthesis may come next, blanks aside. -/
def Closes (t : Text) : Prop := ∀ a ∈ (t.dropWhile isBlank).head?, a = '('

/-- A text begins with a call of one of the words, or breaks off in the beginning of one. -/
def BeginsCall (words : List Text) (t : Text) : Prop :=
  ∃ w ∈ words, t.dropWhile isBlank <+: w ∨
    w <+: t.dropWhile isBlank ∧ Closes ((t.dropWhile isBlank).drop w.length)

/-- The text up to its first at sign. -/
def beforeTag (t : Text) : Text := t.takeWhile (· != '@')

/-- No dot is followed by the beginning of a call. -/
def Silent (words : List Text) : Text → Prop
  | [] => True
  | a :: t => (a = '.' → ¬ BeginsCall words (beforeTag t)) ∧ Silent words t

instance (t : Text) : Decidable (Closes t) :=
  inferInstanceAs (Decidable (∀ a ∈ (t.dropWhile isBlank).head?, a = '('))

instance (words : List Text) (t : Text) : Decidable (BeginsCall words t) :=
  inferInstanceAs (Decidable (∃ w ∈ words, _ ∨ _))

instance decidableSilent (words : List Text) : (t : Text) → Decidable (Silent words t)
  | [] => .isTrue trivial
  | a :: t =>
    have := decidableSilent words t
    inferInstanceAs (Decidable ((a = '.' → ¬ BeginsCall words (beforeTag t)) ∧ Silent words t))

variable {words : List Text} {t u x y p q : Text}

/-! ## Beginnings of calls -/

theorem dropWhile_eq_nil_or (t : Text) :
    t.all isBlank = true ∨ ∃ w a r, t = w ++ a :: r ∧ w.all isBlank = true ∧ isBlank a = false ∧
      t.dropWhile isBlank = a :: r := by
  induction t with
  | nil => exact Or.inl rfl
  | cons a t ih =>
    by_cases ha : isBlank a = true
    · rcases ih with h | ⟨w, b, r, rfl, hw, hb, e⟩
      · exact Or.inl (by simp [ha, h])
      · exact Or.inr ⟨a :: w, b, r, rfl, by simp [ha, hw], hb, by simp [ha, e]⟩
    · exact Or.inr ⟨[], a, t, rfl, rfl, by simpa using ha, by simp [ha]⟩

theorem dropWhile_blanks_append {b : Text} (hb : b.all isBlank = true) (t : Text) :
    (b ++ t).dropWhile isBlank = t.dropWhile isBlank :=
  List.dropWhile_append_of_pos (List.all_eq_true.1 hb)

theorem dropWhile_eq_self {a : Char} (ha : isBlank a = false) (t : Text) :
    (a :: t).dropWhile isBlank = a :: t := by simp [ha]

theorem dropWhile_of_all (h : t.all isBlank = true) : t.dropWhile isBlank = [] := by
  simpa using dropWhile_blanks_append h []

/-- Blanks before a call do not count. -/
theorem beginsCall_blanks_append {b : Text} (hb : b.all isBlank = true) :
    BeginsCall words (b ++ t) ↔ BeginsCall words t := by
  rw [BeginsCall, dropWhile_blanks_append hb, BeginsCall]

theorem beginsCall_of_all (hw : words ≠ []) (h : t.all isBlank = true) : BeginsCall words t := by
  obtain ⟨w, ws, rfl⟩ := List.exists_cons_of_ne_nil hw
  exact ⟨w, List.mem_cons_self, Or.inl (by simp [dropWhile_of_all h])⟩

theorem Closes.of_append (h : Closes (p ++ q)) : Closes p := by
  rcases dropWhile_eq_nil_or p with blank | ⟨w, a, r, rfl, hw, ha, -⟩
  · simp [Closes, dropWhile_of_all blank]
  · rw [Closes, List.append_assoc, dropWhile_blanks_append hw, List.cons_append,
      dropWhile_eq_self ha] at h
    rw [Closes, dropWhile_blanks_append hw, dropWhile_eq_self ha]
    simpa using h

/-- A text that goes on like the beginning of a call is one. -/
theorem BeginsCall.of_append (h : BeginsCall words (p ++ q)) : BeginsCall words p := by
  obtain ⟨w, hw, h⟩ := h
  refine ⟨w, hw, ?_⟩
  rcases dropWhile_eq_nil_or p with blank | ⟨b, a, r, rfl, hb, ha, -⟩
  · exact Or.inl (by simp [dropWhile_of_all blank])
  · rw [List.append_assoc, dropWhile_blanks_append hb, List.cons_append, dropWhile_eq_self ha,
      ← List.cons_append] at h
    rw [dropWhile_blanks_append hb, dropWhile_eq_self ha]
    generalize a :: r = p at h
    rcases h with short | ⟨long, closes⟩
    · exact Or.inl ((List.prefix_append p q).trans short)
    · rcases List.prefix_or_prefix_of_prefix long (List.prefix_append p q) with h | h
      · obtain ⟨s, rfl⟩ := h
        rw [List.append_assoc, List.drop_left] at closes
        exact Or.inr ⟨List.prefix_append _ _, by simpa using closes.of_append⟩
      · exact Or.inl h

/-- A call, with its word and its parenthesis. -/
theorem beginsCall_call {b w b' : Text} (hb : b.all isBlank = true) (hw : w ∈ words)
    (word : IsIdentifier w) (hb' : b'.all isBlank = true) (t : Text) :
    BeginsCall words (b ++ (w ++ (b' ++ '(' :: t))) := by
  rw [beginsCall_blanks_append hb]
  obtain ⟨a, r, rfl, ha⟩ := word.exists_cons
  have paren : isBlank '(' = false := by decide
  have e : ((a :: r) ++ (b' ++ '(' :: t)).dropWhile isBlank = (a :: r) ++ (b' ++ '(' :: t) :=
    dropWhile_eq_self (isBlank_eq_false_of_isIdent ha) _
  refine ⟨_, hw, Or.inr ?_⟩
  rw [e, List.drop_left, Closes, dropWhile_blanks_append hb', dropWhile_eq_self paren]
  exact ⟨List.prefix_append _ _, by simp⟩

/-- A word that begins none of the words begins no call. -/
theorem not_beginsCall_word {s : Text} (word : IsIdentifier s) (other : ∀ w ∈ words, ¬ s <+: w)
    (t : Text) : ¬ BeginsCall words (s ++ t) := by
  rintro ⟨w, hw, h⟩
  have e : (s ++ t).dropWhile isBlank = s ++ t := by
    obtain ⟨a, r, rfl, ha⟩ := word.exists_cons
    exact dropWhile_eq_self (isBlank_eq_false_of_isIdent ha) _
  rw [e] at h
  rcases h with short | ⟨long, closes⟩
  · exact other w hw ((List.prefix_append s t).trans short)
  · rcases List.prefix_or_prefix_of_prefix long (List.prefix_append s t) with h | h
    · obtain ⟨r, rfl⟩ := h
      cases r with
      | nil => exact other w hw (by simp)
      | cons a r =>
        have ha : isIdent a = true := List.all_eq_true.1 word.2 a (by simp)
        have paren : isIdent '(' = false := by decide
        rw [List.append_assoc, List.drop_left, Closes, List.cons_append,
          dropWhile_eq_self (isBlank_eq_false_of_isIdent ha)] at closes
        rw [closes a rfl, paren] at ha
        cases ha
    · exact other w hw h

/-! ## Silent texts -/

theorem beforeTag_of_mem (h : '@' ∈ t) (u : Text) : beforeTag (t ++ u) = beforeTag t := by
  induction t with
  | nil => cases h
  | cons a t ih =>
    by_cases ha : a = '@'
    · simp [beforeTag, ha]
    · have h : '@' ∈ t := (List.mem_cons.1 h).resolve_left (Ne.symm ha)
      simpa [beforeTag, ha] using ih h

theorem beforeTag_of_not_mem (h : '@' ∉ t) (u : Text) : beforeTag (t ++ u) = t ++ beforeTag u := by
  refine List.takeWhile_append_of_pos fun a ha => ?_
  simp only [bne_iff_ne]
  rintro rfl
  exact h ha

theorem beforeTag_blanks_append {b : Text} (hb : b.all isBlank = true) (t : Text) :
    beforeTag (b ++ t) = b ++ beforeTag t := by
  have tag : isBlank '@' = false := by decide
  refine beforeTag_of_not_mem (fun h => ?_) t
  simp [List.all_eq_true.1 hb _ h] at tag

theorem beforeTag_identifier_append {s : Text} (hs : IsIdentifier s) (t : Text) :
    beforeTag (s ++ t) = s ++ beforeTag t := by
  have tag : isIdent '@' = false := by decide
  refine beforeTag_of_not_mem (fun h => ?_) t
  simp [List.all_eq_true.1 hs.2 _ h] at tag

theorem silent_cons {a : Char} :
    Silent words (a :: t) ↔ (a = '.' → ¬ BeginsCall words (beforeTag t)) ∧ Silent words t := Iff.rfl

/-- A text without dots is silent. -/
theorem silent_of_not_mem (h : '.' ∉ t) : Silent words t := by
  induction t with
  | nil => trivial
  | cons a t ih =>
    simp only [List.mem_cons, not_or] at h
    exact ⟨fun ha => absurd ha.symm h.1, ih h.2⟩

/-- The end of a silent text is silent. -/
theorem Silent.of_append (h : Silent words (x ++ y)) : Silent words y := by
  induction x with
  | nil => exact h
  | cons a x ih => exact ih h.2

/-- What follows a dot of a silent text begins no call. -/
theorem Silent.not_beginsCall (h : Silent words (x ++ '.' :: y)) :
    ¬ BeginsCall words (beforeTag y) := h.of_append.1 rfl

theorem BeginsCall.mono {words' : List Text} (sub : words ⊆ words')
    (h : BeginsCall words t) : BeginsCall words' t := by
  obtain ⟨w, hw, h⟩ := h
  exact ⟨w, sub hw, h⟩

theorem Silent.mono {words' : List Text} (sub : words ⊆ words') (h : Silent words' t) :
    Silent words t := by
  induction t with
  | nil => trivial
  | cons a t ih => exact ⟨fun ha begins => h.1 ha (begins.mono sub), ih h.2⟩

theorem exists_beforeTag_append (t u : Text) : ∃ r, beforeTag (t ++ u) = beforeTag t ++ r := by
  by_cases tag : '@' ∈ t
  · exact ⟨[], by rw [beforeTag_of_mem tag, List.append_nil]⟩
  · have whole : beforeTag t = t := by simpa [beforeTag] using beforeTag_of_not_mem tag []
    exact ⟨beforeTag u, by rw [beforeTag_of_not_mem tag, whole]⟩

theorem beforeTag_append_tag (t u : Text) : beforeTag (t ++ '@' :: u) = beforeTag t := by
  by_cases tag : '@' ∈ t
  · exact beforeTag_of_mem tag _
  · rw [beforeTag_of_not_mem tag, ← List.append_nil t, beforeTag_of_not_mem (by simpa using tag)]
    simp [beforeTag]

/-- **Silent texts make a silent text.** -/
theorem Silent.append (hx : Silent words x) (hy : Silent words y) : Silent words (x ++ y) := by
  induction x with
  | nil => exact hy
  | cons a x ih =>
    rw [List.cons_append, silent_cons]
    refine ⟨fun ha begins => hx.1 ha ?_, ih hx.2⟩
    obtain ⟨r, e⟩ := exists_beforeTag_append x y
    rw [e] at begins
    exact begins.of_append

/-- Before a tag a silent text breaks off like at its end. -/
theorem Silent.of_tag (h : Silent words (x ++ '@' :: y)) : Silent words x := by
  induction x with
  | nil => trivial
  | cons a x ih =>
    rw [List.cons_append, silent_cons, beforeTag_append_tag] at h
    exact ⟨h.1, ih h.2⟩

/-- A text that begins with something of its own: no call begins with it, and none that has begun
in the text before it goes on with it. -/
structure Interrupts (words : List Text) (past t : Text) : Prop where
  beginsNone : ¬ BeginsCall words (beforeTag t)
  closesNone : ¬ Closes (beforeTag t)
  apart : (∀ a ∈ past.getLast?, isIdent a = false) ∨ ∀ a ∈ t.head?, isBlank a = true

theorem Interrupts.cons {a : Char} (h : Interrupts words (a :: u) t) : Interrupts words u t := by
  refine ⟨h.beginsNone, h.closesNone, h.apart.imp_left fun last b hb => last b ?_⟩
  cases u with
  | nil => cases hb
  | cons => simpa [List.getLast?_cons_cons] using hb

theorem Closes.congr (h : Closes (p ++ q)) (hp : p.all isBlank = false) (q' : Text) :
    Closes (p ++ q') := by
  rcases dropWhile_eq_nil_or p with blank | ⟨b, a, r, rfl, hb, ha, -⟩
  · simp [blank] at hp
  · rw [Closes, List.append_assoc, dropWhile_blanks_append hb, List.cons_append,
      dropWhile_eq_self ha] at h ⊢
    exact h

theorem Closes.of_blanks_append {b : Text} (hb : b.all isBlank = true) (h : Closes (b ++ t)) :
    Closes t := by
  rwa [Closes, dropWhile_blanks_append hb] at h

/-- A word does not go on from one text into another one that stands apart. -/
theorem not_prefix_of_apart {w core : Text} {c : Char} (word : IsIdentifier w) (hne : core ≠ [])
    (apart : (∀ a ∈ core.getLast?, isIdent a = false) ∨ isBlank c = true) :
    ¬ core ++ [c] <+: w := by
  intro h
  have all : ∀ a ∈ core ++ [c], isIdent a = true := fun a ha =>
    List.all_eq_true.1 word.2 a (h.subset ha)
  rcases apart with last | blank
  · have := last _ (List.getLast?_eq_some_getLast hne)
    rw [all _ (List.mem_append_left _ (List.getLast_mem hne))] at this
    cases this
  · have := isIdent_eq_false_of_isBlank blank
    rw [all c (by simp)] at this
    cases this

/-- What begins no call does not begin one either when it goes on with something of its own. -/
theorem not_beginsCall_append (hwords : ∀ w ∈ words, IsIdentifier w)
    (old : ¬ BeginsCall words (t ++ p)) (begins : ¬ BeginsCall words q) (closes : ¬ Closes q)
    (apart : ∀ c ∈ q.head?, (∀ a ∈ t.getLast?, isIdent a = false) ∨ isBlank c = true) :
    ¬ BeginsCall words (t ++ q) := by
  rintro ⟨w, hw, h⟩
  rcases dropWhile_eq_nil_or t with blank | ⟨b, a, r, rfl, hb, ha, -⟩
  · exact begins ((beginsCall_blanks_append blank).1 ⟨w, hw, h⟩)
  have front (x : Text) : (b ++ a :: r ++ x).dropWhile isBlank = a :: r ++ x := by
    rw [List.append_assoc, dropWhile_blanks_append hb, List.cons_append, dropWhile_eq_self ha]
  rw [BeginsCall] at old
  simp only [front] at h old
  have hne : a :: r ≠ [] := by simp
  have last : (b ++ a :: r).getLast? = (a :: r).getLast? := by
    rw [List.getLast?_append, List.getLast?_eq_some_getLast hne]
    rfl
  rw [last] at apart
  generalize a :: r = core at hne apart h old
  cases q with
  | nil => exact closes (by simp [Closes])
  | cons c q =>
    have across : ¬ core ++ [c] <+: w := not_prefix_of_apart (hwords w hw) hne (apart c rfl)
    have first : core ++ [c] <+: core ++ c :: q := ⟨q, by simp⟩
    rcases h with short | ⟨long, h⟩
    · exact across (first.trans short)
    · rcases List.prefix_or_prefix_of_prefix long (List.prefix_append core (c :: q)) with hwc | hcw
      · -- the word stands in the first text, and so does what does not close
        obtain ⟨s, rfl⟩ := hwc
        rw [List.append_assoc, List.drop_left] at h
        cases hs : s.all isBlank with
        | true => exact closes (h.of_blanks_append hs)
        | false =>
          refine old ⟨w, hw, Or.inr ⟨List.append_assoc w s p ▸ List.prefix_append _ _, ?_⟩⟩
          rw [List.append_assoc, List.drop_left]
          exact h.congr hs p
      · obtain ⟨s, rfl⟩ := hcw
        cases s with
        | nil =>
          refine closes ?_
          simpa using h
        | cons d s =>
          obtain ⟨y, e⟩ := long
          rw [List.append_assoc] at e
          obtain ⟨rfl, -⟩ := List.cons.inj (List.append_cancel_left e)
          exact across ⟨s, by simp⟩

theorem Interrupts.not_beginsCall (hwords : ∀ w ∈ words, IsIdentifier w)
    (h : Interrupts words u q) (old : ¬ BeginsCall words (beforeTag (u ++ p))) :
    ¬ BeginsCall words (beforeTag (u ++ q)) := by
  by_cases tag : '@' ∈ u
  · rwa [beforeTag_of_mem tag] at old ⊢
  rw [beforeTag_of_not_mem tag] at old ⊢
  refine not_beginsCall_append hwords old h.beginsNone h.closesNone fun c hc => ?_
  refine h.apart.imp_right fun first => first c ?_
  cases q with
  | nil => cases hc
  | cons a q =>
    by_cases ha : a = '@'
    · simp [beforeTag, ha] at hc
    · simpa [beforeTag, ha] using hc

/-- **A piece of a silent text can be exchanged** for one that begins with something of its own. -/
theorem Silent.splice (hwords : ∀ w ∈ words, IsIdentifier w) (h : Silent words (u ++ p))
    (interrupts : Interrupts words u q) (hq : Silent words q) : Silent words (u ++ q) := by
  induction u with
  | nil => exact hq
  | cons a u ih =>
    rw [List.cons_append, silent_cons] at h ⊢
    exact ⟨fun ha => interrupts.cons.not_beginsCall hwords (h.1 ha), ih h.2 interrupts.cons⟩

theorem not_closes_word {s : Text} (word : IsIdentifier s) (t : Text) :
    ¬ Closes (beforeTag (s ++ t)) := by
  intro closes
  obtain ⟨a, r, rfl, ha⟩ := word.exists_cons
  have paren : isIdent '(' = false := by decide
  rw [beforeTag_identifier_append word, Closes, List.cons_append,
    dropWhile_eq_self (isBlank_eq_false_of_isIdent ha)] at closes
  rw [closes a rfl, paren] at ha
  cases ha

/-- A word that begins none of the words is something of its own, if it does not go on with a word
before it. -/
theorem interrupts_word {s b : Text} (word : IsIdentifier s) (other : ∀ w ∈ words, ¬ s <+: w)
    (hb : b.all isBlank = true) (apart : (∀ a ∈ u.getLast?, isIdent a = false) ∨ b ≠ [])
    (t : Text) : Interrupts words u (b ++ (s ++ t)) := by
  refine ⟨?_, ?_, apart.imp_right fun hne => ?_⟩
  · rw [beforeTag_blanks_append hb, beginsCall_blanks_append hb, beforeTag_identifier_append word]
    exact not_beginsCall_word word other _
  · intro closes
    rw [beforeTag_blanks_append hb] at closes
    exact not_closes_word word t (closes.of_blanks_append hb)
  · obtain ⟨a, b, rfl⟩ := List.exists_cons_of_ne_nil hne
    simpa using (Bool.and_eq_true_iff.1 hb).1

/-! ## Passes -/

/-- A piece can be exchanged in any silent text when the character before it is that before the
place. -/
def Gentle (words : List Text) (past piece new : Text) : Prop :=
  ∀ u z, (∀ a ∈ u.getLast?, past.head? = some a) → Silent words (u ++ (piece ++ z)) →
    Silent words (u ++ (new ++ z))

/-- **A pass that exchanges pieces gently keeps a text silent.** -/
theorem Silent.rewrites {R : Text → Text → Text → Text → Prop} {past t out : Text}
    (gentle : ∀ past piece rest new, R past piece rest new → Gentle words past piece new)
    (h : Rewrites R past t out) (hu : ∀ a ∈ u.getLast?, past.head? = some a)
    (silent : Silent words (u ++ t)) : Silent words (u ++ out) := by
  induction h generalizing u with
  | done => exact silent
  | @keep past a rest out h ih =>
    have next := ih (u := u ++ [a]) (by simp) (by simpa using silent)
    simpa using next
  | @swap past piece rest new out hR h ih =>
    refine gentle _ _ _ _ hR u out hu ?_
    have next := ih (u := u ++ piece) ?_ (by simpa using silent)
    · simpa using next
    · intro a ha
      rw [List.getLast?_append] at ha
      rw [List.head?_append, List.head?_reverse]
      cases hp : piece.getLast? with
      | none => simpa [hp] using hu a (by simpa [hp] using ha)
      | some b => simpa [hp] using ha

/-! ## Headers -/

theorem isIdentifier_of_mem_callWords : ∀ w ∈ callWords, IsIdentifier w := by decide

theorem mem_callWords_of_provide {w : Text} (h : w ∈ provideWords) : w ∈ callWords :=
  List.mem_cons_of_mem _ (List.mem_append_left _ h)

theorem mem_callWords_of_require {w : Text} (h : w ∈ requireWords) : w ∈ callWords :=
  List.mem_cons_of_mem _ (List.mem_append_right _ h)

/-- A call of a word has a dot with the beginning of a call behind it. -/
theorem exists_dot_of_isCall {root keyword name s : Text} (h : IsCall root keyword name s)
    (hw : keyword ∈ words) (word : IsIdentifier keyword) (t : Text) :
    ∃ x y, s ++ t = x ++ '.' :: y ∧ BeginsCall words (beforeTag y) := by
  obtain ⟨path, gap, argument, -, ⟨b, b', rfl, -, hb'⟩,
    ⟨-, b₁, b₂, b₃, q, q', hb₁, -, -, -, -, rfl⟩, rfl⟩ := h
  refine ⟨path ++ b, b' ++ (keyword ++ (b₁ ++
    ('(' :: (b₂ ++ q :: (name ++ q' :: (b₃ ++ [')']))) ++ t))), by simp, ?_⟩
  rw [beforeTag_blanks_append hb', beforeTag_identifier_append word, beforeTag_blanks_append hb₁]
  have paren : ('(' == '@') = false := by decide
  rw [List.cons_append, beforeTag, List.takeWhile_cons_of_pos (by decide)]
  exact beginsCall_call hb' hw word hb₁ _

/-- There is no call in a silent text. -/
theorem Silent.not_isCall {root keyword name s : Text} (h : Silent words (x ++ (s ++ y)))
    (hw : keyword ∈ words) (word : IsIdentifier keyword) : ¬ IsCall root keyword name s := by
  intro call
  obtain ⟨x', y', e, begins⟩ := exists_dot_of_isCall call hw word y
  rw [e] at h
  exact h.of_append.not_beginsCall begins

/-- **No provide header can be read in a silent text.** -/
theorem occursIn_provideHeader (root : Text) (h : Silent callWords t) :
    (provideHeader root).occursIn t = false := by
  refine occursIn_eq_false_of_ends fun x y d e hd => ?_
  obtain ⟨keyword, name, s, tail, ⟨hk, hs⟩, -, reads, -⟩ := exists_isProvide hd
  have hy : y = s ++ (tail ++ d.rest) := by simpa using reads.rest
  rw [e, hy] at h
  exact h.not_isCall (mem_callWords_of_provide hk) (isIdentifier_of_mem_provideWords _ hk) hs

/-- **No require header can be read in a silent text.** -/
theorem occursIn_requireHeader (root : Text) (h : Silent callWords t) :
    (requireHeader root).occursIn t = false := by
  refine occursIn_eq_false_of_ends fun x y d e hd => ?_
  obtain ⟨target, keyword, name, s, tail, ⟨opening, call, -, hk, hcall, rfl⟩, -, reads, -⟩ :=
    exists_isRequire hd
  have hy : y = opening ++ (call ++ (tail ++ d.rest)) := by simpa using reads.rest
  rw [e, hy, ← List.append_assoc] at h
  exact h.not_isCall (mem_callWords_of_require hk) (isIdentifier_of_mem_requireWords _ hk) hcall

end Modulize.Recast
