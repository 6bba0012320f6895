import Modulize.Proofs.Qualified.Spelling
import Modulize.Proofs.Script.Local

/-!
# Delegations to the parent class

A class that inherits in the old way reaches a member of its parent through `base`, which it gives
the name of the member, or through `superClass_`, where the member is called with `call` or
`apply`. Such a delegation (`Delegation`) stands in a text (`Delegates`) behind a character that
does not continue a name.

The pieces of text that are delegations are rows of identifiers: where one of them begins, it is a
segment of the class's name, the name of a member or a fixed word (`Delegation.word_at`), so none of
them contains a call of `super` (`Delegation.not_super`). No bracket is closed in them and no
statement ends (`Delegation.not_isEndMark`), so that they lie on one side of such a character
(`Delegates.of_append_cons`).
-/

namespace Modulize.Class

open Qualified Script

/-! ## What a delegation is -/

/-- The ways in which a member of the parent is reached. To `apply` a member without arguments is a
way of its own. -/
inductive Way
  | base
  | call
  | applyNone
  | applySome
  deriving DecidableEq

namespace Way

/-- What is written behind the name of the class to reach a member. -/
def words (m : Text) : Way → List Text
  | base => ["base"]
  | call => ["superClass_", m, "call"]
  | applyNone | applySome => ["superClass_", m, "apply"]

/-- Behind the blanks at its beginning the text goes on with a comma. -/
def CommaNext (rest : Text) : Prop := (rest.dropWhile isBlank).head? = some ','

/-- The text does not begin with a character of an identifier. -/
def WordEnds (rest : Text) : Prop := ∀ a ∈ rest.head?, isIdent a = false

/-- A quotation mark of a script that is no template. -/
def isMark (c : Char) : Bool := c == '\'' || c == '"'

/-- What is written behind the first argument to reach a member, and what follows. -/
def IsTail (m : Text) : Way → Text → Text → Prop
  | base, tail, _ => ∃ b b' q q', tail = b ++ ',' :: (b' ++ q :: (m ++ [q'])) ∧
      b.all isBlank = true ∧ b'.all isBlank = true ∧ isMark q = true ∧ isMark q' = true
  | call, tail, rest => tail = [] ∧ WordEnds rest
  | applyNone, tail, rest => tail = [] ∧ WordEnds rest ∧ ¬ CommaNext rest
  | applySome, tail, rest => tail = [] ∧ WordEnds rest ∧ CommaNext rest

end Way

/-- The opening parenthesis of a call and the first argument `this`, with any blanks. -/
def OpensThis (o : Text) : Prop :=
  ∃ b b' : Text, o = b ++ '(' :: (b' ++ "this") ∧ b.all isBlank = true ∧ b'.all isBlank = true

/-- **A delegation of a class to a member `m` of its parent**, written as `piece` before `rest`. -/
structure Delegation (name : Text) (way : Way) (m piece rest : Text) : Prop where
  member : IsIdentifier m
  parts : ∃ head o tail, piece = head ++ (o ++ tail) ∧ Spells (segments name ++ way.words m) head ∧
    OpensThis o ∧ way.IsTail m tail rest

/-- The text, given in reverse, ends in no character that a dotted name could continue. -/
def Guarded (past : Text) : Prop := ∀ a ∈ past.head?, (isIdent a || a == '.') = false

/-- A delegation to a member of the parent stands in the text. -/
def Delegates (name : Text) (way : Way) (m t : Text) : Prop :=
  ∃ x piece rest, t = x ++ (piece ++ rest) ∧ Guarded x.reverse ∧ Delegation name way m piece rest

theorem isIdentifier_word {way : Way} {m : Text} (hm : IsIdentifier m) :
    ∀ s ∈ way.words m, IsIdentifier s := by
  have parent : IsIdentifier "superClass_" := by decide
  have call : IsIdentifier "call" := by decide
  have apply : IsIdentifier "apply" := by decide
  cases way with
  | base => exact List.forall_mem_singleton.2 (by decide)
  | call => exact List.forall_mem_cons.2 ⟨parent, List.forall_mem_cons.2
      ⟨hm, List.forall_mem_singleton.2 call⟩⟩
  | applyNone | applySome => exact List.forall_mem_cons.2 ⟨parent, List.forall_mem_cons.2
      ⟨hm, List.forall_mem_singleton.2 apply⟩⟩

namespace Way

theorem wordEnds_append {b : Text} (hb : b ≠ []) (h : (b.all fun a => ! isIdent a) = true)
    (t : Text) : WordEnds (b ++ t) := by
  obtain ⟨a, r, rfl⟩ := List.exists_cons_of_ne_nil hb
  intro c hc
  obtain rfl : a = c := Option.some.inj hc
  simpa using List.all_eq_true.1 h a List.mem_cons_self

variable {way : Way} {m tail rest : Text}

theorem isMark_not_isIdent {q : Char} (h : isMark q = true) : isIdent q = false := by
  have : q = '\'' ∨ q = '"' := by simpa [isMark] using h
  rcases this with rfl | rfl <;> decide

theorem all_not_isIdent {b b' : Text} {c : Char} (hb : b.all isBlank = true)
    (hb' : b'.all isBlank = true) (hc : isIdent c = false) :
    ((b ++ c :: b').all fun a => ! isIdent a) = true := by
  have blank {b : Text} (hb : b.all isBlank = true) : (b.all fun a => ! isIdent a) = true :=
    List.all_eq_true.2 fun a ha => by
      simp [isIdent_eq_false_of_isBlank (List.all_eq_true.1 hb a ha)]
  simp [List.all_append, blank hb, blank hb', hc]

/-- The word in front of a tail ends there. -/
theorem IsTail.wordEnds (h : way.IsTail m tail rest) : WordEnds (tail ++ rest) := by
  cases way with
  | base =>
    obtain ⟨b, b', q, q', rfl, hb, hb', -, -⟩ := h
    have := wordEnds_append (by simp) (all_not_isIdent hb hb' (c := ',') (by decide))
      (q :: (m ++ [q']) ++ rest)
    simpa using this
  | call =>
    obtain ⟨rfl, ends⟩ := h
    exact ends
  | applyNone | applySome =>
    obtain ⟨rfl, ends, -⟩ := h
    exact ends

theorem IsTail.eq_base_of_ne_nil (h : way.IsTail m tail rest) (hne : tail ≠ []) :
    way = base := by
  cases way with
  | base => rfl
  | call | applyNone | applySome => exact absurd h.1 hne

end Way

/-! ## The characters of a delegation -/

namespace Delegation

variable {name m piece rest : Text} {way : Way}

theorem isIdentifier_segment (h : Delegation name way m piece rest) (hn : IsNamespace name) :
    ∀ s ∈ segments name ++ way.words m, IsIdentifier s := fun s hs =>
  (List.mem_append.1 hs).elim (hn s) (isIdentifier_word h.member s)

/-- A delegation begins with the first segment of the name and goes on with a gap. -/
theorem exists_first (h : Delegation name way m piece rest) :
    ∃ s g u, (segments name).head? = some s ∧ piece = s ++ (g ++ u) ∧ IsGap g := by
  obtain ⟨head, o, tail, rfl, spelled, -, -⟩ := h.parts
  obtain ⟨s, ss, split⟩ := List.exists_cons_of_ne_nil (segments_ne_nil name)
  obtain ⟨w, ws, words⟩ : ∃ w ws, ss ++ way.words m = w :: ws := by
    refine List.exists_cons_of_ne_nil (List.append_ne_nil_of_right_ne_nil _ ?_)
    cases way <;> simp [Way.words]
  rw [split, List.cons_append, words] at spelled
  cases spelled with
  | @dot _ _ _ g u hg _ => exact ⟨s, g, u ++ (o ++ tail), by rw [split]; rfl, by simp, hg⟩

theorem exists_cons (h : Delegation name way m piece rest) (hn : IsNamespace name) :
    ∃ a r, piece = a :: r ∧ isIdent a = true := by
  obtain ⟨s, g, u, first, rfl, -⟩ := h.exists_first
  obtain ⟨a, r, rfl, ha⟩ := (hn s (List.mem_of_mem_head? first)).exists_cons
  exact ⟨a, _, rfl, ha⟩

theorem dot_mem (h : Delegation name way m piece rest) : '.' ∈ piece := by
  obtain ⟨s, _, u, -, rfl, ⟨b, b', rfl, -, -⟩⟩ := h.exists_first
  simp

/-- The characters of a delegation. -/
def isWritten (a : Char) : Bool :=
  isIdent a || isBlank a || a == '.' || a == '(' || a == ',' || Way.isMark a

theorem isWritten_of_isBlank {b : Text} (h : b.all isBlank = true) : b.all isWritten = true :=
  List.all_eq_true.2 fun a ha => by simp [isWritten, List.all_eq_true.1 h a ha]

theorem isWritten_of_isIdent {s : Text} (h : s.all isIdent = true) : s.all isWritten = true :=
  List.all_eq_true.2 fun a ha => by simp [isWritten, List.all_eq_true.1 h a ha]

theorem isWritten_of_spells {ss : List Text} {head : Text} (h : Spells ss head)
    (hss : ∀ s ∈ ss, IsIdentifier s) : head.all isWritten = true := by
  induction h with
  | nothing => rfl
  | last s => exact isWritten_of_isIdent (hss s List.mem_cons_self).2
  | @dot s _ _ gap piece hg _ ih =>
    obtain ⟨b, b', rfl, hb, hb'⟩ := hg
    have dot : isWritten '.' = true := by decide
    rw [List.all_append, isWritten_of_isIdent (hss s List.mem_cons_self).2, List.all_append,
      List.all_append, isWritten_of_isBlank hb, List.all_cons, dot, isWritten_of_isBlank hb',
      ih fun s hs => hss s (List.mem_cons_of_mem _ hs)]
    rfl

theorem isWritten_tail {tail : Text} (hm : IsIdentifier m) (h : way.IsTail m tail rest) :
    tail.all isWritten = true := by
  cases way with
  | base =>
    obtain ⟨b, b', q, q', rfl, hb, hb', hq, hq'⟩ := h
    have comma : isWritten ',' = true := by decide
    have mark {q : Char} (hq : Way.isMark q = true) : isWritten q = true := by simp [isWritten, hq]
    simp only [List.all_append, List.all_cons, isWritten_of_isBlank hb, isWritten_of_isBlank hb',
      comma, mark hq, mark hq', isWritten_of_isIdent hm.2, List.all_nil, Bool.and_true]
  | call | applyNone | applySome =>
    obtain rfl := h.1
    rfl

theorem isWritten_piece (h : Delegation name way m piece rest) (hn : IsNamespace name) :
    piece.all isWritten = true := by
  have hss := h.isIdentifier_segment hn
  obtain ⟨head, _, tail, rfl, spelled, ⟨b, b', rfl, hb, hb'⟩, behind⟩ := h.parts
  have paren : isWritten '(' = true := by decide
  have this : ("this" : Text).all isWritten = true := by decide
  simp only [List.all_append, List.all_cons, isWritten_of_spells spelled hss,
    isWritten_of_isBlank hb, isWritten_of_isBlank hb', paren, this,
    isWritten_tail h.member behind, Bool.and_true]

/-- No bracket is closed in a delegation and no statement ends. -/
theorem not_isEndMark (h : Delegation name way m piece rest) (hn : IsNamespace name) {c : Char}
    (mark : IsEndMark c) : c ∉ piece := by
  intro hc
  have written := List.all_eq_true.1 (h.isWritten_piece hn) c hc
  have stop := mark.isStop
  have others : c ≠ '.' ∧ c ≠ '(' ∧ c ≠ ',' ∧ Way.isMark c = false := by
    rcases mark with rfl | closing
    · decide
    · rcases IsEndMark.eq_of_isClosing closing with rfl | rfl | rfl <;> decide
  simp [isWritten, stop.blank, stop.ident, others] at written

/-- **An identifier that begins in a delegation** is a segment of the name, the member, or one of
the fixed words. -/
theorem word_at (h : Delegation name way m piece rest) (hn : IsNamespace name) {p z : Text}
    {a : Char} (split : piece = p ++ a :: z) (ha : isIdent a = true)
    (edge : ∀ b ∈ p.getLast?, isIdent b = false) :
    ∃ s u, (s ∈ segments name ++ way.words m ∨ s = "this" ∨ s = m) ∧ a :: z ++ rest = s ++ u ∧
      ∀ b ∈ u.head?, isIdent b = false := by
  have hss := h.isIdentifier_segment hn
  obtain ⟨head, _, tail, rfl, spelled, ⟨b, b', rfl, hb, hb'⟩, behind⟩ := h.parts
  have gap := Way.all_not_isIdent hb hb' (c := '(') (by decide)
  have opens (u : Text) : (b ++ '(' :: (b' ++ "this")) ++ u =
      (b ++ '(' :: b') ++ ("this" ++ u) := by simp
  have paren (u : Text) : Way.WordEnds ((b ++ '(' :: (b' ++ "this")) ++ u) :=
    opens u ▸ Way.wordEnds_append (by simp) gap _
  rcases List.append_eq_append_iff.1 split with ⟨u, rfl, e⟩ | ⟨u, rfl, e⟩
  · rw [opens] at e
    have edge : ∀ c ∈ u.getLast?, isIdent c = false := fun c hc =>
      edge c (Text.mem_getLast?_append hc)
    have this : IsIdentifier "this" := by decide
    rcases this.begins_or_behind gap e ha edge with e | ⟨x, rfl, later⟩
    · exact ⟨"this", tail ++ rest, by simp, by rw [e, List.append_assoc], behind.wordEnds⟩
    · obtain rfl := behind.eq_base_of_ne_nil (by simp [later])
      obtain ⟨c, c', q, q', rfl, hc, hc', hq, hq'⟩ := behind
      have mark : ∀ d ∈ (q' :: rest).head?, isIdent d = false := by
        rintro d ⟨⟩
        exact Way.isMark_not_isIdent hq'
      have quoted : ((c ++ ',' :: (c' ++ [q])).all fun a => ! isIdent a) = true := by
        have := Way.all_not_isIdent hc hc' (c := ',') (by decide)
        simp only [List.all_append, List.all_cons, List.all_nil] at this ⊢
        simp [this, Way.isMark_not_isIdent hq]
      have edge : ∀ d ∈ x.getLast?, isIdent d = false := fun d hd =>
        edge d (Text.mem_getLast?_append (Text.mem_getLast?_append hd))
      have later : (c ++ ',' :: (c' ++ [q])) ++ (m ++ [q']) = x ++ a :: z := by simpa using later
      rcases h.member.begins_or_behind quoted later ha edge with atMember | ⟨y, rfl, last⟩
      · exact ⟨m, q' :: rest, by simp, by simp [atMember], mark⟩
      · have : a ∈ [q'] := by simp [last]
        obtain rfl := List.mem_singleton.1 this
        rw [mark a rfl] at ha
        cases ha
  · cases u with
    | nil =>
      rw [List.nil_append] at e
      have := paren tail a (by rw [← e]; rfl)
      rw [ha] at this
      cases this
    | cons c u =>
      obtain ⟨rfl, rfl⟩ := List.cons.inj e
      obtain ⟨s, hs, v, e, hv⟩ := spelled.segment_at hss rfl ha edge
      refine ⟨s, v ++ ((b ++ '(' :: (b' ++ "this")) ++ (tail ++ rest)), Or.inl hs, ?_, ?_⟩
      · rw [← List.append_assoc, ← e]
        simp
      · cases v with
        | nil => exact paren _
        | cons d v => exact hv

/-- The word `super`, in front of a dot or a parenthesis, does not begin in a delegation where it is
neither a segment of the name nor the member. -/
theorem not_super (h : Delegation name way m piece rest) (hn : IsNamespace name)
    (plain : "super".toList ∉ segments name) (hm : m ≠ "super") {p z u : Text} {c : Char}
    (split : piece = p ++ z) (hz : z ≠ []) (guarded : Guarded p.reverse) (hc : isIdent c = false) :
    z ++ rest ≠ "super" ++ c :: u := by
  intro e
  obtain ⟨z, rfl⟩ : ∃ z', z = 's' :: z' := by
    obtain ⟨a, z, rfl⟩ := List.exists_cons_of_ne_nil hz
    obtain ⟨rfl, -⟩ := List.cons.inj e
    exact ⟨z, rfl⟩
  have edge : ∀ b ∈ p.getLast?, isIdent b = false := fun b hb =>
    (Bool.or_eq_false_iff.1 (guarded b (by simpa using hb))).1
  obtain ⟨s, v, hs, e', hv⟩ := h.word_at hn split (by decide) edge
  have super : ("super" : Text).all isIdent = true := by decide
  have ends : ∀ b ∈ (c :: u).head?, isIdent b = false := by
    rintro b ⟨⟩
    exact hc
  have whole : s.all isIdent = true := by
    rcases hs with hs | rfl | rfl
    · exact (h.isIdentifier_segment hn s hs).2
    · decide
    · exact h.member.2
  obtain ⟨rfl, -⟩ := append_inj_of_all super whole ends hv (e.symm.trans e')
  rcases hs with hs | hs | hs
  · rcases List.mem_append.1 hs with hs | hs
    · exact plain hs
    · cases way with
      | base => simp [Way.words] at hs
      | call | applyNone | applySome =>
        have : "super".toList = m := by simpa [Way.words] using hs
        exact hm this.symm
  · cases hs
  · exact hm hs.symm

end Delegation

/-! ## Delegations in texts -/

namespace Way

/-- The two texts go on alike: with a comma or not, and with an identifier or not. -/
structure GoesOnAlike (rest rest' : Text) : Prop where
  comma : CommaNext rest ↔ CommaNext rest'
  word : WordEnds rest ↔ WordEnds rest'

theorem goesOnAlike_append_cons {c : Char} (stop : IsStop c) (hc : c ≠ ',') (w v : Text) :
    GoesOnAlike (w ++ c :: v) w := by
  constructor
  · induction w with
    | nil => simp [CommaNext, stop.blank, hc]
    | cons a w ih =>
      cases ha : isBlank a with
      | true => simpa [CommaNext, ha] using ih
      | false => simp [CommaNext, ha]
  · cases w with
    | nil => simp [WordEnds, stop.ident]
    | cons a w => simp [WordEnds]

/-- What is written behind the first argument can be followed by what goes on alike. -/
theorem IsTail.congr {way : Way} {m tail rest rest' : Text} (h : way.IsTail m tail rest)
    (alike : GoesOnAlike rest rest') : way.IsTail m tail rest' := by
  cases way with
  | base => exact h
  | call => exact ⟨h.1, alike.word.1 h.2⟩
  | applyNone => exact ⟨h.1, alike.word.1 h.2.1, mt alike.comma.2 h.2.2⟩
  | applySome => exact ⟨h.1, alike.word.1 h.2.1, alike.comma.1 h.2.2⟩

end Way

theorem Delegation.congr {name m piece rest rest' : Text} {way : Way}
    (h : Delegation name way m piece rest) (alike : Way.GoesOnAlike rest rest') :
    Delegation name way m piece rest' := by
  obtain ⟨head, o, tail, split, spelled, opens, behind⟩ := h.parts
  exact ⟨h.member, head, o, tail, split, spelled, opens, behind.congr alike⟩

theorem Guarded.of_reverse_append {x y : Text} (h : Guarded (x ++ y).reverse) :
    Guarded y.reverse := by
  intro a ha
  refine h a ?_
  rw [List.head?_reverse] at ha ⊢
  exact Text.mem_getLast?_append ha

namespace Delegates

variable {name m t u v : Text} {way : Way} {c : Char}

/-- A delegation lies on one side of a closing bracket or a semicolon. -/
theorem of_append_cons (hn : IsNamespace name) (mark : IsEndMark c)
    (h : Delegates name way m (u ++ c :: v)) : Delegates name way m u ∨ Delegates name way m v := by
  obtain ⟨x, piece, rest, split, guarded, delegation⟩ := h
  have outside := delegation.not_isEndMark hn mark
  have comma : c ≠ ',' := by
    rintro rfl
    rcases mark with mark | mark <;> cases mark
  rcases List.append_eq_append_iff.1 split with ⟨w, rfl, e⟩ | ⟨w, rfl, e⟩
  · cases w with
    | nil =>
      obtain ⟨a, r, rfl, ha⟩ := delegation.exists_cons hn
      obtain ⟨rfl, -⟩ := List.cons.inj e
      exact absurd List.mem_cons_self outside
    | cons b w =>
      obtain ⟨rfl, rfl⟩ : c = b ∧ v = w ++ (piece ++ rest) := List.cons.inj e
      refine Or.inr ⟨w, piece, rest, rfl, ?_, delegation⟩
      exact @Guarded.of_reverse_append (u ++ [c]) w (by simpa using guarded)
  · have others : piece.all (· != c) = true :=
      List.all_eq_true.2 fun a ha => bne_iff_ne.2 (ne_of_mem_of_not_mem ha outside)
    obtain ⟨rest', rfl, rfl⟩ := append_eq_append_cons others (by simp) e
    exact Or.inl ⟨x, piece, rest', rfl, guarded,
      delegation.congr (Way.goesOnAlike_append_cons mark.isStop comma rest' v)⟩

/-- A delegation lies behind a character that no identifier has. -/
theorem of_cons (hn : IsNamespace name) (hc : isIdent c = false)
    (h : Delegates name way m (c :: t)) : Delegates name way m t := by
  obtain ⟨x, piece, rest, split, guarded, delegation⟩ := h
  cases x with
  | nil =>
    obtain ⟨a, r, rfl, ha⟩ := delegation.exists_cons hn
    obtain ⟨rfl, -⟩ := List.cons.inj split
    rw [ha] at hc
    cases hc
  | cons b x =>
    obtain ⟨rfl, rfl⟩ := List.cons.inj split
    exact ⟨x, piece, rest, rfl, @Guarded.of_reverse_append [c] x guarded, delegation⟩

end Delegates

/-- Where there is no dot, there is no delegation. -/
theorem not_delegates_of_not_mem {name m t : Text} {way : Way} (h : '.' ∉ t) :
    ¬ Delegates name way m t := by
  rintro ⟨x, piece, rest, rfl, -, delegation⟩
  exact h (by simp [delegation.dot_mem])

end Modulize.Class
