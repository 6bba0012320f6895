import Modulize.Proofs.Collections
import Modulize.Proofs.Doc.NormalForm
import Modulize.Proofs.Pattern.Composed

/-!
# Comments that are closed at their end only

A comment is unbroken (`IsUnbroken`) if no line of it contains the mark that closes a comment. The
comment that is read from a text in front of whose closing mark there is no other one is unbroken
(`isUnbroken_parse`), and changes of the lines that put in neither stars nor slashes leave it so
(`isUnbroken_splitVisibilityTypes`, `isUnbroken_nullablePrimitiveType`). An unbroken comment is
written as one comment with a line break behind it (`exists_render`).
-/

namespace Modulize

namespace Pattern

/-! ## Characters that a pattern reads and remembers -/

/-- The pattern reads and remembers characters of a class only. -/
def Only (r : Pattern) (p : Char → Bool) : Prop :=
  r.Gives fun _ piece notes => piece.all p = true ∧ ∀ n ∈ notes, n.2.all p = true

section

variable {r a b : Pattern} {p : Char → Bool}

theorem Only.of_describes {R : Text → Prop} (h : r.Describes R)
    (all : ∀ t, R t → t.all p = true) : r.Only p :=
  h.gives.imp (by
    rintro _ piece _ ⟨hp, rfl⟩
    exact ⟨all piece hp, by simp⟩)

theorem only_place (q : Option Char → Text → Bool) : (place q).Only p :=
  (gives_place q).imp (by
    rintro _ _ _ ⟨rfl, rfl⟩
    simp)

theorem only_one {q : Char → Bool} (all : ∀ c, q c = true → p c = true) : (one q).Only p :=
  .of_describes (describes_one q) (by
    rintro _ ⟨c, hc, rfl⟩
    simp [all c hc])

theorem only_run {q : Char → Bool} (all : ∀ c, q c = true → p c = true) : (run q).Only p :=
  .of_describes (describes_run q) fun _ ht =>
    List.all_eq_true.2 fun c hc => all c (List.all_eq_true.1 ht c hc)

theorem Only.seq (ha : a.Only p) (hb : b.Only p) : (a ++ b).Only p := by
  refine (Gives.seq ha hb).imp ?_
  rintro _ _ _ ⟨x, n, y, m, ⟨hx, hn⟩, ⟨hy, hm⟩, rfl, rfl⟩
  refine ⟨by rw [List.all_append, hx, hy]; rfl, fun k hk => ?_⟩
  exact (List.mem_append.1 hk).elim (hm k) (hn k)

theorem Only.group (i : Nat) (h : r.Only p) : (Pattern.group i r).Only p := by
  refine (Gives.group i h).imp ?_
  rintro _ piece _ ⟨n, ⟨hp, hn⟩, rfl⟩
  exact ⟨hp, List.forall_mem_cons.2 ⟨hp, hn⟩⟩

/-- What the pattern reads is exchanged for what is made of the groups. -/
theorem Only.allows (h : r.Only p) {f : Match → Text}
    (made : ∀ m : Match, (∀ i, (m.groupText i).all p = true) → f m ≠ [] ∧ (f m).all p = true) :
    r.Allows f fun _ _ _ new => new ≠ [] ∧ new.all p = true := by
  refine Gives.allows h fun _ piece notes _ m ⟨_, hn⟩ noted => made m fun i => ?_
  rw [groupText_of_noted noted]
  cases e : lookup? i notes with
  | none => rfl
  | some text => exact hn (i, text) (mem_of_lookup? e)

end

end Pattern

namespace Doc.Comment

open Text Pattern

/-- No line of the comment contains the mark that closes a comment. -/
def IsUnbroken (c : Comment) : Prop := ∀ l ∈ c.lines, ¬ closing <:+: l

/-! ## Reading -/

theorem inner_comment {w g : Text} (blank : g.all isBlank = true) :
    inner ("/**" ++ (w ++ (closing ++ g))) = w := by
  have tight : IsTight isBlank ("/**".toList ++ (w ++ closing)) := by
    constructor
    · rintro _ ⟨⟩
      decide
    · intro a ha
      rw [getLast?_append_right _ (by simp [closing]), getLast?_append_right _ (by decide)] at ha
      obtain rfl : '/' = a := Option.some.inj ha
      decide
  have around : "/**".toList ++ (w ++ (closing ++ g)) =
      [] ++ (("/**".toList ++ (w ++ closing)) ++ g) := by simp
  have trimmed : Text.trim ("/**" ++ (w ++ (closing ++ g))) = "/**".toList ++ (w ++ closing) := by
    rw [around]
    exact strip_append rfl blank tight
  have opened : startsWith "/**" ("/**".toList ++ (w ++ closing)) = true := rfl
  have rest : ("/**".toList ++ (w ++ closing)).drop 3 = w ++ closing := rfl
  have closed : endsWith "*/" (w ++ closing) = true :=
    List.isSuffixOf_iff_suffix.2 (List.suffix_append _ _)
  unfold inner
  simp only [trimmed, opened, if_true, rest, closed]
  exact List.take_left' (by simp [closing])

/-- The comment that is read from a text that is closed once. -/
theorem isUnbroken_parse {w g : Text} (once : ¬ closing <:+: w) (blank : g.all isBlank = true) :
    (parse ("/**" ++ (w ++ (closing ++ g)))).IsUnbroken := by
  intro l hl mem
  rw [lines_parse] at hl
  obtain ⟨raw, hraw, rfl⟩ := List.mem_map.1 (mem_of_mem_trimLines hl)
  rw [inner_comment blank] at hraw
  exact once ((mem.trans (isInfix_undecorate raw)).trans (infix_of_mem_lines hraw))

theorem isUnbroken_parse_nil : (parse []).IsUnbroken := nofun

/-! ## Changing lines -/

/-- Characters of no mark. -/
def isPlain (c : Char) : Bool := c != '*' && c != '/'

theorem isPlain_of_isBlank {c : Char} (h : isBlank c = true) : isPlain c = true := by
  have star : c ≠ '*' := ne_of_isBlank h rfl
  have slash : c ≠ '/' := ne_of_isBlank h rfl
  simp [isPlain, star, slash]

/-- An exchange for plain texts makes no mark that closes a comment. -/
theorem closing_infix_of_rewrites {past t out : Text}
    (h : Rewrites (fun _ _ _ new => new ≠ [] ∧ new.all isPlain = true) past t out) :
    (closing <:+: out → closing <:+: t) ∧ (out.head? = some '/' → t.head? = some '/') := by
  induction h with
  | done => exact ⟨id, id⟩
  | @keep past a rest out _ ih =>
    refine ⟨fun mem => ?_, id⟩
    rcases List.infix_cons_iff.1 mem with begins | mem
    · obtain ⟨rfl, slash⟩ := List.cons_prefix_cons.1 begins
      obtain ⟨v, e⟩ := slash
      obtain ⟨r, rfl⟩ := List.head?_eq_some_iff.1 (ih.2 (e ▸ rfl))
      exact ⟨[], r, rfl⟩
    · exact (ih.1 mem).trans (List.suffix_cons a rest).isInfix
  | @swap past piece rest new out hR _ ih =>
    obtain ⟨filled, plain⟩ := hR
    constructor
    · intro mem
      have behind : closing <:+: out := by
        clear filled
        induction new with
        | nil => exact mem
        | cons a new ih' =>
          obtain ⟨here, plain⟩ := Bool.and_eq_true_iff.1 plain
          rcases List.infix_cons_iff.1 mem with begins | mem
          · obtain ⟨rfl, -⟩ := List.cons_prefix_cons.1 begins
            cases here
          · exact ih' plain mem
      exact (ih.1 behind).trans (List.suffix_append piece rest).isInfix
    · intro slash
      obtain ⟨a, new, rfl⟩ := List.exists_cons_of_ne_nil filled
      obtain rfl : a = '/' := Option.some.inj slash
      cases (Bool.and_eq_true_iff.1 plain).1

theorem IsUnbroken.mapLines {c : Comment} (h : c.IsUnbroken) {r : Pattern} {f : Match → Text}
    (consumes : r.Consumes) (only : r.Only isPlain)
    (made : ∀ m : Match, (∀ i, (m.groupText i).all isPlain = true) →
      f m ≠ [] ∧ (f m).all isPlain = true) :
    (c.mapLines (r.replace f)).IsUnbroken := by
  intro l hl mem
  obtain ⟨b, hb, hl⟩ := List.mem_flatten.1 hl
  obtain ⟨b', hb', rfl⟩ := List.mem_map.1 hb
  obtain ⟨line, hline, hl⟩ := List.mem_flatMap.1 hl
  have rewritten := rewrites_replace consumes (only.allows made) line
  exact h line (List.mem_flatten.2 ⟨b', hb', hline⟩)
    ((closing_infix_of_rewrites rewritten).1 (mem.trans (infix_of_mem_lines hl)))

theorem only_blanks : blanks.Only isPlain := only_run fun _ => isPlain_of_isBlank

theorem only_oneOf (words : List Text) (h : words ≠ [])
    (plain : ∀ t ∈ words, t.all isPlain = true) : (oneOf (words.map literal)).Only isPlain :=
  .of_describes (describes_oneOf h) plain

theorem only_literal {t : Text} (plain : t.all isPlain = true) : (literal t).Only isPlain :=
  .of_describes (describes_literal t) fun _ e => e ▸ plain

theorem only_char {a : Char} (plain : isPlain a = true) : (one (· == a)).Only isPlain :=
  only_one fun _ e => eq_of_beq e ▸ plain

theorem isUnbroken_splitVisibilityTypes {c : Comment} (h : c.IsUnbroken) :
    c.splitVisibilityTypes.IsUnbroken := by
  have word : (oneOf [literal "private", literal "protected", literal "public"]).Only isPlain :=
    only_oneOf ["private", "protected", "public"] (by simp) (by decide)
  have only : visibilityWithType.Only isPlain :=
    ((((only_place _).seq (only_blanks.group 1)).seq (only_char rfl)).seq (word.group 2)).seq
      only_blanks |>.seq (only_char rfl)
  refine h.mapLines (Consumes.seq_right _ (consumes_one _)) only fun m plain => ⟨by simp, ?_⟩
  simp only [List.all_append, List.all_cons, plain]
  decide

theorem isUnbroken_nullablePrimitiveType {c : Comment} (h : c.IsUnbroken) :
    c.nullablePrimitiveType.IsUnbroken := by
  have word : (oneOf [literal "number", literal "boolean", literal "string"]).Only isPlain :=
    only_oneOf ["number", "boolean", "string"] (by simp) (by decide)
  have front : (blanks ++ literal "@type" ++ blanks ++ one (· == '{')).Only isPlain :=
    ((only_blanks.seq (only_literal (by decide))).seq only_blanks).seq (only_char rfl)
  have only : primitiveType.Only isPlain :=
    (((only_place _).seq (front.group 1)).seq (word.group 2)).seq (only_char rfl)
  refine h.mapLines (Consumes.seq_right _ (consumes_one _)) only fun m plain => ⟨by simp, ?_⟩
  simp only [List.all_append, plain]
  decide

/-! ## Writing -/

/-- **An unbroken comment is written as one comment**, or not at all. -/
theorem IsUnbroken.exists_render {c : Comment} (h : c.IsUnbroken) :
    c.render = [] ∨ ∃ body, c.render = '/' :: '*' :: (body ++ closing) ++ ['\n'] ∧
      ¬ closing <:+: body := by
  cases empty : c.isEmpty with
  | true => exact Or.inl (by rw [render, empty, if_pos rfl])
  | false =>
    refine Or.inr ⟨'*' :: '\n' :: (writtenLines c.lines ++ [' ']), ?_, ?_⟩
    · rw [render_eq empty]
      simp [closing]
    · intro mem
      rcases infix_of_append_cons (u := ['*']) (c := '\n') (by decide) mem with mem | mem
      · revert mem
        decide
      · exact not_closing_infix_writtenLines h (by decide) mem

end Doc.Comment

end Modulize
