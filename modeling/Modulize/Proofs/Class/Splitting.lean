import Modulize.Class.Render
import Modulize.Proofs.Collections
import Modulize.Proofs.Script.Indented

/-!
# Functions that are split and written again

A function is split into what stands in its parentheses and what stands in its braces
(`IsSplit`, `splitFunction_eq_ok_iff`); blanks at the ends go, and the body loses its indentation
(`bodyText`). `block` writes the two parts again. `splitFunction_block_iff` says that the function
that is written is split into the same parts, whatever comments and literals they contain, exactly
if the parameters do not end in a line comment (`EndsInComment`). The body may end in one, since the
closing brace gets a line of its own.

The exception is real: a comment at the end of the parameters swallows the bracket that is written
behind it (`splitFunction_block_comment`).
-/

namespace Modulize.Class

open Script

/-! ## Splitting -/

/-- What is left of the text between the braces of a function. -/
def bodyText (y : Text) : Text := (Text.dedent (Text.strip (· == '\n') y)).trim

/-- The text is a function with `x` in its parentheses and `y` in its braces. -/
def IsSplit (definition x y : Text) : Prop :=
  ∃ u c g s, definition = u ++ '(' :: (x ++ c :: (g ++ '{' :: (y ++ s))) ∧ '(' ∉ u ∧ '{' ∉ g ∧
    Fills ('(' :: u.reverse) x (c :: (g ++ '{' :: (y ++ s))) ∧
    Fills ('{' :: (u ++ '(' :: (x ++ c :: g)).reverse) y s

theorem offsetOf?_append {c : Char} {v : Text} (h : c ∉ v) (u w : Text) :
    offsetOf? c (u ++ (v ++ c :: w)) u.length = some (u.length + v.length) := by
  have all : ∀ a ∈ v, (a != c) = true := fun a ha => bne_iff_ne.2 fun e => h (e ▸ ha)
  simp [offsetOf?, List.takeWhile_append_of_pos all]

theorem exists_of_offsetOf? {c : Char} {u t : Text} {n : Nat}
    (h : offsetOf? c (u ++ t) u.length = some n) :
    ∃ v w, t = v ++ c :: w ∧ c ∉ v ∧ n = u.length + v.length := by
  rw [offsetOf?, List.drop_left] at h
  split at h
  · rename_i mem
    obtain ⟨v, w, rfl, first⟩ := List.eq_append_cons_of_mem mem
    have h' := offsetOf?_append first u w
    rw [offsetOf?, List.drop_left, if_pos mem] at h'
    exact ⟨v, w, rfl, first, Option.some.inj (h.symm.trans h')⟩
  · cases h

section

variable {u x g y s : Text} {c : Char}

/-- The text up to the parenthesis that closes, and up to the brace. -/
theorem append_cons_eq (u x r : Text) (a c : Char) :
    u ++ a :: (x ++ c :: r) = (u ++ a :: (x ++ [c])) ++ r := by simp

theorem length_append_cons (u x : Text) (a c : Char) :
    (u ++ a :: (x ++ [c])).length = u.length + 1 + x.length + 1 := by
  simp only [List.length_append, List.length_cons, List.length_nil]
  omega

theorem whole_eq (u x g s : Text) (c : Char) :
    u ++ '(' :: (x ++ c :: (g ++ '{' :: s)) = (u ++ '(' :: (x ++ c :: g)) ++ '{' :: s := by simp

theorem length_whole (u x g : Text) (c : Char) :
    (u ++ '(' :: (x ++ [c])).length + g.length = (u ++ '(' :: (x ++ c :: g)).length := by
  simp only [List.length_append, List.length_cons, List.length_nil]
  omega

end

/-- **What a function is split into.** -/
theorem splitFunction_eq_ok_iff {name definition params body : Text} :
    splitFunction name definition = .ok (params, body) ↔
      ∃ x y, IsSplit definition x y ∧ params = x.trim ∧ body = bodyText y := by
  constructor
  · intro h
    unfold splitFunction at h
    cases hp : offsetOf? '(' definition 0 with
    | none =>
      rw [hp] at h
      cases h
    | some openParen =>
      obtain ⟨u, w, rfl, noParen, rfl⟩ := exists_of_offsetOf? (u := []) hp
      rw [hp, List.length_nil, Nat.zero_add] at h
      obtain ⟨closeParen, hclose, h⟩ := bind_eq_ok h
      obtain ⟨x, _, rfl, rfl, ⟨c, r, rfl, closing⟩, inParens⟩ :=
        (groupEnd_eq_ok_iff_fills (Or.inl rfl)).1 hclose
      cases hb : offsetOf? '{' (u ++ '(' :: (x ++ c :: r)) (u.length + 1 + x.length + 1) with
      | none =>
        rw [hb] at h
        cases h
      | some openBrace =>
        rw [hb] at h
        rw [append_cons_eq, ← length_append_cons u x '(' c] at hb
        obtain ⟨g, s, rfl, noBrace, rfl⟩ := exists_of_offsetOf? hb
        obtain ⟨closeBrace, hbrace, h⟩ := bind_eq_ok h
        rw [whole_eq, length_whole] at hbrace
        obtain ⟨y, s, rfl, rfl, inBraces⟩ := (groupEnd_eq_ok_iff_fills (Or.inr rfl)).1 hbrace
        obtain ⟨rfl, rfl⟩ := Prod.mk.inj (Except.ok.inj h)
        refine ⟨x, y, ⟨u, c, g, s, rfl, noParen, noBrace, ⟨⟨c, _, rfl, closing⟩, inParens⟩,
          inBraces⟩, ?_, ?_⟩
        · rw [Text.slice_bracket]
        · rw [whole_eq, length_whole, Text.slice_bracket]
          rfl
  · rintro ⟨x, y, ⟨u, c, g, s, rfl, noParen, noBrace, inParens, inBraces⟩, rfl, rfl⟩
    have openParen := offsetOf?_append noParen [] (x ++ c :: (g ++ '{' :: (y ++ s)))
    have closeParen := (groupEnd_eq_ok_iff_fills (Or.inl rfl)).2 ⟨x, _, rfl, rfl, inParens⟩
    have openBrace := offsetOf?_append noBrace (u ++ '(' :: (x ++ [c])) (y ++ s)
    have closeBrace := (groupEnd_eq_ok_iff_fills (Or.inr rfl)).2 ⟨y, s, rfl, rfl, inBraces⟩
    rw [← append_cons_eq, length_append_cons] at openBrace
    have params := Text.slice_bracket u x (c :: (g ++ '{' :: (y ++ s))) '('
    have body := Text.slice_bracket (u ++ '(' :: (x ++ c :: g)) y s '{'
    rw [← whole_eq, ← length_whole, length_append_cons] at closeBrace body
    rw [List.nil_append, List.length_nil, Nat.zero_add] at openParen
    unfold splitFunction
    simp only [openParen, closeParen, openBrace, closeBrace, bind, Except.bind, pure, Except.pure]
    rw [params, body]
    rfl

/-! ## Writing -/

/-- The text between the braces of a function that is written. -/
def laidBody (b : Text) : Text := if b.isEmpty then [] else '\n' :: (b.indent "  " ++ ['\n'])

theorem block_eq (p b : Text) : block ("(" ++ p ++ ")") b =
    '(' :: (p ++ ')' :: ([' '] ++ '{' :: (laidBody b ++ ['}']))) := by
  unfold block laidBody
  split
  · simp
  · simp

/-- A body is left as it is when it is written and split again. -/
theorem bodyText_laidBody (y : Text) : bodyText (laidBody (bodyText y)) = bodyText y := by
  have even : Text.IsEven (bodyText y) := Text.isEven_trim_dedent _
  have tight : Text.IsTight isBlank (bodyText y) := Text.isTight_strip isBlank _
  have trimmed : (bodyText y).trim = bodyText y := Text.strip_eq_self_iff.2 tight
  generalize bodyText y = b at *
  cases b with
  | nil => rfl
  | cons a b =>
    have other : a ≠ '\n' := by
      rintro rfl
      cases even.head _ rfl
    have first : Text.indent (a :: b) "  " = ' ' :: ' ' :: a :: Text.indentFrom "  " false b := by
      rw [Text.indent, Text.indentFrom, if_neg other, if_pos rfl]
      rfl
    have ends : Text.IsTight (· == '\n') (Text.indent (a :: b) "  ") := by
      constructor
      · rw [first]
        rintro _ ⟨⟩
        rfl
      · rw [Text.indent, Text.getLast?_indentFrom]
        exact fun c hc => beq_false_of_ne fun e => by
          rw [e] at hc
          cases tight.2 _ hc
    have line : ['\n'].all (· == '\n') = true := rfl
    have indented : Text.strip (· == '\n') (laidBody (a :: b)) = Text.indent (a :: b) "  " :=
      Text.strip_append line line ends
    have gap : ("  " : Text).all isSpaceOrTab = true := by decide
    rw [bodyText, indented, Text.dedent_indent even gap, trimmed]

theorem isBlank_of_newlines {k : Text} (h : k.all (· == '\n') = true) : k.all isBlank = true :=
  List.all_eq_true.2 fun a ha => by
    rw [eq_of_beq (List.all_eq_true.1 h a ha)]
    rfl

theorem endsOpen_cons {a : Char} (h : a = '(' ∨ a = '{') (u : Text) : EndsOpen (a :: u) := by
  rcases h with rfl | rfl
  · rintro _ ⟨⟩
    decide
  · rintro _ ⟨⟩
    decide

/-- What is left of the text between the braces is a part of it that is laid out otherwise, with
blanks around it. -/
theorem exists_relaid_bodyText (y : Text) : ∃ w x w' fresh, y = w ++ (x ++ w') ∧
    w.all isBlank = true ∧ w'.all isBlank = true ∧ Relaid fresh x (bodyText y) := by
  -- the newlines and blanks around the body, and the body with the indentation that it shares
  obtain ⟨n, n', around, newlines, newlines'⟩ := Text.exists_strip (· == '\n') y
  obtain ⟨w, w', trimmed, blank, blank'⟩ :=
    Text.exists_strip isBlank (Text.dedent (Text.strip (· == '\n') y))
  have laid := Text.relaid_dedent (Text.strip (· == '\n') y)
  rw [trimmed] at laid
  obtain ⟨v, z, _, front, laidFront, laid⟩ := laid.exists_append
  obtain ⟨x, v', _, rfl, layout, laidBack⟩ := laid.exists_append
  rw [front] at around
  refine ⟨n ++ v, x, v' ++ n', _, by rw [around]; simp, ?_, ?_, layout⟩
  · rw [List.all_append, isBlank_of_newlines newlines, laidFront.blank blank]
    rfl
  · rw [List.all_append, laidBack.blank blank', isBlank_of_newlines newlines']
    rfl

/-- What fills the braces of a function fills them again when it is written. -/
theorem fills_laidBody {u u' y s s' : Text} (h : Fills ('{' :: u) y s) :
    Fills ('{' :: u') (laidBody (bodyText y)) ('}' :: s') := by
  have closes : ClosesNext ('}' :: s') := .cons rfl s'
  refine ⟨⟨'}', s', rfl, rfl⟩, ?_⟩
  obtain ⟨w, x, w', _, split, blank, blank', layout⟩ := exists_relaid_bodyText y
  rw [split] at h
  generalize bodyText y = b at *
  cases b with
  | nil => rfl
  | cons a b =>
    have line : ClosesNext (['\n'] ++ '}' :: s') := closes.blank_append rfl
    have opens : EndsOpen (['\n'].reverse ++ '{' :: u') :=
      (endsOpen_cons (Or.inr rfl) u').blank_append rfl
    obtain ⟨σ, hσ, through⟩ := h.exists_runWithin blank blank' layout.at_line
      (endsOpen_cons (Or.inr rfl) u) opens line
    have gap : ("  " : Text).all isSpaceOrTab = true := by decide
    have indented : Relaid true (Text.indent (a :: b) "  ") (a :: b) :=
      Text.relaid_indent gap true (a :: b)
    have through : Scan.inside.runWithin (['\n'].reverse ++ '{' :: u')
        (Text.indent (a :: b) "  ") (['\n'] ++ '}' :: s') = some σ := by
      rw [← through]
      exact indented.runWithin_eq line line (.refl _) (Scan.sound_code 1 _)
        fun _ => ⟨rfl, rfl⟩
    have laid : laidBody (a :: b) = ['\n'] ++ (Text.indent (a :: b) "  " ++ ['\n']) := rfl
    rw [laid, Scan.runWithin_append, Scan.runWithin_blank rfl, Option.bind_some,
      Scan.runWithin_append, through, Option.bind_some, Scan.runWithin_newline hσ]

/-- A line comment is open at the end of the parameters. -/
def EndsInComment (params : Text) : Prop :=
  (Scan.outside.run [] ('(' :: params) [')']).context = .lineComment

instance (params : Text) : Decidable (EndsInComment params) :=
  inferInstanceAs (Decidable (_ = _))

/-- The scan goes through the parameters, whatever bracket is closed behind them, and is in code at
their end or in a line comment. -/
theorem exists_runWithin_params {u x r : Text} (h : Fills ('(' :: u) x r) :
    ∃ σ, (σ = .inside ∧ ¬ EndsInComment x.trim ∨ σ = .note ∧ EndsInComment x.trim) ∧
      ∀ r', ClosesNext r' → Scan.inside.runWithin ['('] x.trim r' = some σ := by
  obtain ⟨w, w', trimmed, blank, blank'⟩ := Text.exists_strip isBlank x
  rw [trimmed] at h
  have close : ClosesNext [')'] := .cons rfl []
  obtain ⟨σ, hσ, through⟩ := h.exists_runWithin blank blank' (.refl _ true)
    (endsOpen_cons (Or.inl rfl) u) (endsOpen_cons (Or.inl rfl) []) close
  have context : EndsInComment x.trim ↔ σ.context = .lineComment := by
    rw [EndsInComment, ← Scan.run_of_runWithin through]
    rfl
  refine ⟨σ, ?_, fun r' closes' => ?_⟩
  · rcases hσ with rfl | rfl
    · exact Or.inl ⟨rfl, fun ends => Context.noConfusion (context.1 ends)⟩
    · exact Or.inr ⟨rfl, context.2 rfl⟩
  · rw [← through]
    exact (Relaid.refl _ true).runWithin_eq closes' close (.refl _) (Scan.sound_code 1 _)
      fun _ => ⟨rfl, rfl⟩

theorem trim_trim (t : Text) : t.trim.trim = t.trim :=
  Text.strip_eq_self_iff.2 (Text.isTight_strip isBlank t)

/-- Parameters that end in a line comment are not what stands in the parentheses when they are
written: the group does not end in them, and the bracket behind them is part of the comment. -/
theorem ne_trim_of_note {p x r s : Text} {c : Char} (tight : Text.IsTight isBlank p)
    (through : Scan.inside.runWithin ['('] p (')' :: r) = some .note)
    (split : p ++ ')' :: r = x ++ c :: s) (h : Fills ['('] x (c :: s)) : x.trim ≠ p := by
  obtain ⟨⟨_, _, e, closing⟩, within⟩ := h
  obtain ⟨rfl, rfl⟩ := List.cons.inj e
  have whole : x <+: p ++ ')' :: r := ⟨c :: s, split.symm⟩
  rcases Nat.lt_or_ge p.length x.length with longer | shorter
  · have front : p ++ [')'] <+: p ++ ')' :: r := ⟨r, by simp⟩
    obtain ⟨z, rfl⟩ := List.prefix_of_prefix_length_le front whole
      (by rwa [List.length_append, List.length_singleton])
    intro same
    obtain ⟨w, w', around, blank, blank'⟩ := Text.exists_strip isBlank (p ++ [')'] ++ z)
    change _ = w ++ ((p ++ [')'] ++ z).trim ++ w') at around
    rw [same] at around
    cases p with
    | nil => cases Option.some.inj through
    | cons a p =>
      have none : w = [] := by
        cases w with
        | nil => rfl
        | cons b w =>
          obtain ⟨rfl, -⟩ := List.cons.inj around
          have first := (Bool.and_eq_true_iff.1 blank).1
          rw [tight.1 a rfl] at first
          cases first
      rw [none, List.nil_append, List.append_assoc] at around
      rw [← List.append_cancel_left around] at blank'
      cases blank'
  · obtain ⟨z, rfl⟩ := List.prefix_of_prefix_length_le whole (List.prefix_append p _) shorter
    rw [List.append_assoc] at split
    have behind : z ++ ')' :: r = c :: s := List.append_cancel_left split
    rw [Scan.runWithin_append, behind, within, Option.bind_some] at through
    cases z with
    | nil => cases Option.some.inj through
    | cons b z =>
      obtain ⟨rfl, -⟩ := List.cons.inj behind
      rw [Scan.runWithin, if_pos (Scan.endsGroup_iff.2 ⟨closing, rfl⟩)] at through
      cases through

/-- **A function that is written is split into its parts again**, exactly if its parameters do not
end in a line comment. -/
theorem splitFunction_block_iff {name definition params body : Text}
    (h : splitFunction name definition = .ok (params, body)) :
    splitFunction name (block ("(" ++ params ++ ")") body) = .ok (params, body) ↔
      ¬ EndsInComment params := by
  obtain ⟨x, y, ⟨u, c, g, s, -, -, -, inParens, inBraces⟩, rfl, rfl⟩ :=
    splitFunction_eq_ok_iff.1 h
  obtain ⟨σ, hσ, through⟩ := exists_runWithin_params inParens
  rw [block_eq, splitFunction_eq_ok_iff]
  rcases hσ with ⟨rfl, plain⟩ | ⟨rfl, comment⟩
  · refine iff_of_true ⟨x.trim, laidBody (bodyText y), ?_, (trim_trim x).symm,
      (bodyText_laidBody y).symm⟩ plain
    exact ⟨[], ')', [' '], ['}'], rfl, by simp, by decide,
      ⟨⟨')', _, rfl, rfl⟩, through _ (.cons rfl _)⟩, fills_laidBody inBraces⟩
  · refine iff_of_false ?_ (not_not_intro comment)
    rintro ⟨x', y', ⟨u', c', g', s', split, noParen, -, inParens', -⟩, same, -⟩
    cases u' with
    | cons a u' =>
      obtain ⟨rfl, -⟩ := List.cons.inj split
      exact noParen List.mem_cons_self
    | nil =>
      obtain ⟨-, split⟩ := List.cons.inj split
      exact ne_trim_of_note (Text.isTight_strip isBlank x) (through _ (.cons rfl _)) split inParens'
        same.symm

/-- The theorem for a function with an indented body, an empty line in it, and a comment at the end
of the body. -/
theorem splitFunction_block_iff_body :
    splitFunction "f" "( x, /* ( */ y ) \x7b\n    return x;\n  \n    // (y)\n\x7d" =
        .ok ("x, /* ( */ y", "return x;\n\n// (y)") ∧
      splitFunction "f" (block ("(" ++ "x, /* ( */ y" ++ ")") "return x;\n\n// (y)") =
        .ok ("x, /* ( */ y", "return x;\n\n// (y)") := by
  have split : splitFunction "f" "( x, /* ( */ y ) \x7b\n    return x;\n  \n    // (y)\n\x7d" =
      .ok ("x, /* ( */ y", "return x;\n\n// (y)") := by rfl
  exact ⟨split, (splitFunction_block_iff split).2 (by decide)⟩

/-- A comment at the end of the parameters swallows the bracket that is written behind it. -/
theorem splitFunction_block_comment :
    splitFunction "f" "(x // the x\n) \x7b\n  this.x = x;\n\x7d" =
        .ok ("x // the x", "this.x = x;") ∧
      splitFunction "f" (block ("(" ++ "x // the x" ++ ")") "this.x = x;") =
        .error (.malformedFunction "f") := by
  exact ⟨by rfl, by rfl⟩

end Modulize.Class
