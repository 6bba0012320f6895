import Modulize.Proofs.Script.CodeChars

/-!
# Blanks in scanned texts

A scan inside a bracket group goes through a piece of text (`Scan.runWithin`); the group ends at the
first closing bracket in front of which the scan is back inside the outermost bracket
(`groupEnd_eq_ok_iff_fills`).

The scan takes no notice of how a text is laid out. Two texts that differ in the spaces and tabs at
the beginnings of their lines (`Relaid`) are gone through alike (`Relaid.runWithin_eq`), whatever
the lines are part of: code, a comment or a literal. In code blanks count for nothing
(`runWithin_blank`); where a run of blanks leads back into code, the scan was in code before it or
in a line comment (`inside_or_note`).
-/

namespace Modulize.Script

/-! ## Texts that close a bracket -/

/-- The text closes a bracket, behind any blanks. -/
def ClosesNext (r : Text) : Prop := ∃ c s, r.dropWhile isBlank = c :: s ∧ isClosing c = true

namespace ClosesNext

variable {c : Char} {r s w : Text}

theorem cons (h : isClosing c = true) (s : Text) : ClosesNext (c :: s) := by
  have blank := (IsEndMark.isStop (Or.inr h)).blank
  exact ⟨c, s, List.dropWhile_cons_of_neg (by simp [blank]), h⟩

theorem blank_append (blank : w.all isBlank = true) (h : ClosesNext r) : ClosesNext (w ++ r) := by
  obtain ⟨c, s, split, closing⟩ := h
  refine ⟨c, s, ?_, closing⟩
  rw [List.dropWhile_append_of_pos (by simpa using blank), split]

/-- A text that closes a bracket begins with that or with a blank. -/
theorem head (h : ClosesNext r) :
    ∃ a s, r = a :: s ∧ isIdent a = false ∧ a ≠ '/' ∧ a ≠ '*' ∧ a ≠ '=' := by
  obtain ⟨c, s, split, closing⟩ := h
  cases r with
  | nil => cases split
  | cons a r =>
    refine ⟨a, r, rfl, ?_⟩
    cases blank : isBlank a with
    | true =>
      exact ⟨isIdent_eq_false_of_isBlank blank, ne_of_isBlank blank rfl, ne_of_isBlank blank rfl,
        ne_of_isBlank blank rfl⟩
    | false =>
      rw [List.dropWhile_cons_of_neg (by simp [blank])] at split
      obtain ⟨rfl, -⟩ := List.cons.inj split
      refine ⟨(IsEndMark.isStop (Or.inr closing)).ident, ?_⟩
      rcases IsEndMark.eq_of_isClosing closing with rfl | rfl | rfl <;> decide

end ClosesNext

/-! ## Texts that are laid out otherwise -/

/-- **The same text but for the spaces and tabs at the beginnings of its lines**; the flag says that
a line begins here. -/
inductive Relaid : Bool → Text → Text → Prop
  | nil (fresh : Bool) : Relaid fresh [] []
  | cons (fresh : Bool) (a : Char) {x x' : Text} (rest : Relaid (a == '\n') x x') :
      Relaid fresh (a :: x) (a :: x')
  | left {a : Char} {x x' : Text} (gap : isSpaceOrTab a = true) (rest : Relaid true x x') :
      Relaid true (a :: x) x'
  | right {a : Char} {x x' : Text} (gap : isSpaceOrTab a = true) (rest : Relaid true x x') :
      Relaid true x (a :: x')

namespace Relaid

variable {fresh : Bool} {x x' y y' r r' : Text}

theorem refl (x : Text) (fresh : Bool) : Relaid fresh x x := by
  induction x generalizing fresh with
  | nil => exact .nil fresh
  | cons a x ih => exact .cons fresh a (ih _)

theorem at_line (h : Relaid fresh x x') : Relaid true x x' := by
  cases h with
  | nil => exact .nil true
  | cons _ a rest => exact .cons true a rest
  | left gap rest => exact .left gap rest
  | right gap rest => exact .right gap rest

/-- A text that is laid out otherwise can be cut where the new text is cut. -/
theorem exists_append (h : Relaid fresh x (y ++ y')) :
    ∃ z z' fresh', x = z ++ z' ∧ Relaid fresh z y ∧ Relaid fresh' z' y' := by
  generalize e : y ++ y' = t at h
  induction h generalizing y with
  | nil fresh =>
    obtain ⟨rfl, rfl⟩ := List.append_eq_nil_iff.1 e
    exact ⟨[], [], fresh, rfl, .nil _, .nil _⟩
  | @cons fresh a x t rest ih =>
    cases y with
    | nil =>
      obtain rfl : y' = a :: t := e
      exact ⟨[], a :: x, fresh, rfl, .nil _, .cons _ _ rest⟩
    | cons b y =>
      obtain ⟨rfl, tail⟩ := List.cons.inj e
      obtain ⟨z, z', fresh', rfl, first, second⟩ := ih tail
      exact ⟨b :: z, z', fresh', rfl, .cons _ _ first, second⟩
  | left gap rest ih =>
    obtain ⟨z, z', fresh', rfl, first, second⟩ := ih e
    exact ⟨_ :: z, z', fresh', rfl, .left gap first, second⟩
  | @right a x t gap rest ih =>
    cases y with
    | nil =>
      obtain rfl : y' = a :: t := e
      exact ⟨[], x, true, rfl, .nil _, .right gap rest⟩
    | cons b y =>
      obtain ⟨rfl, tail⟩ := List.cons.inj e
      obtain ⟨z, z', fresh', rfl, first, second⟩ := ih tail
      exact ⟨z, z', fresh', rfl, .right gap first, second⟩

/-- Blanks are laid out as blanks. -/
theorem blank (h : Relaid fresh x x') (blank : x'.all isBlank = true) : x.all isBlank = true := by
  induction h with
  | nil => rfl
  | cons _ a rest ih =>
    obtain ⟨here, blank⟩ := Bool.and_eq_true_iff.1 blank
    rw [List.all_cons, here, ih blank]
    rfl
  | left gap rest ih =>
    rw [List.all_cons, isBlank_of_isSpaceOrTab gap, ih blank]
    rfl
  | right gap rest ih => exact ih (Bool.and_eq_true_iff.1 blank).2

/-! ### What lies ahead -/

/-- Two texts that go on within their lines begin with the same character, or neither goes on. -/
theorem head_cases (h : Relaid false x x') :
    (x = [] ∧ x' = []) ∨ ∃ a y y', x = a :: y ∧ x' = a :: y' := by
  cases h with
  | nil => exact Or.inl ⟨rfl, rfl⟩
  | cons _ a rest => exact Or.inr ⟨a, _, _, rfl, rfl⟩

/-- Behind its blanks the text begins with an identifier, perhaps in a parenthesis. -/
def operandBegins (t : Text) : Bool :=
  match t.dropWhile isBlank with
  | [] => false
  | [b] => isIdent b
  | b :: d :: _ => isIdent b || (b == '(' && isIdent d)

theorem looksLikeDivision_cons (a : Char) (t : Text) :
    looksLikeDivision (a :: t) = (isBlank a && operandBegins t) := rfl

theorem operandBegins_cons_of_blank {a : Char} (h : isBlank a = true) (t : Text) :
    operandBegins (a :: t) = operandBegins t := by
  rw [operandBegins, List.dropWhile_cons_of_pos h, operandBegins]

theorem operandBegins_cons_cons {b : Char} (h : isBlank b = false) (d : Char) (t : Text) :
    operandBegins (b :: d :: t) = (isIdent b || (b == '(' && isIdent d)) := by
  rw [operandBegins, List.dropWhile_cons_of_neg (by simp [h])]

theorem operandBegins_closesNext (h : ClosesNext r) : operandBegins r = false := by
  obtain ⟨c, s, split, closing⟩ := h
  have stop := IsEndMark.isStop (Or.inr closing)
  have parenthesis : (c == '(') = false := beq_false_of_ne stop.parenthesis
  rw [operandBegins, split]
  cases s <;> simp [stop.ident, parenthesis]

variable (h : Relaid fresh x x') (closes : ClosesNext r) (closes' : ClosesNext r')

include h closes closes'

/-- The same kind of operand lies ahead in both texts, whichever bracket is closed behind them. -/
theorem operandBegins_eq : operandBegins (x ++ r) = operandBegins (x' ++ r') := by
  induction h with
  | nil => rw [List.nil_append, List.nil_append, operandBegins_closesNext closes,
      operandBegins_closesNext closes']
  | @cons fresh a x x' rest ih =>
    cases blank : isBlank a with
    | true =>
      rw [List.cons_append, List.cons_append, operandBegins_cons_of_blank blank,
        operandBegins_cons_of_blank blank, ih]
    | false =>
      have newline : (a == '\n') = false := beq_false_of_ne fun e => by
        rw [e] at blank
        cases blank
      rw [newline] at rest
      obtain ⟨c, s, rfl, ident, -⟩ := closes.head
      obtain ⟨c', s', rfl, ident', -⟩ := closes'.head
      rcases rest.head_cases with ⟨rfl, rfl⟩ | ⟨b, y, y', rfl, rfl⟩
      · simp [operandBegins_cons_cons blank, ident, ident']
      · simp [operandBegins_cons_cons blank]
  | left gap rest ih =>
    rw [List.cons_append, operandBegins_cons_of_blank (isBlank_of_isSpaceOrTab gap), ih]
  | right gap rest ih =>
    rw [List.cons_append, operandBegins_cons_of_blank (isBlank_of_isSpaceOrTab gap), ih]

end Relaid

/-- All that a step asks of the text behind it is whether a comment or a regular expression is
opened. -/
theorem step_congr_after {before : Text} {c : Char} {after after' : Text}
    (slash : after.head? = some '/' ↔ after'.head? = some '/')
    (star : after.head? = some '*' ↔ after'.head? = some '*')
    (opens : opensRegex before after = opensRegex before after') (ctx : Context) :
    ctx.step before c after = ctx.step before c after' := by
  cases ctx <;> simp only [Context.step, slash, star, opens]

/-- The machine takes the same step before a text that is laid out otherwise. -/
theorem Relaid.step_eq {a : Char} {x x' r r' : Text} (h : Relaid (a == '\n') x x')
    (closes : ClosesNext r) (closes' : ClosesNext r') (ctx : Context) (before : Text) :
    ctx.step before a (x ++ r) = ctx.step before a (x' ++ r') := by
  by_cases newline : a = '\n'
  · subst newline
    cases ctx <;> simp [Context.step]
  · rw [beq_false_of_ne newline] at h
    obtain ⟨c, s, rfl, -, slash, star, equals⟩ := closes.head
    obtain ⟨c', s', rfl, -, slash', star', equals'⟩ := closes'.head
    rcases h.head_cases with ⟨rfl, rfl⟩ | ⟨b, y, y', rfl, rfl⟩
    · have division : looksLikeDivision (c :: s) = looksLikeDivision (c' :: s') := by
        have first := operandBegins_closesNext closes
        have second := operandBegins_closesNext closes'
        rw [looksLikeDivision_cons, looksLikeDivision_cons]
        cases blank : isBlank c <;> cases blank' : isBlank c' <;>
          simp_all [operandBegins_cons_of_blank]
      have opens : opensRegex before (c :: s) = opensRegex before (c' :: s') := by
        have plain : (some c != some '=') = true ∧ (some c' != some '=') = true := by
          simp [equals, equals']
        simp only [opensRegex, division, List.head?_cons, plain]
      exact step_congr_after (by simp [slash, slash']) (by simp [star, star']) opens ctx
    · have rest : operandBegins (y ++ c :: s) = operandBegins (y' ++ c' :: s') := by
        cases h with
        | cons _ _ rest => exact rest.operandBegins_eq closes closes'
      have opens : opensRegex before (b :: (y ++ c :: s)) =
          opensRegex before (b :: (y' ++ c' :: s')) := by
        simp [opensRegex, looksLikeDivision_cons, rest]
      exact @step_congr_after before a (b :: (y ++ c :: s)) (b :: (y' ++ c' :: s')) Iff.rfl Iff.rfl
        opens ctx

/-! ## Runs inside a group -/

namespace Scan

/-- The scan is in code, directly inside of the outermost bracket. -/
def inside : Scan := ⟨.code, false, 1⟩

/-- The group ends behind the next character. -/
def endsGroup (σ : Scan) (before : Text) (c : Char) (after : Text) : Bool :=
  σ.readsCode before c after && isGroupEnd σ.depth c after

/-- The state behind a piece of text, unless the group ends in it. -/
def runWithin : Scan → Text → Text → Text → Option Scan
  | σ, _, [], _ => some σ
  | σ, before, c :: piece, rest =>
    if σ.endsGroup before c (piece ++ rest) then none
    else runWithin (σ.next before c (piece ++ rest)) (c :: before) piece rest

variable {σ τ : Scan} {before before' piece rest : Text} {offset e : Nat}

theorem runWithin_append (σ : Scan) (before p q rest : Text) :
    σ.runWithin before (p ++ q) rest =
      (σ.runWithin before p (q ++ rest)).bind fun τ => τ.runWithin (p.reverse ++ before) q rest := by
  induction p generalizing σ before with
  | nil => rfl
  | cons c p ih =>
    rw [List.cons_append, runWithin, runWithin, List.append_assoc]
    split
    · rfl
    · simp [ih]

theorem run_of_runWithin (h : σ.runWithin before piece rest = some τ) :
    σ.run before piece rest = τ := by
  induction piece generalizing σ before with
  | nil => exact Option.some.inj h
  | cons c piece ih =>
    rw [runWithin] at h
    split at h
    · cases h
    · exact ih h

/-- A group ends at a closing bracket directly inside of the outermost bracket, and nowhere else. -/
theorem endsGroup_iff {c : Char} : σ.endsGroup before c rest = true ↔
    isClosing c = true ∧ σ = inside := by
  obtain ⟨context, taken, depth⟩ := σ
  have code : (context.step before c rest).isCode = true → context = .code := by
    cases context <;> grind [Context.step]
  simp only [endsGroup, readsCode, isGroupEnd, Bool.and_eq_true, Bool.not_eq_true', beq_iff_eq]
  constructor
  · rintro ⟨⟨rfl, isCode⟩, closing, rfl⟩
    obtain rfl := code isCode
    exact ⟨closing, rfl⟩
  · rintro ⟨closing, e⟩
    obtain ⟨rfl, rfl, rfl⟩ := Scan.mk.inj e
    rcases IsEndMark.eq_of_isClosing closing with rfl | rfl | rfl <;> exact ⟨⟨rfl, rfl⟩, rfl, rfl⟩

/-- **A scan for the end of a group** goes through a piece of text up to a closing bracket in front
of which it is directly inside of the outermost bracket. -/
theorem end?_isGroupEnd_iff : σ.end? isGroupEnd before offset rest = some e ↔
    ∃ piece c r, rest = piece ++ c :: r ∧ e = offset + piece.length + 1 ∧ isClosing c = true ∧
      σ.runWithin before piece (c :: r) = some inside := by
  induction rest generalizing σ before offset with
  | nil => simp [end?, codeCharsFrom, endAmong]
  | cons a rest ih =>
    rw [end?_cons]
    change (if σ.endsGroup before a rest then _ else _) = _ ↔ _
    split
    · rename_i ends
      constructor
      · intro h
        obtain ⟨closing, rfl⟩ := endsGroup_iff.1 ends
        exact ⟨[], a, rest, rfl, (Option.some.inj h).symm, closing, rfl⟩
      · rintro ⟨piece, c, r, split, rfl, closing, h⟩
        cases piece with
        | nil => rfl
        | cons b piece =>
          obtain ⟨rfl, rfl⟩ : a = b ∧ rest = piece ++ c :: r := List.cons.inj split
          rw [runWithin, if_pos ends] at h
          cases h
    · rename_i goesOn
      rw [ih]
      constructor
      · rintro ⟨piece, c, r, rfl, rfl, closing, h⟩
        refine ⟨a :: piece, c, r, rfl, by rw [List.length_cons]; omega, closing, ?_⟩
        rw [runWithin, if_neg goesOn]
        exact h
      · rintro ⟨piece, c, r, split, rfl, closing, h⟩
        cases piece with
        | nil =>
          obtain ⟨rfl, rfl⟩ := List.cons.inj split
          exact absurd (endsGroup_iff.2 ⟨closing, Option.some.inj h⟩) goesOn
        | cons b piece =>
          obtain ⟨rfl, rfl⟩ : a = b ∧ rest = piece ++ c :: r := List.cons.inj split
          rw [runWithin, if_neg goesOn] at h
          exact ⟨piece, c, r, rfl, by rw [List.length_cons]; omega, closing, h⟩

/-! ### Blanks -/

/-- A group does not end at a blank. -/
theorem endsGroup_of_isBlank {a : Char} (h : isBlank a = true) :
    σ.endsGroup before a rest = false := by
  rw [Bool.eq_false_iff]
  intro ends
  have := (IsEndMark.isStop (Or.inr (endsGroup_iff.1 ends).1)).blank
  rw [h] at this
  cases this

theorem runWithin_cons_of_isBlank {a : Char} (h : isBlank a = true) (σ : Scan)
    (before piece rest : Text) : σ.runWithin before (a :: piece) rest =
      (σ.next before a (piece ++ rest)).runWithin (a :: before) piece rest := by
  rw [runWithin, endsGroup_of_isBlank h, if_neg Bool.false_ne_true]

/-- In code blanks count for nothing. -/
theorem runWithin_blank (blank : piece.all isBlank = true) (before rest : Text) :
    inside.runWithin before piece rest = some inside := by
  induction piece generalizing before with
  | nil => rfl
  | cons a piece ih =>
    obtain ⟨here, blank⟩ := Bool.and_eq_true_iff.1 blank
    rw [runWithin_cons_of_isBlank here, inside, next_of_isSingle (isSingle_of_isBlank here)]
    exact ih blank _

/-- A line comment is open, directly inside of the outermost bracket. -/
def note : Scan := ⟨.lineComment, false, 1⟩

/-- A blank leads into code from code, and from a line comment if it ends the line. -/
theorem of_next_of_isBlank {a : Char} (sound : σ.Sound (a :: rest)) (blank : isBlank a = true)
    (h : σ.next before a rest = inside ∨ σ.next before a rest = note) : σ = inside ∨ σ = note := by
  have slash : a ≠ '/' := ne_of_isBlank blank rfl
  obtain ⟨context, taken, depth⟩ := σ
  cases taken with
  | true =>
    have code : context ≠ .code := fun e => slash (Option.some.inj (sound.slash e rfl))
    have line : context ≠ .lineComment := fun e => Bool.noConfusion (sound.line e)
    rcases h with h | h
    · exact absurd (Scan.mk.inj h).1 code
    · exact absurd (Scan.mk.inj h).1 line
  | false =>
    have single := isSingle_of_isBlank blank
    simp only [isSingle, Bool.and_eq_true, Bool.not_eq_true'] at single
    obtain ⟨⟨⟨⟨noQuote, -⟩, noOpening⟩, noClosing⟩, -⟩ := single
    have quote (q : Char) (e : context = .quoted q) : a ≠ q := by
      rintro rfl
      rw [sound.quote a e] at noQuote
      cases noQuote
    have square : a ≠ ']' := ne_of_isBlank blank rfl
    have star : a ≠ '*' := ne_of_isBlank blank rfl
    have depth : depthAfter depth a = depth := by simp [depthAfter, noOpening, noClosing]
    cases context <;> grind [next, Context.step, inside, note]

theorem sound_of_runWithin (sound : σ.Sound (piece ++ rest))
    (h : σ.runWithin before piece rest = some τ) : τ.Sound rest :=
  run_of_runWithin h ▸ sound.run

/-- If blanks lead into code, the scan was in code in front of them or in a line comment. -/
theorem inside_or_note (blank : piece.all isBlank = true) (sound : σ.Sound (piece ++ rest))
    (h : σ.runWithin before piece rest = some inside) : σ = inside ∨ σ = note := by
  suffices h : ∀ τ, τ = inside ∨ τ = note → σ.runWithin before piece rest = some τ →
      σ = inside ∨ σ = note from h inside (Or.inl rfl) ‹_›
  clear h
  intro τ hτ h
  induction piece generalizing σ before with
  | nil =>
    obtain rfl := Option.some.inj h
    exact hτ
  | cons a piece ih =>
    obtain ⟨here, blank⟩ := Bool.and_eq_true_iff.1 blank
    rw [runWithin_cons_of_isBlank here] at h
    exact of_next_of_isBlank sound here (ih blank sound.next h)

/-- Behind a line break the scan is in code again. -/
theorem runWithin_newline (h : σ = inside ∨ σ = note) (before rest : Text) :
    σ.runWithin before ['\n'] rest = some inside := by
  rw [runWithin_cons_of_isBlank rfl]
  rcases h with rfl | rfl <;> rfl

/-! ### Layout -/

theorem taken_next_newline (σ : Scan) (before after : Text) :
    (σ.next before '\n' after).taken = false := by
  obtain ⟨context, taken, depth⟩ := σ
  cases taken <;> cases context <;> grind [next, Context.step]

/-- A space or a tab that belongs to no other character leaves the state as it is. -/
theorem next_of_isSpaceOrTab {a : Char} (gap : isSpaceOrTab a = true) (sound : σ.Sound rest)
    (free : σ.taken = false) (before after : Text) : σ.next before a after = σ := by
  have blank := isBlank_of_isSpaceOrTab gap
  have single := isSingle_of_isBlank blank
  simp only [isSingle, Bool.and_eq_true, Bool.not_eq_true', bne_iff_ne] at single
  obtain ⟨⟨⟨⟨noQuote, slash⟩, noOpening⟩, noClosing⟩, -⟩ := single
  have newline : a ≠ '\n' := by
    rintro rfl
    cases gap
  have backslash : a ≠ '\\' := ne_of_isBlank blank rfl
  have star : a ≠ '*' := ne_of_isBlank blank rfl
  have square : a ≠ ']' := ne_of_isBlank blank rfl
  have depth : depthAfter σ.depth a = σ.depth := by simp [depthAfter, noOpening, noClosing]
  obtain ⟨context, taken, d⟩ := σ
  obtain rfl : taken = false := free
  have quote (q : Char) (e : context = .quoted q) : a ≠ q := by
    rintro rfl
    rw [sound.quote a e] at noQuote
    cases noQuote
  cases context <;> grind [next, Context.step, isOpening]

end Scan

/-- **A text that is laid out otherwise is gone through alike**, behind texts that look alike and
before any closing bracket. -/
theorem Relaid.runWithin_eq {fresh : Bool} {x x' r r' before before' : Text} {σ : Scan}
    (h : Relaid fresh x x') (closes : ClosesNext r) (closes' : ClosesNext r')
    (alike : LooksAlike before before') (sound : σ.Sound (x ++ r))
    (line : fresh = true → σ.taken = false ∧ before.takeWhile isIdent = []) :
    σ.runWithin before x r = σ.runWithin before' x' r' := by
  induction h generalizing σ before before' with
  | nil => rfl
  | @cons fresh a x x' rest ih =>
    have step := rest.step_eq closes closes' σ.context before
    have step' := step_congr alike.operand σ.context a
    have next : σ.next before a (x ++ r) = σ.next before' a (x' ++ r') := by
      rw [Scan.next, step, step', Scan.next]
    have ends : σ.endsGroup before a (x ++ r) = σ.endsGroup before' a (x' ++ r') := by
      simp only [Scan.endsGroup, Scan.readsCode, step, step', isGroupEnd]
    rw [Scan.runWithin, Scan.runWithin, ends, next]
    split
    · rfl
    · rw [← next]
      refine ih (alike.cons a) sound.next fun newline => ?_
      obtain rfl := eq_of_beq newline
      exact ⟨Scan.taken_next_newline _ _ _, rfl⟩
  | @left a x x' gap rest ih =>
    obtain ⟨free, word⟩ := line rfl
    have blank := isBlank_of_isSpaceOrTab gap
    have ident := isIdent_eq_false_of_isBlank blank
    rw [Scan.runWithin_cons_of_isBlank blank, Scan.next_of_isSpaceOrTab gap sound free]
    refine ih ⟨?_, ?_⟩ (Scan.next_of_isSpaceOrTab gap sound free before (x ++ r) ▸ sound.next)
      fun _ => ⟨free, ?_⟩
    · rw [← alike.word, word, List.takeWhile_cons_of_neg (by simp [ident])]
    · rw [operandMayFollow_cons_of_isBlank blank, alike.operand]
    · rw [List.takeWhile_cons_of_neg (by simp [ident])]
  | @right a x x' gap rest ih =>
    obtain ⟨free, word⟩ := line rfl
    have blank := isBlank_of_isSpaceOrTab gap
    have ident := isIdent_eq_false_of_isBlank blank
    rw [Scan.runWithin_cons_of_isBlank blank, Scan.next_of_isSpaceOrTab gap sound free]
    refine ih ⟨?_, ?_⟩ sound fun _ => ⟨free, word⟩
    · rw [word, List.takeWhile_cons_of_neg (by simp [ident])]
    · rw [operandMayFollow_cons_of_isBlank blank, alike.operand]

/-! ## Groups -/

/-- From directly inside of the outermost bracket, the scan goes through a piece of text and is
directly inside of that bracket again, and the bracket that closes it follows. The text before the
piece is given in reverse and ends with the opening bracket. -/
def Fills (before piece rest : Text) : Prop :=
  (∃ c r, rest = c :: r ∧ isClosing c = true) ∧
    Scan.inside.runWithin before piece rest = some .inside

theorem EndsOpen.blank_append {w before : Text} (blank : w.all isBlank = true)
    (h : EndsOpen before) : EndsOpen (w ++ before) := by
  rwa [EndsOpen, List.dropWhile_append_of_pos (by simpa using blank)]

/-- **What fills a bracket can be laid out otherwise**, and the blanks at its ends can be left out:
at the end of it the scan is in code again, or in a line comment. -/
theorem Fills.exists_runWithin {w w' x x' r r' before before' : Text}
    (h : Fills before (w ++ (x ++ w')) r) (blank : w.all isBlank = true)
    (blank' : w'.all isBlank = true) (layout : Relaid true x x') (opens : EndsOpen before)
    (opens' : EndsOpen before') (closes' : ClosesNext r') :
    ∃ σ, (σ = .inside ∨ σ = .note) ∧ Scan.inside.runWithin before' x' r' = some σ := by
  obtain ⟨⟨c, s, rfl, closing⟩, h⟩ := h
  have closes := (ClosesNext.cons closing s).blank_append blank'
  rw [Scan.runWithin_append, Scan.runWithin_blank blank, Option.bind_some,
    Scan.runWithin_append] at h
  obtain ⟨σ, through, behind⟩ := Option.bind_eq_some_iff.1 h
  have sound : Scan.inside.Sound (x ++ (w' ++ c :: s)) := Scan.sound_code 1 _
  have opens : EndsOpen (w.reverse ++ before) :=
    opens.blank_append (by rwa [List.all_reverse])
  refine ⟨σ, Scan.inside_or_note blank' (Scan.sound_of_runWithin sound through) behind, ?_⟩
  rw [← through]
  exact (layout.runWithin_eq closes closes' (opens.looksAlike.trans opens'.looksAlike.symm) sound
    fun _ => ⟨rfl, opens.looksAlike.word⟩).symm

/-- **A group ends** behind the first closing bracket up to which its contents fill it. -/
theorem groupEnd_eq_ok_iff_fills {u s : Text} {a : Char} {e : Nat} (opening : a = '(' ∨ a = '{') :
    groupEnd (u ++ a :: s) u.length = .ok e ↔
      ∃ x r, s = x ++ r ∧ e = u.length + 1 + x.length + 1 ∧ Fills (a :: u.reverse) x r := by
  have first (r : Text) : Scan.outside.endsGroup u.reverse a r = false ∧
      Scan.outside.next u.reverse a r = .inside := by
    rcases opening with rfl | rfl <;> exact ⟨rfl, rfl⟩
  rw [groupEnd_eq_ok_iff, List.take_left, List.drop_left, Scan.end?_isGroupEnd_iff]
  constructor
  · rintro ⟨piece, c, r, split, rfl, closing, h⟩
    cases piece with
    | nil => cases Option.some.inj h
    | cons b x =>
      obtain ⟨rfl, rfl⟩ : a = b ∧ s = x ++ c :: r := List.cons.inj split
      rw [Scan.runWithin, (first _).1, (first _).2] at h
      refine ⟨x, c :: r, rfl, ?_, ⟨c, r, rfl, closing⟩, h⟩
      rw [List.length_cons]
      omega
  · rintro ⟨x, _, rfl, rfl, ⟨c, r, rfl, closing⟩, h⟩
    refine ⟨a :: x, c, r, rfl, ?_, closing, ?_⟩
    · rw [List.length_cons]
      omega
    · rw [Scan.runWithin, (first _).1, (first _).2]
      exact h

end Modulize.Script
