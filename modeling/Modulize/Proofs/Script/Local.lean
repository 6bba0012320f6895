import Modulize.Proofs.Script.TokenScan
import Modulize.Proofs.Text

/-!
# Scans are local

What a scan finds depends on little of the surroundings of what it reads.

* Behind the end it looks at nothing that the rule for ends does not ask for. A mark that ends a
  scan (`IsEndMark`) is a character that stops every look ahead of the machine (`IsStop`): over the
  blanks behind a slash (`looksLikeDivision_append`) and over the two characters behind a brace
  (`endsParagraph_append`). So each step before the mark is the same before any other text
  (`step_append`, `SightedTo`), and the scan comes to the mark there as well (`exists_of_end?`).
* Before its beginning it looks back for the operand that a slash may divide. Two texts that end in
  the same operand look alike to it (`LooksAlike`), also with the same text behind both of them
  (`LooksAlike.append`), so the scan of what follows is the same, moved (`end?_shift`). A text that
  ends in no operand (`EndsOpen`) is like no text.
-/

namespace Modulize.Script

/-! ## What lies ahead -/

/-- A character that no look ahead gets past: no blank, and neither an operand nor the parenthesis
before one. -/
structure IsStop (c : Char) : Prop where
  blank : isBlank c = false
  ident : isIdent c = false
  parenthesis : c ≠ '('

/-- A character that ends a scan. -/
def IsEndMark (c : Char) : Prop := c = ';' ∨ isClosing c = true

namespace IsEndMark

variable {c : Char}

theorem eq_of_isClosing (h : isClosing c = true) : c = ')' ∨ c = ']' ∨ c = '}' := by
  simpa [isClosing, or_assoc] using h

theorem isStop (h : IsEndMark c) : IsStop c := by
  rcases h with rfl | h
  · exact ⟨rfl, by decide, by decide⟩
  · rcases eq_of_isClosing h with rfl | rfl | rfl <;> exact ⟨rfl, by decide, by decide⟩

theorem not_mem (h : IsEndMark c) : c ∉ ['(', '/', '*', '\n'] := by
  rcases h with rfl | h
  · decide
  · rcases eq_of_isClosing h with rfl | rfl | rfl <;> decide

end IsEndMark

variable {c : Char}

/-- The look over the blanks behind a slash does not get past a stop. -/
theorem looksLikeDivision_append (stop : IsStop c) (piece r r' : Text) :
    looksLikeDivision (piece ++ c :: r) = looksLikeDivision (piece ++ c :: r') := by
  have blank := stop.blank
  have ident := stop.ident
  have parenthesis : (c == '(') = false := beq_false_of_ne stop.parenthesis
  cases piece with
  | nil => simp [looksLikeDivision, blank]
  | cons a piece =>
    have split (s : Text) : (piece ++ c :: s).dropWhile isBlank =
        piece.dropWhile isBlank ++ c :: s := by
      rw [List.dropWhile_append, List.dropWhile_cons_of_neg (by simp [blank])]
      split
      · rename_i empty
        rw [List.isEmpty_iff.1 empty, List.nil_append]
      · rfl
    simp only [looksLikeDivision, List.cons_append, split]
    -- the two characters behind the blanks are in the piece, or the stop is one of them
    rcases piece.dropWhile isBlank with _ | ⟨b, _ | ⟨d, rest⟩⟩
    · cases r <;> cases r' <;> simp [ident, parenthesis]
    · rfl
    · rfl

/-- The end of a paragraph is not looked for past a stop. -/
theorem endsParagraph_append (stop : IsStop c) (piece r r' : Text) :
    endsParagraph (piece ++ c :: r) = endsParagraph (piece ++ c :: r') := by
  have blank := stop.blank
  have newline : ('\n' == c) = false := beq_false_of_ne fun h => by
    rw [← h] at blank
    cases blank
  have inked (s : Text) : Text.allBlank (piece ++ c :: s) = false := by
    simp [Text.allBlank, blank]
  simp only [endsParagraph, inked, Bool.or_false]
  rcases piece with _ | ⟨a, _ | ⟨b, piece⟩⟩
  · simp [Text.startsWith, List.isPrefixOf, newline]
  · simp [Text.startsWith, List.isPrefixOf, newline]
  · simp [Text.startsWith, List.isPrefixOf]

/-- No step of the machine looks past a stop. -/
theorem step_append (stop : IsStop c) (ctx : Context) (before : Text) (a : Char)
    (piece r r' : Text) :
    ctx.step before a (piece ++ c :: r) = ctx.step before a (piece ++ c :: r') := by
  have head : (piece ++ c :: r).head? = (piece ++ c :: r').head? := by
    cases piece <;> rfl
  have opens : opensRegex before (piece ++ c :: r) = opensRegex before (piece ++ c :: r') := by
    rw [opensRegex, head, looksLikeDivision_append stop piece r r', opensRegex]
  cases ctx <;> simp only [Context.step, opens, head]

/-- At a mark the machine looks at nothing behind it. -/
theorem step_mark (mark : IsEndMark c) (ctx : Context) (before r r' : Text) :
    ctx.step before c r = ctx.step before c r' := by
  have slash : c ≠ '/' := fun h => mark.not_mem (by simp [h])
  have star : c ≠ '*' := fun h => mark.not_mem (by simp [h])
  cases ctx <;> simp [Context.step, slash, star]

/-- A rule for ends that does not look past a stop. -/
def SightedTo (ends : Int → Char → Text → Bool) : Prop :=
  ∀ c, IsStop c → ∀ (depth : Int) (a : Char) (piece r r' : Text),
    ends depth a (piece ++ c :: r) = ends depth a (piece ++ c :: r')

theorem sightedTo_isGroupEnd : SightedTo isGroupEnd := fun _ _ _ _ _ _ _ => rfl

theorem sightedTo_isStatementEnd : SightedTo isStatementEnd := by
  intro c stop depth a piece r r'
  simp only [isStatementEnd, endsParagraph_append stop piece r r']

namespace Scan

variable {ends : Int → Char → Text → Bool} {before rest : Text} {offset e : Nat}

/-- **A scan ends at a mark**, and comes to the same end before any other text that lets it end
there. -/
theorem exists_of_end? (rule : IsEndRule ends) (sighted : SightedTo ends) {σ : Scan}
    (h : σ.end? ends before offset rest = some e) :
    ∃ piece c r depth, rest = piece ++ c :: r ∧ e = offset + piece.length + 1 ∧
      ends depth c r = true ∧
      ∀ r', ends depth c r' = true → σ.end? ends before offset (piece ++ c :: r') = some e := by
  induction rest generalizing σ before offset with
  | nil => cases h
  | cons a rest ih =>
    rw [end?_cons] at h
    split at h
    · rename_i found
      obtain rfl := Option.some.inj h
      rw [Bool.and_eq_true] at found
      refine ⟨[], a, rest, σ.depth, rfl, rfl, found.2, fun r' ends' => ?_⟩
      have mark : IsEndMark a := (rule _ _ _ found.2).imp And.left And.left
      have code : σ.readsCode before a r' = true := by
        rw [readsCode, step_mark mark σ.context before r' rest]
        exact found.1
      rw [List.nil_append, end?_cons, code, ends']
      rfl
    · rename_i goesOn
      obtain ⟨piece, c, r, depth, rfl, rfl, last, same⟩ := ih h
      have mark : IsEndMark c := (rule _ _ _ last).imp And.left And.left
      refine ⟨a :: piece, c, r, depth, rfl, by rw [List.length_cons]; omega, last,
        fun r' ends' => ?_⟩
      have step := step_append mark.isStop σ.context before a piece r r'
      have found := same r' ends'
      rw [readsCode, step, sighted c mark.isStop σ.depth a piece r r'] at goesOn
      rw [next, step] at found
      rw [List.cons_append, end?_cons, readsCode, if_neg goesOn]
      exact found

end Scan

/-! ## What lies behind -/

/-- Two texts, given in reverse, that end in the same identifier, if any, and behind which an
operand may follow or not. -/
structure LooksAlike (before before' : Text) : Prop where
  word : before.takeWhile isIdent = before'.takeWhile isIdent
  operand : operandMayFollow before = operandMayFollow before'

theorem operandMayFollow_cons_of_isBlank {a : Char} (blank : isBlank a = true) (before : Text) :
    operandMayFollow (a :: before) = operandMayFollow before := by
  rw [operandMayFollow, List.dropWhile_cons_of_pos blank, operandMayFollow]

namespace LooksAlike

variable {before before' : Text}

theorem refl (before : Text) : LooksAlike before before := ⟨rfl, rfl⟩

theorem symm (h : LooksAlike before before') : LooksAlike before' before :=
  ⟨h.word.symm, h.operand.symm⟩

theorem trans {before'' : Text} (h : LooksAlike before before') (h' : LooksAlike before' before'') :
    LooksAlike before before'' := ⟨h.word.trans h'.word, h.operand.trans h'.operand⟩

/-- Only the identifier that two texts end in counts behind one more character that is no blank. -/
theorem of_word (word : before.takeWhile isIdent = before'.takeWhile isIdent) {a : Char}
    (blank : isBlank a = false) : LooksAlike (a :: before) (a :: before') := by
  have word : (a :: before).takeWhile isIdent = (a :: before').takeWhile isIdent := by
    rw [List.takeWhile_cons, List.takeWhile_cons, word]
  refine ⟨word, ?_⟩
  rw [operandMayFollow, operandMayFollow, List.dropWhile_cons_of_neg (by simp [blank]),
    List.dropWhile_cons_of_neg (by simp [blank])]
  simp only [word]

/-- With one more character behind both, two texts still look alike. -/
theorem cons (h : LooksAlike before before') (a : Char) :
    LooksAlike (a :: before) (a :: before') := by
  cases blank : isBlank a with
  | true =>
    have ident := isIdent_eq_false_of_isBlank blank
    refine ⟨by simp [ident], ?_⟩
    rw [operandMayFollow_cons_of_isBlank blank, operandMayFollow_cons_of_isBlank blank, h.operand]
  | false => exact of_word h.word blank

theorem append (h : LooksAlike before before') (near : Text) :
    LooksAlike (near ++ before) (near ++ before') := by
  induction near with
  | nil => exact h
  | cons a near ih => exact ih.cons a

end LooksAlike

/-- All that a step asks of the text before it is whether an operand may follow. -/
theorem step_congr {before before' : Text}
    (operand : operandMayFollow before = operandMayFollow before') (ctx : Context) (c : Char)
    (after : Text) : ctx.step before c after = ctx.step before' c after := by
  have opens : opensRegex before after = opensRegex before' after := by
    rw [opensRegex, operand, opensRegex]
  cases ctx <;> simp only [Context.step, opens]

/-- A text, given in reverse, whose last character that is no blank is no operand and closes
none. -/
def EndsOpen (before : Text) : Prop :=
  ∀ c ∈ (before.dropWhile isBlank).head?, c ≠ ')' ∧ c ≠ ']' ∧ isIdent c = false

/-- A text that ends in no operand is like no text. -/
theorem EndsOpen.looksAlike {before : Text} (h : EndsOpen before) : LooksAlike before [] := by
  constructor
  · cases before with
    | nil => rfl
    | cons a before =>
      have ident : isIdent a = false := by
        cases blank : isBlank a with
        | true => exact isIdent_eq_false_of_isBlank blank
        | false => exact (h a (by simp [blank])).2.2
      simp [ident]
  · rw [operandMayFollow]
    cases hb : before.dropWhile isBlank with
    | nil => rfl
    | cons c r =>
      obtain ⟨round, square, ident⟩ := h c (by rw [hb]; rfl)
      simp [round, square, ident, operandMayFollow]

/-- The machine takes the same steps over a text behind the one and behind the other. -/
def SameSteps (before before' rest : Text) : Prop :=
  ∀ x a y, rest = x ++ a :: y → ∀ ctx : Context,
    ctx.step (x.reverse ++ before) a y = ctx.step (x.reverse ++ before') a y

theorem LooksAlike.sameSteps {before before' : Text} (h : LooksAlike before before')
    (rest : Text) : SameSteps before before' rest :=
  fun x a y _ ctx => step_congr (h.append x.reverse).operand ctx a y

theorem SameSteps.cons {before before' rest : Text} {c : Char}
    (h : SameSteps before before' (c :: rest)) : SameSteps (c :: before) (c :: before') rest :=
  fun x a y e ctx => by simpa using h (c :: x) a y (by simp [e]) ctx

/-- Behind one of two texts there are the same code characters as behind the other. -/
theorem codeCharsFrom_congr {before before' rest : Text} (h : SameSteps before before' rest)
    (ctx : Context) (taken : Bool) (offset : Nat) :
    codeCharsFrom ctx taken before offset rest = codeCharsFrom ctx taken before' offset rest := by
  induction rest generalizing ctx taken before before' offset with
  | nil => cases taken <;> rfl
  | cons c rest ih =>
    have step : ctx.step before c rest = ctx.step before' c rest := h [] c rest rfl ctx
    cases taken with
    | true => exact ih h.cons ctx false (offset + 1)
    | false => simp only [codeCharsFrom, step, ih h.cons]

/-- A code character further on in a text. -/
def CodeChar.move (k : Nat) (c : CodeChar) : CodeChar := { c with offset := k + c.offset }

theorem codeCharsFrom_move (ctx : Context) (taken : Bool) (before : Text) (k offset : Nat)
    (rest : Text) :
    codeCharsFrom ctx taken before (k + offset) rest =
      (codeCharsFrom ctx taken before offset rest).map (CodeChar.move k) := by
  fun_induction codeCharsFrom ctx taken before offset rest with
  | case1 => simp [codeCharsFrom]
  | case2 ctx before offset c rest ih => exact ih
  | case3 ctx before offset c rest s later code ih =>
    rw [codeCharsFrom, if_pos code, List.map_cons]
    exact congrArg _ ih
  | case4 ctx before offset c rest s later code ih =>
    rw [codeCharsFrom, if_neg code]
    exact ih

theorem endAmong_map_move (ends : Int → Char → Text → Bool) (depth : Int) (k : Nat)
    (cs : List CodeChar) :
    endAmong ends depth (cs.map (CodeChar.move k)) = (endAmong ends depth cs).map (k + ·) := by
  induction cs generalizing depth with
  | nil => rfl
  | cons c cs ih =>
    simp only [List.map_cons, endAmong, CodeChar.move]
    split
    · rfl
    · exact ih _

/-- **A scan behind one of two texts that look alike** is the scan behind the other one, moved. -/
theorem Scan.end?_shift {before before' : Text} (h : LooksAlike before before')
    (ends : Int → Char → Text → Bool) (σ : Scan) (k offset : Nat) (rest : Text) :
    σ.end? ends before (k + offset) rest = (σ.end? ends before' offset rest).map (k + ·) := by
  rw [end?, codeCharsFrom_congr (h.sameSteps rest), codeCharsFrom_move, endAmong_map_move, end?]

/-! ## Statements and groups -/

open Scan

theorem statementEnd_eq_ok_iff {t : Text} {start e : Nat} :
    statementEnd t start = .ok e ↔
      outside.end? isStatementEnd (t.take start).reverse start (t.drop start) = some e := by
  rw [statementEnd, statementEndAmong_eq_endAmong, codeChars, end?, outside]
  cases endAmong isStatementEnd 0 _ <;> simp

theorem groupEnd_eq_ok_iff {t : Text} {start e : Nat} :
    groupEnd t start = .ok e ↔
      outside.end? isGroupEnd (t.take start).reverse start (t.drop start) = some e := by
  rw [groupEnd, groupEndAmong_eq_endAmong, codeChars, end?, outside]
  cases endAmong isGroupEnd 0 _ <;> simp

/-- What a scan from a place of a text comes to is the same if the text goes on otherwise behind the
end. -/
theorem Scan.end?_take {ends : Int → Char → Text → Bool} (rule : IsEndRule ends)
    (sighted : SightedTo ends) {t : Text} {start e : Nat}
    (h : outside.end? ends (t.take start).reverse start (t.drop start) = some e) :
    ∃ c depth, t[e - 1]? = some c ∧ ends depth c (t.drop e) = true ∧
      ∀ s, ends depth c s = true →
        outside.end? ends ((t.take e ++ s).take start).reverse start ((t.take e ++ s).drop start) =
          some e := by
  obtain ⟨piece, c, r, depth, split, rfl, last, same⟩ := exists_of_end? rule sighted h
  obtain ⟨front, length, rfl⟩ : ∃ front : Text, front.length = start ∧
      t = front ++ (piece ++ c :: r) := by
    refine ⟨t.take start, ?_, by rw [← split, List.take_append_drop]⟩
    have := congrArg List.length split
    simp only [List.length_drop, List.length_append, List.length_cons] at this
    rw [List.length_take]
    omega
  subst length
  have cut : front ++ (piece ++ c :: r) = (front ++ piece ++ [c]) ++ r := by simp
  have place : front.length + piece.length + 1 = (front ++ piece ++ [c]).length := by
    simp [Nat.add_assoc]
  refine ⟨c, depth, ?_, ?_, fun s ends' => ?_⟩
  · rw [Nat.add_sub_cancel, ← List.append_assoc, ← List.length_append,
      List.getElem?_append_right (Nat.le_refl _), Nat.sub_self]
    rfl
  · rwa [cut, place, List.drop_left]
  · have found := same s ends'
    rw [List.take_left] at found
    rw [cut, place, List.take_left, ← place]
    simpa using found

/-- Without what stands before it, a scan comes to the same end. -/
theorem Scan.end?_drop (ends : Int → Char → Text → Bool) {p : Text} (h : EndsOpen p.reverse)
    (t : Text) :
    outside.end? ends ((p ++ t).take p.length).reverse p.length ((p ++ t).drop p.length) =
      (outside.end? ends (t.take 0).reverse 0 (t.drop 0)).map (p.length + ·) := by
  rw [List.take_left, List.drop_left]
  exact end?_shift h.looksAlike ends outside p.length 0 t

/-- **Scans are local.**
* What stands behind a semicolon at which a statement ends has no part in that; behind a brace it
  has a part only as far as it begins with an empty line or is blank.
* What stands behind the end of a bracket group has no part in it.
* A text that ends in no operand, blanks aside, can be taken off or put before any place from which
  a scan begins. -/
theorem statementEnd_and_groupEnd_local :
    (∀ (t : Text) (start e : Nat), statementEnd t start = .ok e → ∀ s : Text,
      (t[e - 1]? = some ';' → statementEnd (t.take e ++ s) start = .ok e) ∧
      (t[e - 1]? = some '}' → endsParagraph s = true →
        statementEnd (t.take e ++ s) start = .ok e)) ∧
    (∀ (t : Text) (start e : Nat), groupEnd t start = .ok e → ∀ s : Text,
      groupEnd (t.take e ++ s) start = .ok e) ∧
    (∀ p : Text, (∀ c ∈ (p.reverse.dropWhile isBlank).head?,
        c ≠ ')' ∧ c ≠ ']' ∧ c ≠ '$' ∧ c ≠ '_' ∧ isAlnum c = false) → ∀ (t : Text) (e : Nat),
      (statementEnd (p ++ t) p.length = .ok e ↔
        ∃ e', statementEnd t 0 = .ok e' ∧ e = p.length + e') ∧
      (groupEnd (p ++ t) p.length = .ok e ↔ ∃ e', groupEnd t 0 = .ok e' ∧ e = p.length + e')) := by
  refine ⟨fun t start e h s => ?_, fun t start e h s => ?_, fun p hp t e => ?_⟩
  · obtain ⟨c, depth, place, last, same⟩ := end?_take isEndRule_isStatementEnd
      sightedTo_isStatementEnd (statementEnd_eq_ok_iff.1 h)
    refine ⟨fun semicolon => ?_, fun brace paragraph => ?_⟩
    · obtain rfl := Option.some.inj (place.symm.trans semicolon)
      exact statementEnd_eq_ok_iff.2 (same s last)
    · obtain rfl := Option.some.inj (place.symm.trans brace)
      obtain ⟨rfl, -⟩ : depth = 1 ∧ endsParagraph (t.drop e) = true := by
        simpa [isStatementEnd] using last
      exact statementEnd_eq_ok_iff.2 (same s (by simp [isStatementEnd, paragraph]))
  · obtain ⟨c, depth, -, last, same⟩ := end?_take isEndRule_isGroupEnd sightedTo_isGroupEnd
      (groupEnd_eq_ok_iff.1 h)
    exact groupEnd_eq_ok_iff.2 (same s last)
  · have open_ : EndsOpen p.reverse := by
      intro c hc
      obtain ⟨round, square, dollar, underscore, alnum⟩ := hp c hc
      exact ⟨round, square, by simp [isIdent, isWord, alnum, underscore, dollar]⟩
    simp only [statementEnd_eq_ok_iff, groupEnd_eq_ok_iff, end?_drop _ open_,
      Option.map_eq_some_iff, @eq_comm _ e, and_self]

/-- The theorem where the scans look around: for an empty line, for an operand behind a slash, and
for one before it. -/
theorem statementEnd_and_groupEnd_local_sample :
    statementEnd "f = \x7b\x7d\n\ng" 0 = .ok 6 ∧ statementEnd "f = \x7b\x7d \n" 0 = .ok 6 ∧
      groupEnd "f(a / b) / c" 1 = .ok 8 ∧ groupEnd "f(a / b)/;/" 1 = .ok 8 ∧
      statementEnd "/;/.test(a);" 0 = .ok 12 ∧
      statementEnd "f = \x7b\x7d /;/.test(a);" 7 = .ok 19 := by
  obtain ⟨cutStatement, cutGroup, behind⟩ := statementEnd_and_groupEnd_local
  have statement : statementEnd "f = \x7b\x7d\n\ng" 0 = .ok 6 := rfl
  have group : groupEnd "f(a / b) / c" 1 = .ok 8 := rfl
  have regex : statementEnd "/;/.test(a);" 0 = .ok 12 := rfl
  have brace : ∀ c ∈ ((("f = \x7b\x7d " : Text).reverse).dropWhile isBlank).head?,
      c ≠ ')' ∧ c ≠ ']' ∧ c ≠ '$' ∧ c ≠ '_' ∧ isAlnum c = false := by
    intro c hc
    obtain rfl : '\x7d' = c := Option.some.inj hc
    decide
  exact ⟨statement, (cutStatement _ 0 6 statement " \n").2 rfl rfl, group,
    cutGroup _ 1 8 group "/;/", regex, (behind _ brace "/;/.test(a);" 19).1.2 ⟨12, regex, rfl⟩⟩

end Modulize.Script
