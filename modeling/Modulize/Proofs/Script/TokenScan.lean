import Modulize.Proofs.Script.Tokens

/-!
# Scans of token trees

The scans for the end of a group and of a statement differ only in where they end (`isGroupEnd`,
`isStatementEnd`), and both end at the outermost brackets at the latest (`IsEndRule`). So one lemma
serves both of them: a scan passes through a tree of tokens and is then in the state in which it
came (`passes_tokens`, by induction on the tree, with `passes_literal` for its leaves).
`groupEnd_and_statementEnd_of_tokens` is what follows for groups and statements in any surroundings.
-/

namespace Modulize.Script

/-! ## Ends -/

/-- A group that is one of the outermost ends at this character of code. -/
def isGroupEnd (depth : Int) (c : Char) (_rest : Text) : Bool := isClosing c && depth == 1

/-- Scans end at most where no bracket is left open: at a semicolon outside of all brackets, or at a
bracket that closes the outermost one. -/
def IsEndRule (ends : Int → Char → Text → Bool) : Prop :=
  ∀ depth c rest, ends depth c rest = true →
    c = ';' ∧ depth ≤ 0 ∨ isClosing c = true ∧ depth ≤ 1

theorem isEndRule_isGroupEnd : IsEndRule isGroupEnd := by
  intro depth c rest h
  simp only [isGroupEnd, Bool.and_eq_true, beq_iff_eq] at h
  exact Or.inr ⟨h.1, Int.le_of_eq h.2⟩

theorem isEndRule_isStatementEnd : IsEndRule isStatementEnd := by
  intro depth c rest h
  simp only [isStatementEnd, Bool.or_eq_true, Bool.and_eq_true, beq_iff_eq] at h
  rcases h with ⟨rfl, hd⟩ | ⟨⟨rfl, hd⟩, -⟩
  · exact Or.inl ⟨rfl, Int.le_of_eq hd⟩
  · exact Or.inr ⟨rfl, Int.le_of_eq hd⟩

theorem groupEndAmong_eq_endAmong (depth : Int) (cs : List CodeChar) :
    groupEndAmong depth cs = endAmong isGroupEnd depth cs := by
  induction cs generalizing depth with
  | nil => rfl
  | cons c cs ih =>
    rw [groupEndAmong, endAmong, isGroupEnd, depthAfter]
    have exclusive : isOpening c.char = true → isClosing c.char = false := by
      simp only [isOpening, isClosing, Bool.or_eq_true, beq_iff_eq]
      rintro ((h | h) | h) <;> rw [h] <;> rfl
    cases hopen : isOpening c.char with
    | true => simp [exclusive hopen, ih]
    | false => cases isClosing c.char <;> simp [ih]

namespace Scan

/-- The scan goes through a piece of text from the state `σ` to the state `σ'`, and does not end on
the way. -/
def Passes (ends : Int → Char → Text → Bool) (σ σ' : Scan) (before piece rest : Text) : Prop :=
  ∀ offset, σ.end? ends before offset (piece ++ rest) =
    σ'.end? ends (piece.reverse ++ before) (offset + piece.length) rest

variable {ends : Int → Char → Text → Bool} {σ σ₁ σ' : Scan} {before piece more rest : Text}
  {c : Char} {offset : Nat} {d : Int}

theorem Passes.nil : Passes ends σ σ before [] rest := fun _ => rfl

theorem Passes.append (h : Passes ends σ σ₁ before piece (more ++ rest))
    (h' : Passes ends σ₁ σ' (piece.reverse ++ before) more rest) :
    Passes ends σ σ' before (piece ++ more) rest := by
  intro offset
  rw [List.append_assoc, h offset, h' (offset + piece.length), List.reverse_append,
    List.append_assoc, List.length_append, Nat.add_assoc]

theorem Passes.cons (h : (σ.readsCode before c (more ++ rest) && ends σ.depth c (more ++ rest)) =
      false) (next : σ.next before c (more ++ rest) = σ₁)
    (h' : Passes ends σ₁ σ' (c :: before) more rest) :
    Passes ends σ σ' before (c :: more) rest := by
  intro offset
  rw [List.cons_append, end?_cons, h, if_neg Bool.false_ne_true, next, h' (offset + 1),
    List.reverse_cons, List.append_assoc, List.length_cons, Nat.add_assoc, Nat.add_comm 1]
  rfl

/-- A scan does not end at a character that is no code. -/
theorem Passes.silent {context context' : Context} {taken' : Bool}
    (step : context.step before c (more ++ rest) = ⟨context', taken', false⟩)
    (h : Passes ends ⟨context', taken', d⟩ σ' (c :: before) more rest) :
    Passes ends ⟨context, false, d⟩ σ' before (c :: more) rest :=
  .cons (by simp [readsCode, step]) (by simp [next, step]) h

/-- A scan does not end at a character that belongs to the one before it. -/
theorem Passes.taken {context : Context}
    (h : Passes ends ⟨context, false, d⟩ σ' (c :: before) more rest) :
    Passes ends ⟨context, true, d⟩ σ' before (c :: more) rest :=
  .cons (by simp [readsCode]) (by simp [next]) h

/-- A scan passes a character of code at which it does not end. -/
theorem Passes.code (step : Context.code.step before c (more ++ rest) = ⟨.code, false, true⟩)
    (goesOn : ends d c (more ++ rest) = false)
    (h : Passes ends ⟨.code, false, depthAfter d c⟩ σ' (c :: before) more rest) :
    Passes ends ⟨.code, false, d⟩ σ' before (c :: more) rest :=
  .cons (by simp [goesOn]) (by simp [next, step]) h

/-! ## Literals -/

/-- The contexts in which a backslash takes the next character along, with the characters that mean
something there. -/
inductive Escaping : Context → List Char → Prop
  | quoted (quote : Char) : Escaping (.quoted quote) [quote]
  | regex : Escaping .regex ['/', '[']
  | regexClass : Escaping .regexClass [']']

theorem passes_pieces (ends : Int → Char → Text → Bool) (d : Int) {context : Context}
    {special : List Char} (escaping : Escaping context special) (ps : List (Piece special))
    (before rest : Text) :
    Passes ends ⟨context, false, d⟩ ⟨context, false, d⟩ before (piecesText ps) rest := by
  induction ps generalizing before with
  | nil => exact .nil
  | cons p ps ih =>
    cases p with
    | plain c unescaped ordinary =>
      refine .silent ?_ (ih (c :: before))
      cases escaping <;> simp_all [Context.step]
    | escaped c =>
      refine .silent ?_ (.taken (ih (c :: '\\' :: before)))
      cases escaping <;> rfl

theorem passes_regexPieces (ends : Int → Char → Text → Bool) (d : Int) (ps : List RegexPiece)
    (before rest : Text) :
    Passes ends ⟨.regex, false, d⟩ ⟨.regex, false, d⟩ before (regexText ps) rest := by
  induction ps generalizing before with
  | nil => exact .nil
  | cons p ps ih =>
    rw [regexText, List.flatMap_cons]
    cases p with
    | single p =>
      have one := passes_pieces ends d .regex [p] before (regexText ps ++ rest)
      rw [piecesText, List.flatMap_singleton] at one
      exact one.append (ih _)
    | charClass pieces =>
      have inside := passes_pieces ends d .regexClass pieces ('[' :: before)
        (']' :: (regexText ps ++ rest))
      have behind : Passes ends ⟨.regexClass, false, d⟩ ⟨.regex, false, d⟩
          ((piecesText pieces).reverse ++ '[' :: before) (']' :: regexText ps) rest :=
        .silent rfl (ih _)
      have all : Passes ends ⟨.regex, false, d⟩ ⟨.regex, false, d⟩ before
          ('[' :: (piecesText pieces ++ ']' :: regexText ps)) rest :=
        .silent rfl (inside.append behind)
      simpa [RegexPiece.text, regexText] using all

/-- No piece of a regular expression begins with a slash. -/
theorem ne_slash_of_regexText {ps : List RegexPiece} {c : Char} {r : Text}
    (h : regexText ps = c :: r) : c ≠ '/' := by
  rintro rfl
  cases ps with
  | nil => cases h
  | cons p ps =>
    cases p with
    | charClass => cases h
    | single p =>
      cases p with
      | escaped => cases h
      | plain c _ ordinary =>
        obtain ⟨rfl, -⟩ := List.cons.inj h
        exact ordinary List.mem_cons_self

theorem opensRegex_of_beginsRegex {body : Text} (begins : BeginsRegex body) (rest : Text)
    (operand : operandMayFollow before = true) : opensRegex before (body ++ rest) = true := by
  obtain ⟨c, r, rfl, equals, -, blank⟩ := begins
  simp [opensRegex, looksLikeDivision, operand, equals, blank]

theorem passes_lineComment {body : Text} (oneLine : '\n' ∉ body) (before rest : Text) :
    Passes ends ⟨.lineComment, false, d⟩ ⟨.code, false, d⟩ before (body ++ ['\n']) rest := by
  induction body generalizing before with
  | nil => exact .silent rfl .nil
  | cons c body ih =>
    obtain ⟨other, oneLine⟩ := not_or.1 (mt List.mem_cons.2 oneLine)
    exact .silent (by simp [Context.step, Ne.symm other]) (ih oneLine (c :: before))

theorem passes_blockComment {body : Text} (unclosed : ¬ ['*', '/'] <:+: body)
    (before rest : Text) :
    Passes ends ⟨.blockComment, false, d⟩ ⟨.code, false, d⟩ before (body ++ ['*', '/']) rest := by
  induction body generalizing before with
  | nil => exact .silent rfl (.taken .nil)
  | cons c body ih =>
    have later : ¬ ['*', '/'] <:+: body := fun h =>
      unclosed (h.trans (List.suffix_cons _ _).isInfix)
    rw [List.cons_append]
    refine .silent ?_ (ih later (c :: before))
    have open_ : ¬ (c = '*' ∧ ((body ++ ['*', '/']) ++ rest).head? = some '/') := by
      rintro ⟨rfl, slash⟩
      cases body with
      | nil => cases slash
      | cons a body =>
        obtain rfl := Option.some.inj slash
        exact unclosed ⟨[], body, rfl⟩
    simp only [Context.step, if_neg open_]

theorem ne_slash_of_isQuote {q : Char} (mark : isQuote q = true) : q ≠ '/' := by
  rintro rfl
  cases mark

theorem ne_backslash_of_isQuote {q : Char} (mark : isQuote q = true) : q ≠ '\\' := by
  rintro rfl
  cases mark

/-- **A scan passes a literal**, and is in code behind it. -/
theorem passes_literal (l : Literal)
    (operand : l.IsRegex → operandMayFollow before = true) (rest : Text) :
    Passes ends ⟨.code, false, d⟩ ⟨.code, false, d⟩ before l.text rest := by
  cases l with
  | quoted quote mark body =>
    have inside := passes_pieces ends d (.quoted quote) body (quote :: before) (quote :: rest)
    have closes : Passes ends ⟨.quoted quote, false, d⟩ ⟨.code, false, d⟩
        ((piecesText body).reverse ++ quote :: before) [quote] rest :=
      .silent (by simp [Context.step, ne_backslash_of_isQuote mark]) .nil
    refine .silent ?_ (inside.append closes)
    simp [Context.step, ne_slash_of_isQuote mark, mark]
  | lineComment body oneLine =>
    refine .silent rfl (.silent rfl ?_)
    exact passes_lineComment oneLine _ rest
  | blockComment body unclosed =>
    refine .silent rfl (.taken ?_)
    exact passes_blockComment unclosed _ rest
  | regex body begins =>
    have inside := passes_regexPieces ends d body ('/' :: before) ('/' :: rest)
    have closes : Passes ends ⟨.regex, false, d⟩ ⟨.code, false, d⟩
        ((regexText body).reverse ++ '/' :: before) ['/'] rest := .silent rfl .nil
    refine .silent ?_ (inside.append closes)
    have opens := opensRegex_of_beginsRegex begins (['/'] ++ rest) (operand trivial)
    obtain ⟨c, r, hbody, -, star, -⟩ := begins
    have slash := ne_slash_of_regexText hbody
    rw [hbody] at opens ⊢
    simp_all [Context.step]

end Scan

/-! ## Trees -/

namespace Tokens

open Scan

/-- No token of the row ends a scan, the brackets that close its groups included. -/
def Unended (ends : Int → Char → Text → Bool) : Int → Text → Tokens → Prop
  | _, _, done => True
  | d, rest, single _ _ next => next.Unended ends d rest
  | d, rest, semicolon next => ends d ';' (next.text ++ rest) = false ∧ next.Unended ends d rest
  | d, rest, literal _ next => next.Unended ends d rest
  | d, rest, group b inner next =>
    inner.Unended ends (d + 1) (b.closing :: (next.text ++ rest)) ∧
      ends (d + 1) b.closing (next.text ++ rest) = false ∧ next.Unended ends d rest

variable {ends : Int → Char → Text → Bool} {d : Int} {n : Neighbour} {before rest : Text}

/-- Inside of brackets no token ends a scan. -/
theorem unended_of_pos (rule : IsEndRule ends) (hd : 0 < d) (rest : Text) (ts : Tokens) :
    ts.Unended ends d rest := by
  induction ts generalizing d rest with
  | done => trivial
  | single c h next ih => exact ih hd rest
  | semicolon next ih =>
    refine ⟨Bool.eq_false_iff.2 fun h => ?_, ih hd rest⟩
    rcases rule _ _ _ h with ⟨-, h⟩ | ⟨h, -⟩
    · omega
    · cases h
  | literal l next ih => exact ih hd rest
  | group b inner next ihi ihn =>
    refine ⟨ihi (by omega) _, Bool.eq_false_iff.2 fun h => ?_, ihn hd rest⟩
    rcases rule _ _ _ h with ⟨h, -⟩ | ⟨-, h⟩
    · exact b.closing_ne_semicolon h
    · omega

/-- Tokens that do not break a statement do not end the scan for its end. -/
theorem unended_of_unbroken {ts : Tokens} (h : ts.Unbroken rest) :
    ts.Unended isStatementEnd 0 rest := by
  induction ts with
  | done => trivial
  | single c _ next ih => exact ih h
  | semicolon => exact h.elim
  | literal l next ih => exact ih h
  | group b inner next _ ih =>
    refine ⟨unended_of_pos isEndRule_isStatementEnd (by omega) _ _, ?_, ih h.2⟩
    by_cases curly : b = .curly
    · subst curly
      simp [isStatementEnd, h.1 rfl]
    · have brace := mt b.closing_eq_brace_iff.1 curly
      simp [isStatementEnd, brace]

/-- **A scan passes a tree of tokens**, none of which ends it, and is in the same state behind
them. -/
theorem passes_tokens (rule : IsEndRule ends) (ts : Tokens) (fits : n.Fits before)
    (proper : ts.Proper n) (goesOn : ts.Unended ends d rest) :
    Passes ends ⟨.code, false, d⟩ ⟨.code, false, d⟩ before ts.text rest := by
  -- only a semicolon or a closing bracket can end a scan
  have unmarked {c : Char} (d : Int) (semicolon : c ≠ ';') (closing : isClosing c = false)
      (after : Text) : ends d c after = false := by
    refine Bool.eq_false_iff.2 fun h => ?_
    rcases rule _ _ _ h with ⟨h, -⟩ | ⟨h, -⟩
    · exact semicolon h
    · rw [closing] at h
      cases h
  induction ts generalizing n before d rest with
  | done => exact .nil
  | single c h next ih =>
    simp only [isSingle, Bool.and_eq_true, Bool.not_eq_true', bne_iff_ne] at h
    obtain ⟨⟨⟨⟨quote, slash⟩, opening⟩, closing⟩, semicolon⟩ := h
    have same : depthAfter d c = d := by simp [depthAfter, opening, closing]
    refine .code (by simp [Context.step, slash, quote]) (unmarked d semicolon closing _) ?_
    rw [same]
    exact ih (fits.past c) proper goesOn
  | semicolon next ih =>
    exact .code rfl goesOn.1 (ih (Neighbour.fits_code rfl before) proper goesOn.2)
  | literal l next ih =>
    have operand (h : l.IsRegex) : operandMayFollow before = true :=
      Neighbour.operandMayFollow_of_admitsRegex fits (proper.1 h)
    exact (passes_literal l operand _).append (ih (n := .literal) trivial proper.2 goesOn)
  | group b inner next ihi ihn =>
    obtain ⟨inside, closes, behind⟩ := goesOn
    have first := ihi (Neighbour.fits_code b.isBlank_opening before) proper.1 inside
    have second := ihn (Neighbour.fits_code b.isBlank_closing (inner.text.reverse ++
      b.opening :: before)) proper.2 behind
    have closed : Passes ends ⟨.code, false, d + 1⟩ ⟨.code, false, d⟩
        (inner.text.reverse ++ b.opening :: before) (b.closing :: next.text) rest :=
      .code (b.step_closing _ _) closes (by rwa [b.depthAfter_closing])
    refine .code (b.step_opening _ _) (unmarked d b.opening_ne_semicolon b.isClosing_opening _) ?_
    rw [b.depthAfter_opening]
    exact first.append closed

end Tokens

/-! ## Groups and statements -/

open Scan Tokens

theorem groupEnd_of_end? {before t : Text} {e : Nat}
    (h : outside.end? isGroupEnd before.reverse before.length t = some e) :
    groupEnd (before ++ t) before.length = .ok e := by
  rw [end?, outside] at h
  rw [groupEnd, groupEndAmong_eq_endAmong, codeChars, List.take_left, List.drop_left, h]

theorem statementEnd_of_end? {before t : Text} {e : Nat}
    (h : outside.end? isStatementEnd before.reverse before.length t = some e) :
    statementEnd (before ++ t) before.length = .ok e := by
  rw [end?, outside] at h
  rw [statementEnd, statementEndAmong_eq_endAmong, codeChars, List.take_left, List.drop_left, h]

/-- A scan that stands before a group ends behind it, if it ends at the bracket that closes it. -/
theorem end?_group {ends : Int → Char → Text → Bool} (rule : IsEndRule ends) (b : Bracket)
    {inner : Tokens} (proper : inner.Proper (.code b.opening)) {after : Text}
    (closes : ends 1 b.closing after = true) (before : Text) (offset : Nat) :
    outside.end? ends before offset (b.opening :: (inner.text ++ b.closing :: after)) =
      some (offset + inner.text.length + 2) := by
  have goesOn := unended_of_pos rule Int.one_pos (b.closing :: after) inner
  have inside := passes_tokens rule inner (Neighbour.fits_code b.isBlank_opening before) proper
    goesOn
  have opens : ends 0 b.opening (inner.text ++ b.closing :: after) = false := by
    refine Bool.eq_false_iff.2 fun h => ?_
    rcases rule _ _ _ h with ⟨h, -⟩ | ⟨h, -⟩
    · exact b.opening_ne_semicolon h
    · rw [b.isClosing_opening] at h
      cases h
  have enters : Passes ends outside ⟨.code, false, 1⟩ before (b.opening :: inner.text)
      (b.closing :: after) :=
    .code (b.step_opening _ _) opens (by rwa [b.depthAfter_opening])
  have reached := enters offset
  rw [List.cons_append] at reached
  rw [reached, end?_cons, readsCode, b.step_closing, closes]
  exact congrArg some (by rw [List.length_cons]; omega)

/-- **Groups and statements** of well-formed tokens, in any surroundings.
* The end of a group is found behind the bracket that closes it.
* The end of a statement is found behind its semicolon, if the tokens before that do not break the
  statement.
* Or else it is found behind a brace at the end of a paragraph, if the tokens before the group of
  that brace do not break the statement. -/
theorem groupEnd_and_statementEnd_of_tokens (before after : Text) :
    (∀ (b : Bracket) (inner : Tokens), inner.Proper (.code b.opening) →
      groupEnd (before ++ (b.opening :: inner.text ++ [b.closing]) ++ after) before.length =
        .ok (before.length + (b.opening :: inner.text ++ [b.closing]).length)) ∧
    (∀ (n : Neighbour) (ts : Tokens), n.Fits before.reverse → ts.Proper n →
      (ts.Unbroken (';' :: after) →
        statementEnd (before ++ (ts.text ++ [';']) ++ after) before.length =
          .ok (before.length + (ts.text ++ [';']).length)) ∧
      ∀ inner : Tokens, inner.Proper (.code '{') →
        ts.Unbroken ('{' :: (inner.text ++ '}' :: after)) → endsParagraph after = true →
          statementEnd (before ++ (ts.text ++ '{' :: inner.text ++ ['}']) ++ after) before.length =
            .ok (before.length + (ts.text ++ '{' :: inner.text ++ ['}']).length)) := by
  refine ⟨fun b inner proper => ?_, fun n ts fits proper => ⟨fun unbroken => ?_,
    fun inner properInner unbroken paragraph => ?_⟩⟩
  · have closes : isGroupEnd 1 b.closing after = true := by
      simp [isGroupEnd, b.isClosing_closing]
    have found := end?_group isEndRule_isGroupEnd b proper closes before.reverse before.length
    rw [List.append_assoc]
    refine groupEnd_of_end? ?_
    simpa [Nat.add_assoc] using found
  · have passes := passes_tokens isEndRule_isStatementEnd ts fits proper
      (unended_of_unbroken unbroken) before.length
    have found : outside.end? isStatementEnd before.reverse before.length
        (ts.text ++ ';' :: after) = some (before.length + ts.text.length + 1) := by
      rw [outside, passes, end?_cons]
      rfl
    rw [List.append_assoc]
    refine statementEnd_of_end? ?_
    simpa [Nat.add_assoc] using found
  · have passes := passes_tokens isEndRule_isStatementEnd ts fits proper
      (unended_of_unbroken unbroken) before.length
    have closes : isStatementEnd 1 Bracket.curly.closing after = true := by
      simp [isStatementEnd, Bracket.closing, paragraph]
    have found := end?_group isEndRule_isStatementEnd .curly properInner closes
      (ts.text.reverse ++ before.reverse) (before.length + ts.text.length)
    rw [List.append_assoc]
    refine statementEnd_of_end? ?_
    simpa [outside, Nat.add_assoc, Bracket.opening, Bracket.closing] using passes.trans found

/-- The tokens of `a /*}*/: /[}/]/; '\'}'`. -/
def sampleTokens : Tokens :=
  .single 'a' (by decide) <| .single ' ' (by decide) <|
    .literal (.blockComment ['}'] (by decide)) <|
    .single ':' (by decide) <| .single ' ' (by decide) <|
    .literal (.regex [.charClass [.plain '}' (by decide) (by decide),
      .plain '/' (by decide) (by decide)]] ⟨'[', _, rfl, by decide, by decide, by decide⟩) <|
    .semicolon <| .single ' ' (by decide) <|
    .literal (.quoted '\'' (by decide) [.escaped '\'', .plain '}' (by decide) (by decide)]) .done

theorem proper_sampleTokens : sampleTokens.Proper (.code '{') :=
  ⟨False.elim, fun _ => ⟨by decide, by decide, by decide⟩, False.elim, trivial⟩

/-- The theorem for braces around these tokens, as a group and as the end of a statement. -/
theorem groupEnd_and_statementEnd_of_tokens_sample :
    groupEnd "f = \x7ba /*\x7d*/: /[\x7d/]/; '\\'\x7d'\x7d\n\nrest" 4 = .ok 28 ∧
      statementEnd "f = \x7ba /*\x7d*/: /[\x7d/]/; '\\'\x7d'\x7d\n\nrest" 0 = .ok 28 := by
  have group := (groupEnd_and_statementEnd_of_tokens "f = " "\n\nrest").1 .curly sampleTokens
    proper_sampleTokens
  let binding : Tokens := .single 'f' (by decide) <| .single ' ' (by decide) <|
    .single '=' (by decide) <| .single ' ' (by decide) .done
  have statement := ((groupEnd_and_statementEnd_of_tokens [] "\n\nrest").2 .nothing binding rfl
    trivial).2 sampleTokens proper_sampleTokens trivial rfl
  exact ⟨group, statement⟩

end Modulize.Script
