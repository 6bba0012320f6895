import Modulize.Script.Extent

/-!
# Scans as runs of a machine

A scan for the end of a statement goes through a text character by character. Between two characters
it is in a state (`Scan`): the context of the machine, whether the next character belongs to the one
before it, and the number of open brackets. `Scan.next` is one step and `Scan.run` a run of them.

* The scan finds the first character at which a statement may end (`endsStatement`): it ends at such
  a character (`exists_of_statementEnd?`), and never later (`statementEnd?_le`).
* A semicolon or a brace behind which the scan is in code was read in code (`code_of_next`).
* The end of a bracket group lies behind a closing bracket (`exists_of_groupEnd`).
-/

namespace Modulize.Script

/-! ## Code characters of a text -/

theorem exists_of_mem_codeCharsFrom {ctx : Context} {taken : Bool} {before rest : Text}
    {offset : Nat} {c : CodeChar} (h : c ∈ codeCharsFrom ctx taken before offset rest) :
    ∃ piece, rest = piece ++ c.char :: c.rest ∧ c.offset = offset + piece.length := by
  fun_induction codeCharsFrom ctx taken before offset rest with
  | case1 => simp at h
  | case2 ctx before offset a r ih =>
    obtain ⟨piece, rfl, e⟩ := ih h
    refine ⟨a :: piece, rfl, ?_⟩
    rw [e, List.length_cons]
    omega
  | case3 ctx before offset a r s later hs ih =>
    rcases List.mem_cons.1 h with rfl | h
    · exact ⟨[], rfl, rfl⟩
    · obtain ⟨piece, rfl, e⟩ := ih h
      refine ⟨a :: piece, rfl, ?_⟩
      rw [e, List.length_cons]
      omega
  | case4 ctx before offset a r s later hs ih =>
    obtain ⟨piece, rfl, e⟩ := ih h
    refine ⟨a :: piece, rfl, ?_⟩
    rw [e, List.length_cons]
    omega

theorem exists_of_groupEndAmong {depth : Int} {cs : List CodeChar} {e : Nat}
    (h : groupEndAmong depth cs = some e) :
    ∃ c ∈ cs, isClosing c.char = true ∧ e = c.offset + 1 := by
  fun_induction groupEndAmong depth cs with
  | case1 => cases h
  | case2 depth c cs _ ih =>
    obtain ⟨d, hd, hc⟩ := ih h
    exact ⟨d, List.mem_cons_of_mem _ hd, hc⟩
  | case3 c cs _ hc => exact ⟨c, List.mem_cons_self, hc, (Option.some.inj h).symm⟩
  | case4 depth c cs _ _ _ ih =>
    obtain ⟨d, hd, hc⟩ := ih h
    exact ⟨d, List.mem_cons_of_mem _ hd, hc⟩
  | case5 depth c cs _ _ ih =>
    obtain ⟨d, hd, hc⟩ := ih h
    exact ⟨d, List.mem_cons_of_mem _ hd, hc⟩

/-- A bracket group ends behind a closing bracket. -/
theorem exists_of_groupEnd {t : Text} {start e : Nat} (h : groupEnd t start = .ok e) :
    ∃ x c r, t = x ++ c :: r ∧ isClosing c = true ∧ e = x.length + 1 := by
  unfold groupEnd at h
  split at h
  · rename_i e' he
    obtain rfl := Except.ok.inj h
    obtain ⟨c, hc, closing, rfl⟩ := exists_of_groupEndAmong he
    obtain ⟨piece, split, offset⟩ := exists_of_mem_codeCharsFrom hc
    have hlen : start ≤ t.length := by
      have := congrArg List.length split
      simp only [List.length_drop, List.length_append, List.length_cons] at this
      omega
    refine ⟨t.take start ++ piece, c.char, c.rest, ?_, closing, ?_⟩
    · rw [List.append_assoc, ← split, List.take_append_drop]
    · rw [offset, List.length_append, List.length_take]
      omega
  · cases h

/-! ## Steps and runs -/

/-- The state of a scan between two characters: the context, whether the next character belongs to
the one before it, and the number of open brackets. -/
structure Scan where
  context : Context
  taken : Bool
  depth : Int
  deriving DecidableEq, Repr

/-- The number of open brackets behind a character of code. -/
def depthAfter (depth : Int) (c : Char) : Int :=
  if isOpening c then depth + 1 else if isClosing c then depth - 1 else depth

/-- A statement ends at a character of code, inside `depth` open brackets and before `rest`. -/
def isStatementEnd (depth : Int) (c : Char) (rest : Text) : Bool :=
  (c == ';' && depth == 0) || (c == '}' && depth == 1 && endsParagraph rest)

theorem statementEndAmong_cons (depth : Int) (c : CodeChar) (cs : List CodeChar) :
    statementEndAmong depth (c :: cs) =
      if isStatementEnd depth c.char c.rest then some (c.offset + 1)
      else statementEndAmong (depthAfter depth c.char) cs := by
  obtain ⟨offset, a, rest⟩ := c
  have semicolon : isOpening ';' = false ∧ isClosing ';' = false := by decide
  have brace : isOpening '}' = false ∧ isClosing '}' = true := by decide
  rw [statementEndAmong, isStatementEnd, depthAfter]
  by_cases hs : a = ';'
  · subst hs
    by_cases hd : depth = 0 <;> simp [hd, semicolon]
  · by_cases hb : a = '}'
    · subst hb
      by_cases hd : depth = 1 <;> simp [hd, brace]
    · cases isOpening a <;> cases isClosing a <;> simp [hs, hb]

/-- The first end among code characters, inside `depth` open brackets. -/
def endAmong (ends : Int → Char → Text → Bool) : Int → List CodeChar → Option Nat
  | _, [] => none
  | depth, c :: cs =>
    if ends depth c.char c.rest then some (c.offset + 1)
    else endAmong ends (depthAfter depth c.char) cs

theorem statementEndAmong_eq_endAmong (depth : Int) (cs : List CodeChar) :
    statementEndAmong depth cs = endAmong isStatementEnd depth cs := by
  induction cs generalizing depth with
  | nil => rfl
  | cons c cs ih => rw [statementEndAmong_cons, endAmong, ih]

namespace Scan

/-- The scan is in code, outside of all brackets. -/
def outside : Scan := ⟨.code, false, 0⟩

/-- The next character `c`, between `before` (in reverse) and `after`, is read as code. -/
def readsCode (σ : Scan) (before : Text) (c : Char) (after : Text) : Bool :=
  !σ.taken && (σ.context.step before c after).isCode

/-- The state behind the next character. -/
def next (σ : Scan) (before : Text) (c : Char) (after : Text) : Scan :=
  if σ.taken then ⟨σ.context, false, σ.depth⟩
  else
    let s := σ.context.step before c after
    ⟨s.context, s.takesNext, if s.isCode then depthAfter σ.depth c else σ.depth⟩

/-- A statement ends behind the next character. -/
def endsStatement (σ : Scan) (before : Text) (c : Char) (after : Text) : Bool :=
  σ.readsCode before c after && isStatementEnd σ.depth c after

/-- The state behind a piece of text, which stands between `before` (in reverse) and `rest`. -/
def run : Scan → Text → Text → Text → Scan
  | σ, _, [], _ => σ
  | σ, before, c :: piece, rest => run (σ.next before c (piece ++ rest)) (c :: before) piece rest

/-- The end that a scan comes to from a state on. -/
def end? (ends : Int → Char → Text → Bool) (σ : Scan) (before : Text) (offset : Nat)
    (rest : Text) : Option Nat :=
  endAmong ends σ.depth (codeCharsFrom σ.context σ.taken before offset rest)

/-- The end of the statement, searched for from a state on. -/
def statementEnd? (σ : Scan) (before : Text) (offset : Nat) (rest : Text) : Option Nat :=
  statementEndAmong σ.depth (codeCharsFrom σ.context σ.taken before offset rest)

variable {σ : Scan} {before piece rest : Text} {offset e : Nat}

theorem run_append (σ : Scan) (before p q rest : Text) :
    σ.run before (p ++ q) rest =
      (σ.run before p (q ++ rest)).run (p.reverse ++ before) q rest := by
  induction p generalizing σ before with
  | nil => rfl
  | cons c p ih => simp [run, ih]

theorem end?_cons (ends : Int → Char → Text → Bool) (σ : Scan) (before : Text) (offset : Nat)
    (c : Char) (rest : Text) :
    σ.end? ends before offset (c :: rest) =
      if σ.readsCode before c rest && ends σ.depth c rest then some (offset + 1)
      else (σ.next before c rest).end? ends (c :: before) (offset + 1) rest := by
  obtain ⟨context, taken, depth⟩ := σ
  cases taken with
  | true => rfl
  | false =>
    cases hc : (context.step before c rest).isCode with
    | true => simp [end?, readsCode, next, codeCharsFrom, hc, endAmong]
    | false => simp [end?, readsCode, next, codeCharsFrom, hc]

theorem statementEnd?_cons (σ : Scan) (before : Text) (offset : Nat) (c : Char) (rest : Text) :
    σ.statementEnd? before offset (c :: rest) =
      if σ.endsStatement before c rest then some (offset + 1)
      else (σ.next before c rest).statementEnd? (c :: before) (offset + 1) rest := by
  simp only [statementEnd?, statementEndAmong_eq_endAmong]
  exact end?_cons isStatementEnd σ before offset c rest

/-- A statement ends at a character where it may end. -/
theorem exists_of_statementEnd? (h : σ.statementEnd? before offset rest = some e) :
    ∃ piece c r, rest = piece ++ c :: r ∧ e = offset + piece.length + 1 ∧
      (σ.run before piece (c :: r)).endsStatement (piece.reverse ++ before) c r = true := by
  induction rest generalizing σ before offset with
  | nil => cases h
  | cons a rest ih =>
    rw [statementEnd?_cons] at h
    split at h
    · rename_i ha
      exact ⟨[], a, rest, rfl, (Option.some.inj h).symm, ha⟩
    · obtain ⟨piece, c, r, rfl, rfl, hc⟩ := ih h
      refine ⟨a :: piece, c, r, rfl, by rw [List.length_cons]; omega, ?_⟩
      simpa [run] using hc

/-- A statement does not go on behind a character where it may end. -/
theorem statementEnd?_le {c : Char}
    (h : (σ.run before piece (c :: rest)).endsStatement (piece.reverse ++ before) c rest = true)
    (he : σ.statementEnd? before offset (piece ++ c :: rest) = some e) :
    e ≤ offset + piece.length + 1 := by
  induction piece generalizing σ before offset with
  | nil =>
    have h : σ.endsStatement before c rest = true := h
    rw [List.nil_append, statementEnd?_cons, if_pos h] at he
    have := Option.some.inj he
    rw [List.length_nil]
    omega
  | cons a piece ih =>
    rw [List.cons_append, statementEnd?_cons] at he
    rw [List.length_cons]
    split at he
    · have := Option.some.inj he
      omega
    · have := ih (by simpa [run] using h) he
      omega

/-! ## States in code -/

/-- What holds of the states of a scan: in code, the only character that belongs to the one before
it is the slash that closes a comment; literals stand in quotes; and in a line comment no character
belongs to the one before it. -/
structure Sound (σ : Scan) (rest : Text) : Prop where
  slash : σ.context = .code → σ.taken = true → rest.head? = some '/'
  quote : ∀ q, σ.context = .quoted q → isQuote q = true
  line : σ.context = .lineComment → σ.taken = false

/-- In code nothing belongs to the character before it but the slash of a comment. -/
theorem sound_code (depth : Int) (rest : Text) : (⟨.code, false, depth⟩ : Scan).Sound rest :=
  ⟨fun _ h => absurd h Bool.false_ne_true, fun _ h => Context.noConfusion h, fun _ => rfl⟩

theorem sound_outside (rest : Text) : outside.Sound rest := sound_code 0 rest

theorem Sound.next {c : Char} (h : σ.Sound (c :: rest)) : (σ.next before c rest).Sound rest := by
  obtain ⟨context, taken, depth⟩ := σ
  cases taken with
  | true => exact ⟨fun _ h => absurd h Bool.false_ne_true, h.quote, fun _ => rfl⟩
  | false =>
    have hq := h.quote
    constructor
    · intro hc ht
      cases context <;> grind [Scan.next, Context.step]
    · intro q hc
      cases context <;> grind [Scan.next, Context.step]
    · intro hc
      cases context <;> grind [Scan.next, Context.step]

theorem Sound.run (h : σ.Sound (piece ++ rest)) : (σ.run before piece rest).Sound rest := by
  induction piece generalizing σ before with
  | nil => exact h
  | cons c piece ih => exact ih h.next

theorem step_code {before : Text} {c : Char} {after : Text} (hc : c = ';' ∨ c = '}') :
    Context.code.step before c after = ⟨.code, false, true⟩ := by
  rcases hc with rfl | rfl <;> rfl

/-- Only code ends a statement: a semicolon outside of all brackets, or the brace that closes the
outermost one. -/
theorem endsStatement_iff {c : Char} : σ.endsStatement before c rest = true ↔
    σ = outside ∧ c = ';' ∨ σ = ⟨.code, false, 1⟩ ∧ c = '}' ∧ endsParagraph rest = true := by
  obtain ⟨context, taken, depth⟩ := σ
  have code : (context.step before c rest).isCode = true → context = .code := by
    cases context <;> grind [Context.step]
  constructor
  · intro h
    simp only [endsStatement, readsCode, isStatementEnd, Bool.and_eq_true, Bool.not_eq_true',
      Bool.or_eq_true, beq_iff_eq] at h
    obtain ⟨⟨rfl, hcode⟩, h⟩ := h
    obtain rfl := code hcode
    rcases h with ⟨rfl, rfl⟩ | ⟨⟨rfl, rfl⟩, hp⟩
    · exact Or.inl ⟨rfl, rfl⟩
    · exact Or.inr ⟨rfl, rfl, hp⟩
  · rintro (⟨h, rfl⟩ | ⟨h, rfl, hp⟩)
    · obtain ⟨rfl, rfl, rfl⟩ := Scan.mk.inj h
      rfl
    · obtain ⟨rfl, rfl, rfl⟩ := Scan.mk.inj h
      simp [endsStatement, readsCode, step_code, isStatementEnd, hp]

/-- A semicolon or a closing brace behind which the scan is in code has been read in code. -/
theorem code_of_next {c : Char} {depth : Int} (sound : σ.Sound (c :: rest)) (hc : c = ';' ∨ c = '}')
    (h : σ.next before c rest = ⟨.code, false, depth⟩) :
    ∃ depth', σ = ⟨.code, false, depth'⟩ ∧ depth = depthAfter depth' c := by
  obtain ⟨context, taken, depth'⟩ := σ
  cases taken with
  | true =>
    obtain ⟨rfl, -, -⟩ := Scan.mk.inj h
    have slash : c = '/' := Option.some.inj (sound.slash rfl rfl)
    rcases hc with rfl | rfl <;> cases slash
  | false =>
    have hq := sound.quote
    have code : (context.step before c rest).context = .code → context = .code := by
      have semicolon : isQuote ';' = false := rfl
      have brace : isQuote '}' = false := rfl
      rcases hc with rfl | rfl <;> cases context <;> grind [Context.step]
    obtain ⟨hcontext, -, hdepth⟩ := Scan.mk.inj h
    obtain rfl := code hcontext
    rw [step_code hc] at hdepth
    exact ⟨depth', rfl, hdepth.symm⟩

/-! ## Statements that end at a place -/

/-- A statement ends with a semicolon or a brace. -/
theorem semicolon_or_brace (h : σ.statementEnd? before offset rest = some e) :
    ∃ piece c r, rest = piece ++ c :: r ∧ e = offset + piece.length + 1 ∧ (c = ';' ∨ c = '}') := by
  obtain ⟨piece, c, r, hr, he, hc⟩ := exists_of_statementEnd? h
  refine ⟨piece, c, r, hr, he, ?_⟩
  rcases endsStatement_iff.1 hc with ⟨-, hc⟩ | ⟨-, hc, -⟩
  · exact Or.inl hc
  · exact Or.inr hc

theorem exists_of_statementEnd?_append {c : Char}
    (h : σ.statementEnd? before offset (piece ++ c :: rest) = some (offset + piece.length + 1)) :
    (σ.run before piece (c :: rest)).endsStatement (piece.reverse ++ before) c rest = true := by
  obtain ⟨piece', c', r, hr, he, hc⟩ := exists_of_statementEnd? h
  have length : piece.length = piece'.length := by omega
  obtain ⟨rfl, htail⟩ := List.append_inj hr length
  obtain ⟨rfl, rfl⟩ := List.cons.inj htail
  exact hc

/-- Before a semicolon that ends the statement the scan is outside of all brackets. -/
theorem outside_of_end_semicolon
    (h : σ.statementEnd? before offset (piece ++ ';' :: rest) = some (offset + piece.length + 1)) :
    σ.run before piece (';' :: rest) = outside := by
  rcases endsStatement_iff.1 (exists_of_statementEnd?_append h) with ⟨h, -⟩ | ⟨-, h, -⟩
  · exact h
  · cases h

/-- A statement does not go on behind a semicolon outside of all brackets. -/
theorem le_of_outside_semicolon (h : σ.run before piece (';' :: rest) = outside)
    (he : σ.statementEnd? before offset (piece ++ ';' :: rest) = some e) :
    e ≤ offset + piece.length + 1 :=
  statementEnd?_le (endsStatement_iff.2 (Or.inl ⟨h, rfl⟩)) he

theorem run_concat (σ : Scan) (before piece : Text) (c : Char) (rest : Text) :
    σ.run before (piece ++ [c]) rest =
      (σ.run before piece (c :: rest)).next (piece.reverse ++ before) c rest := by
  rw [run_append]
  rfl

/-- Behind a brace that ends the statement the scan is outside of all brackets, at the end of a
paragraph. -/
theorem outside_of_end_brace (h : σ.statementEnd? before offset (piece ++ '}' :: rest) =
      some (offset + piece.length + 1)) :
    σ.run before (piece ++ ['}']) rest = outside ∧ endsParagraph rest = true := by
  rcases endsStatement_iff.1 (exists_of_statementEnd?_append h) with ⟨-, h⟩ | ⟨h, -, hp⟩
  · cases h
  · rw [run_concat, h]
    exact ⟨rfl, hp⟩

/-- A statement does not go on behind a brace that leads out of all brackets at the end of a
paragraph. -/
theorem le_of_outside_brace (sound : σ.Sound (piece ++ '}' :: rest))
    (h : σ.run before (piece ++ ['}']) rest = outside) (hp : endsParagraph rest = true)
    (he : σ.statementEnd? before offset (piece ++ '}' :: rest) = some e) :
    e ≤ offset + piece.length + 1 := by
  rw [run_concat] at h
  obtain ⟨depth, hσ, hdepth⟩ := code_of_next sound.run (Or.inr rfl) h
  have one : depth = 1 := by
    have brace : depthAfter depth '}' = depth - 1 := rfl
    omega
  subst one
  exact statementEnd?_le (endsStatement_iff.2 (Or.inr ⟨hσ, rfl, hp⟩)) he

/-- A statement does not end with two semicolons. -/
theorem not_end_semicolons (sound : σ.Sound (piece ++ ';' :: ';' :: rest)) :
    σ.statementEnd? before offset (piece ++ ';' :: ';' :: rest) ≠
      some (offset + piece.length + 2) := by
  intro h
  have last : σ.statementEnd? before offset ((piece ++ [';']) ++ ';' :: rest) =
      some (offset + (piece ++ [';']).length + 1) := by
    rw [List.length_append, List.append_assoc]
    exact h
  have out := outside_of_end_semicolon last
  rw [run_concat] at out
  obtain ⟨depth, hσ, hdepth⟩ := code_of_next sound.run (Or.inl rfl) out
  obtain rfl : 0 = depth := hdepth
  have := le_of_outside_semicolon hσ h
  omega

end Scan

end Modulize.Script
