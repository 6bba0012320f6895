import Modulize.Proofs.Declaration.Statement

/-!
# Reading header statements

Both header patterns begin at the beginning of a line, and end with blanks and an optional semicolon
(`ends_provideHeader`, `ends_requireHeader`). What they read in between are the calls of
`Modulize.Proofs.Declaration.Statement` (`records_provideFront`, `records_requireFront`).

Since a text begins with one such call at most, the preferred reading of a header pattern on a
statement with a semicolon is the whole statement, whatever follows it (`head?_ends_provide`,
`head?_ends_require`).
-/

namespace Modulize.Declaration

open Pattern Qualified

/-! ## The parts of the header patterns -/

/-- A quoted name in parentheses. -/
def argumentFront (i : Nat) : Pattern :=
  blanks ++ (one (· == '(') ++ (blanks ++ (one isNameQuote ++ (group i (run1 isDotted) ++
    (one isNameQuote ++ (blanks ++ one (· == ')')))))))

/-- A call of one of some keywords below the root; group `i` is the keyword and group `j` the
name. -/
def callFront (root : Text) (words : List Text) (i j : Nat) : Pattern :=
  spaced root ++ (dot ++ (group i (oneOf (words.map literal)) ++ argumentFront j))

/-- The declaration of what a require binds; group 1 is what it binds. -/
def binder : Pattern :=
  declarationWord ++ (blanks1 ++ (group 1 bindingTarget ++ (blanks ++ (one (· == '=') ++ blanks))))

/-- A provide up to its closing parenthesis. -/
def provideFront (root : Text) : Pattern := callFront root provideWords 1 2

/-- A require up to its closing parenthesis. -/
def requireFront (root : Text) : Pattern := optional binder ++ callFront root requireWords 2 3

/-- The end of a statement. -/
def statementTail : Pattern := blanks ++ optional (one (· == ';'))

theorem ends_optional (r : Pattern) :
    (optional r).ends = fun c => r.ends c ++ [c] := rfl

/-- The provide header at the beginning of a line. -/
theorem ends_provideHeader {root : Text} {c : Cursor} (h : AtBreak c.past) :
    (provideHeader root).ends c = (provideFront root ++ statementTail).ends c := by
  have parts : (provideHeader root).ends c =
      (lineStart.ends c).flatMap (provideFront root ++ statementTail).ends := by
    simp only [provideHeader, provideFront, callFront, quotedArgument, argumentFront, statementTail,
      ends_seq, List.flatMap_assoc]
    rfl
  rw [parts, ends_lineStart h, List.flatMap_singleton]

/-- The require header at the beginning of a line. -/
theorem ends_requireHeader {root : Text} {c : Cursor} (h : AtBreak c.past) :
    (requireHeader root).ends c = (requireFront root ++ statementTail).ends c := by
  have parts : (requireHeader root).ends c =
      (lineStart.ends c).flatMap (requireFront root ++ statementTail).ends := by
    simp only [requireHeader, requireFront, binder, callFront, quotedArgument, argumentFront,
      statementTail, ends_seq, ends_optional, List.flatMap_assoc]
    rfl
  rw [parts, ends_lineStart h, List.flatMap_singleton]

/-! ## What the parts read -/

theorem describes_char (a : Char) : (one (· == a)).Describes (· = [a]) :=
  (describes_one _).congr fun t => by simp

theorem describes_dot : dot.Describes IsGap := by
  refine (((describes_run isBlank).seq (describes_char '.')).seq (describes_run isBlank)).congr
    fun t => ⟨?_, ?_⟩
  · rintro ⟨_, b', ⟨b, _, hb, rfl, rfl⟩, hb', rfl⟩
    exact ⟨b, b', by simp, hb, hb'⟩
  · rintro ⟨b, b', rfl, hb, hb'⟩
    exact ⟨b ++ ['.'], b', ⟨b, ['.'], hb, rfl, rfl⟩, hb', by simp⟩

theorem describes_spaced (name : Text) : (spaced name).Describes (Spells (segments name)) :=
  describes_spacedSegments _

theorem describes_dottedName : (run1 isDotted).Describes IsDottedName := describes_run1_all isDotted

theorem describes_identifier : identifier.Describes IsIdentifier := describes_run1_all isIdent

theorem describes_bindingTarget : bindingTarget.Describes IsTarget := by
  have braces : (one (· == '{') ++ run (· != '}') ++ one (· == '}')).Describes
      fun t => ∃ inner, '}' ∉ inner ∧ t = '{' :: (inner ++ ['}']) := by
    refine (((describes_char '{').seq (describes_run (· != '}'))).seq (describes_char '}')).congr
      fun t => ⟨?_, ?_⟩
    · rintro ⟨_, _, ⟨_, inner, rfl, hi, rfl⟩, rfl, rfl⟩
      refine ⟨inner, fun h => ?_, by simp⟩
      simpa using List.all_eq_true.1 hi _ h
    · rintro ⟨inner, hi, rfl⟩
      refine ⟨'{' :: inner, ['}'], ⟨['{'], inner, rfl, ?_, rfl⟩, rfl, by simp⟩
      simp only [List.all_eq_true, bne_iff_ne]
      rintro a ha rfl
      exact hi ha
  exact describes_orElse braces describes_identifier

theorem records_argumentFront (i : Nat) :
    (argumentFront i).Records fun s notes => ∃ name, IsArgument name s ∧ notes = [(i, name)] := by
  have blanks := describes_run isBlank
  have quote := describes_one isNameQuote
  refine (blanks.seq_records ((describes_char '(').seq_records (blanks.seq_records
    (quote.seq_records ((describes_dottedName.group i).seq_describes (quote.seq (blanks.seq
      (describes_char ')')))))))).congr fun t notes => ⟨?_, ?_⟩
  · rintro ⟨b₁, _, hb₁, ⟨_, _, rfl, ⟨b₂, _, hb₂, ⟨_, _, ⟨q, hq, rfl⟩, ⟨name, _, ⟨hn, rfl⟩, ⟨_, _,
      ⟨q', hq', rfl⟩, ⟨b₃, _, hb₃, rfl, rfl⟩, rfl⟩, rfl⟩, rfl⟩, rfl⟩, rfl⟩, rfl⟩
    exact ⟨name, ⟨hn, b₁, b₂, b₃, q, q', hb₁, hb₂, hb₃, hq, hq', by simp⟩, rfl⟩
  · rintro ⟨name, ⟨hn, b₁, b₂, b₃, q, q', hb₁, hb₂, hb₃, hq, hq', rfl⟩, rfl⟩
    exact ⟨b₁, _, hb₁, ⟨['('], _, rfl, ⟨b₂, _, hb₂, ⟨[q], _, ⟨q, hq, rfl⟩, ⟨name, _, ⟨hn, rfl⟩,
      ⟨[q'], _, ⟨q', hq', rfl⟩, ⟨b₃, [')'], hb₃, rfl, rfl⟩, rfl⟩, rfl⟩, rfl⟩, rfl⟩, rfl⟩, by simp⟩

theorem records_callFront (root : Text) {words : List Text} (hw : words ≠ []) (i j : Nat) :
    (callFront root words i j).Records fun s notes =>
      ∃ keyword ∈ words, ∃ name, IsCall root keyword name s ∧
        notes = [(j, name), (i, keyword)] := by
  refine ((describes_spaced root).seq_records (describes_dot.seq_records
    (((describes_oneOf hw).group i).seq (records_argumentFront j)))).congr fun t notes => ⟨?_, ?_⟩
  · rintro ⟨path, _, hp, ⟨gap, _, hg, ⟨keyword, _, argument, _, ⟨hk, rfl⟩, ⟨name, ha, rfl⟩, rfl,
      rfl⟩, rfl⟩, rfl⟩
    exact ⟨keyword, hk, name, ⟨path, gap, argument, hp, hg, ha, rfl⟩, rfl⟩
  · rintro ⟨keyword, hk, name, ⟨path, gap, argument, hp, hg, ha, rfl⟩, rfl⟩
    exact ⟨path, _, hp, ⟨gap, _, hg, ⟨keyword, _, argument, _, ⟨hk, rfl⟩, ⟨name, ha, rfl⟩, rfl,
      rfl⟩, rfl⟩, rfl⟩

theorem records_binder :
    binder.Records fun s notes => ∃ target, IsBinder target s ∧ notes = [(1, target)] := by
  have blanks := describes_run isBlank
  have words : declarationWord.Describes (· ∈ declarationWords) :=
    describes_oneOf (by decide : declarationWords ≠ [])
  refine (words.seq_records ((describes_run1 isBlank).seq_records
    ((describes_bindingTarget.group 1).seq_describes (blanks.seq ((describes_char '=').seq
      blanks))))).congr fun t notes => ⟨?_, ?_⟩
  · rintro ⟨word, _, hw, ⟨_, _, ⟨a, b₁, ha, hb₁, rfl⟩, ⟨target, _, ⟨ht, rfl⟩, ⟨b₂, _, hb₂, ⟨_, b₃,
      rfl, hb₃, rfl⟩, rfl⟩, rfl⟩, rfl⟩, rfl⟩
    refine ⟨target, ⟨ht, word, a :: b₁, b₂, b₃, hw, by simp, ?_, hb₂, hb₃, by simp⟩, rfl⟩
    simp [ha, hb₁]
  · rintro ⟨target, ⟨ht, word, b₁, b₂, b₃, hw, hne, hb₁, hb₂, hb₃, rfl⟩, rfl⟩
    obtain ⟨a, b₁, rfl⟩ := List.exists_cons_of_ne_nil hne
    obtain ⟨ha, hb₁⟩ := Bool.and_eq_true_iff.1 hb₁
    exact ⟨word, _, hw, ⟨_, _, ⟨a, b₁, ha, hb₁, rfl⟩, ⟨target, _, ⟨ht, rfl⟩, ⟨b₂, _, hb₂, ⟨['='],
      b₃, rfl, hb₃, rfl⟩, rfl⟩, rfl⟩, rfl⟩, rfl⟩

/-- What the groups of a provide header remember. -/
def provideNotes (keyword name : Text) : List (Nat × Text) := [(2, name), (1, keyword)]

/-- What the groups of a require header remember. -/
def requireNotes (target : Option Text) (keyword name : Text) : List (Nat × Text) :=
  [(3, name), (2, keyword)] ++ (target.map fun t => (1, t)).toList

/-- **What a provide header reads** up to its closing parenthesis. -/
theorem records_provideFront (root : Text) :
    (provideFront root).Records fun s notes =>
      ∃ keyword name, IsProvide root keyword name s ∧ notes = provideNotes keyword name := by
  refine (records_callFront root (by decide) 1 2).congr fun t notes => ⟨?_, ?_⟩
  · rintro ⟨keyword, hk, name, hc, rfl⟩
    exact ⟨keyword, name, ⟨hk, hc⟩, rfl⟩
  · rintro ⟨keyword, name, ⟨hk, hc⟩, rfl⟩
    exact ⟨keyword, hk, name, hc, rfl⟩

/-- **What a require header reads** up to its closing parenthesis. -/
theorem records_requireFront (root : Text) :
    (requireFront root).Records fun s notes =>
      ∃ target keyword name, IsRequire root target keyword name s ∧
        notes = requireNotes target keyword name := by
  refine (records_binder.optional.seq (records_callFront root (by decide) 2 3)).congr
    fun t notes => ⟨?_, ?_⟩
  · rintro ⟨_, _, call, _, ⟨target, ho, rfl⟩ | ⟨rfl, rfl⟩, ⟨keyword, hk, name, hc, rfl⟩, rfl, rfl⟩
    · exact ⟨some target, keyword, name, ⟨_, call, ho, hk, hc, rfl⟩, rfl⟩
    · exact ⟨none, keyword, name, ⟨[], _, rfl, hk, hc, rfl⟩, rfl⟩
  · rintro ⟨target, keyword, name, ⟨opening, call, ho, hk, hc, rfl⟩, rfl⟩
    cases target with
    | none =>
      obtain rfl : opening = [] := ho
      exact ⟨[], [], call, _, Or.inr ⟨rfl, rfl⟩, ⟨keyword, hk, name, hc, rfl⟩, rfl, rfl⟩
    | some target =>
      exact ⟨opening, _, call, _, Or.inl ⟨target, ho, rfl⟩, ⟨keyword, hk, name, hc, rfl⟩, rfl, rfl⟩

/-- Blanks and a semicolon, or none. -/
def IsTail (tail : Text) : Prop :=
  ∃ b e, b.all isBlank = true ∧ (e = [] ∨ e = [';']) ∧ tail = b ++ e

theorem describes_statementTail : statementTail.Describes IsTail := by
  refine ((describes_run isBlank).seq
    (describes_orElse (describes_char ';') describes_nothing)).congr fun t => ⟨?_, ?_⟩
  · rintro ⟨b, e, hb, he, rfl⟩
    exact ⟨b, e, hb, he.symm, rfl⟩
  · rintro ⟨b, e, hb, he, rfl⟩
    exact ⟨b, e, hb, he.symm, rfl⟩

/-! ## Preferred readings -/

theorem head?_ends_statementTail {c : Cursor} {b rest : Text} (hb : b.all isBlank = true)
    (hc : c.rest = b ++ ';' :: rest) :
    (statementTail.ends c).head? = some (c.after (b ++ [';']) rest) := by
  have total (e : Cursor) : (optional (one (· == ';'))).ends e ≠ [] := by
    simp [ends_optional]
  have semicolon : ∀ a ∈ (';' :: rest : Text).head?, isBlank a = false := by
    rintro _ ⟨⟩
    decide
  rw [statementTail, head?_ends_seq total, blanks, head?_ends_run, hc,
    takeWhile_append_of_all hb semicolon, dropWhile_append_of_all hb semicolon]
  simp [ends_optional, ends, Cursor.after, Nat.add_assoc]

/-- The preferred reading of a statement: if a text begins with one such piece at most, it is the
piece with the blanks and the semicolon behind it. -/
theorem head?_ends_statement {front : Pattern} {P : Text → List (Nat × Text) → Prop}
    (records : front.Records P) {s b rest : Text} {notes : List (Nat × Text)} (hs : P s notes)
    (unique : ∀ s' notes' t t', P s' notes' → s ++ t = s' ++ t' → s = s' ∧ notes = notes')
    (hb : b.all isBlank = true) {c : Cursor} (hc : c.rest = s ++ (b ++ ';' :: rest)) :
    ∃ d, ((front ++ statementTail).ends c).head? = some d ∧ c.Reads (s ++ (b ++ [';'])) d ∧
      d.noted = notes ++ c.noted := by
  have total (e : Cursor) : statementTail.ends e ≠ [] := by
    intro none
    have stop : e ∈ statementTail.ends e := by
      refine mem_ends_seq.2 ⟨e, (describes_run isBlank e e).2 ⟨[], e.rest, rfl, rfl, rfl⟩, ?_⟩
      simp [ends_optional]
    simp [none] at stop
  obtain ⟨e, he, -, -⟩ := records.complete c s notes _ hs hc
  cases hfirst : (front.ends c).head? with
  | none => simp [List.head?_eq_none_iff.1 hfirst] at he
  | some e =>
    obtain ⟨s', notes', hs', reads, noted⟩ := records.sound c e (List.mem_of_mem_head? hfirst)
    obtain ⟨rfl, rfl⟩ := unique s' notes' _ _ hs' (hc.symm.trans reads.rest)
    have rest' : e.rest = b ++ ';' :: rest := reads.eq_of_rest hc rfl
    refine ⟨e.after (b ++ [';']) rest, ?_, reads.trans (Cursor.reads_after ?_), noted⟩
    · rw [head?_ends_seq total, hfirst]
      exact head?_ends_statementTail hb rest'
    · simpa using rest'

section

variable {root keyword name s b rest : Text} {c : Cursor}

/-- **The preferred reading of a provide header** with its semicolon. -/
theorem head?_ends_provide (hroot : IsNamespace root) (h : IsProvide root keyword name s)
    (hb : b.all isBlank = true) (start : AtBreak c.past) (hc : c.rest = s ++ (b ++ ';' :: rest)) :
    ∃ d, ((provideHeader root).ends c).head? = some d ∧ c.Reads (s ++ (b ++ [';'])) d ∧
      d.noted = provideNotes keyword name ++ c.noted := by
  rw [ends_provideHeader start]
  refine head?_ends_statement (records_provideFront root) ⟨keyword, name, h, rfl⟩ ?_ hb hc
  rintro s' _ t t' ⟨keyword', name', h', rfl⟩ e
  obtain ⟨rfl, rfl, rfl⟩ := h.2.unique hroot (isIdentifier_of_mem_provideWords _ h.1)
    (isIdentifier_of_mem_provideWords _ h'.1) h'.2 e
  exact ⟨rfl, rfl⟩

/-- **The preferred reading of a require header** with its semicolon. -/
theorem head?_ends_require {target : Option Text} (hroot : IsNamespace root)
    (h : IsRequire root target keyword name s) (hb : b.all isBlank = true)
    (start : AtBreak c.past) (hc : c.rest = s ++ (b ++ ';' :: rest)) :
    ∃ d, ((requireHeader root).ends c).head? = some d ∧ c.Reads (s ++ (b ++ [';'])) d ∧
      d.noted = requireNotes target keyword name ++ c.noted := by
  rw [ends_requireHeader start]
  refine head?_ends_statement (records_requireFront root) ⟨target, keyword, name, h, rfl⟩ ?_ hb hc
  rintro s' _ t t' ⟨target', keyword', name', h', rfl⟩ e
  obtain ⟨rfl, rfl, rfl, rfl⟩ := h.unique hroot h' e
  exact ⟨rfl, rfl⟩

end

end Modulize.Declaration
