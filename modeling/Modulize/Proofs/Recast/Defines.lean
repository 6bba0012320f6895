import Modulize.Proofs.Pattern.Composed
import Modulize.Proofs.Pattern.Sweeps
import Modulize.Proofs.Recast.Localizing

/-!
# Defines that are assigned

A binding is put in front of the calls of defines that begin a line (`boundCalls`). Such a call is
no statement if it is assigned: an equals sign comes before it, with nothing but blanks between them
(`IsAssigned`). This happens exactly where an assignment breaks its line before the call
(`IsBroken`), unless it belongs to a declaration by `let` (`bindDefines_unassigned_iff`).

* The defines declared by `let` are bound first. This neither touches other broken assignments
  (`IsBroken.exists_constBound`) nor makes any (`IsBroken.exists_of_constBound`).
* Among the calls that are found then, the assigned ones are those of the broken assignments
  (`exists_assigned_iff`): no call that begins before covers one of them (`eq_nil_of_covers`).
-/

namespace Modulize.Recast

open Pattern Qualified Declaration

variable {root s t x y v past piece rest new : Text} {a : Char}

/-! ## What the patterns read -/

/-- The call of a define, up to its parenthesis. -/
def IsCall (root s : Text) : Prop :=
  ∃ path g b, Spells (segments root) path ∧ IsGap g ∧ b.all isBlank = true ∧
    s = path ++ (g ++ ("define" ++ (b ++ ['('])))

/-- The call of a define with the dotted name `n.m`, up to its first comma. -/
def IsNamedCall (root n m s : Text) : Prop :=
  ∃ call b q q' b', IsCall root call ∧ b.all isBlank = true ∧ isNameQuote q = true ∧
    IsDottedName n ∧ IsIdentifier m ∧ isNameQuote q' = true ∧ b'.all isBlank = true ∧
    s = call ++ (b ++ q :: (n ++ '.' :: (m ++ q' :: (b' ++ [',']))))

/-- What declares a name by `let`, up to the equals sign. -/
def IsLetHeader (name s : Text) : Prop :=
  ∃ b b', b ≠ [] ∧ b.all isBlank = true ∧ IsIdentifier name ∧ b'.all isBlank = true ∧
    s = "let" ++ (b ++ (name ++ b'))

theorem recordsAfter_letDefine (root : Text) : (letDefine root).RecordsAfter isIdent
    fun piece notes => ∃ header name b call, IsLetHeader name header ∧ b.all isBlank = true ∧
      IsCall root call ∧ piece = header ++ '=' :: (b ++ call) ∧ notes = [(1, name)] := by
  refine ((((((((describes_literal "let").records.after isIdent).seq_describes
    (describes_run1_all isBlank)).seq (describes_identifier.group 1)).seq_describes
    (describes_run isBlank)).seq_describes (describes_char '=')).seq_describes
    (describes_run isBlank)).seq_describes (describes_defineCall root)).congr
    fun piece notes => ⟨?_, ?_⟩
  · rintro ⟨_, call, ⟨_, b, ⟨_, _, ⟨_, b₂, ⟨_, _, name, _, ⟨_, b₁, ⟨rfl, rfl⟩, ⟨hne, hb₁⟩, rfl⟩,
      ⟨hname, rfl⟩, rfl, rfl⟩, hb₂, rfl⟩, rfl, rfl⟩, hb, rfl⟩, hcall, rfl⟩
    exact ⟨_, name, b, call, ⟨b₁, b₂, hne, hb₁, hname, hb₂, rfl⟩, hb, hcall, by simp, rfl⟩
  · rintro ⟨_, name, b, call, ⟨b₁, b₂, hne, hb₁, hname, hb₂, rfl⟩, hb, hcall, rfl, rfl⟩
    exact ⟨_, call, ⟨_, b, ⟨_, _, ⟨_, b₂, ⟨_, _, name, _, ⟨_, b₁, ⟨rfl, rfl⟩, ⟨hne, hb₁⟩, rfl⟩,
      ⟨hname, rfl⟩, rfl, rfl⟩, hb₂, rfl⟩, rfl, rfl⟩, hb, rfl⟩, hcall, by simp⟩

theorem describes_quote : (one fun c => c == '\'' || c == '"').Describes
    fun t => ∃ q, isNameQuote q = true ∧ t = [q] := describes_one isNameQuote

theorem records_dottedName : (group 3 (run1 (fun c => isIdent c || c == '.') ++ one (· == '.') ++
    group 4 identifier)).Records fun piece notes => ∃ n m, IsDottedName n ∧ IsIdentifier m ∧
      piece = n ++ '.' :: m ∧ notes = [(3, piece), (4, m)] := by
  refine (((describes_dottedName.seq (describes_char '.')).seq_records
    (describes_identifier.group 4)).group 3).congr fun piece notes => ⟨?_, ?_⟩
  · rintro ⟨_, ⟨_, m, ⟨n, _, hn, rfl, rfl⟩, ⟨hm, rfl⟩, rfl⟩, rfl⟩
    exact ⟨n, m, hn, hm, by simp, rfl⟩
  · rintro ⟨n, m, hn, hm, rfl, rfl⟩
    exact ⟨_, ⟨_, m, ⟨n, _, hn, rfl, rfl⟩, ⟨hm, rfl⟩, by simp⟩, rfl⟩

theorem records_namedCall (root : Text) : (defineCall root ++ blanks ++
    one (fun c => c == '\'' || c == '"') ++
    group 3 (run1 (fun c => isIdent c || c == '.') ++ one (· == '.') ++ group 4 identifier) ++
    one (fun c => c == '\'' || c == '"') ++ blanks ++ one (· == ',')).Records
      fun piece notes => ∃ n m, IsNamedCall root n m piece ∧
        notes = [(3, n ++ '.' :: m), (4, m)] := by
  refine ((((((describes_defineCall root).seq (describes_run isBlank)).seq
    describes_quote).seq_records records_dottedName).seq_describes describes_quote).seq_describes
    (describes_run isBlank)).seq_describes (describes_char ',') |>.congr fun piece notes => ⟨?_, ?_⟩
  · rintro ⟨_, _, ⟨_, b', ⟨_, _, ⟨_, _, ⟨_, _, ⟨call, b, hcall, hb, rfl⟩, ⟨q, hq, rfl⟩, rfl⟩,
      ⟨n, m, hn, hm, rfl, rfl⟩, rfl⟩, ⟨q', hq', rfl⟩, rfl⟩, hb', rfl⟩, rfl, rfl⟩
    exact ⟨n, m, ⟨call, b, q, q', b', hcall, hb, hq, hn, hm, hq', hb', by simp⟩, rfl⟩
  · rintro ⟨n, m, ⟨call, b, q, q', b', hcall, hb, hq, hn, hm, hq', hb', rfl⟩, rfl⟩
    exact ⟨_, _, ⟨_, b', ⟨_, _, ⟨_, _, ⟨_, _, ⟨call, b, hcall, hb, rfl⟩, ⟨q, hq, rfl⟩, rfl⟩,
      ⟨n, m, hn, hm, rfl, rfl⟩, rfl⟩, ⟨q', hq', rfl⟩, rfl⟩, hb', rfl⟩, rfl, by simp⟩

/-- At the beginning of a line, its indentation and the call of a define with a dotted name. -/
theorem exists_records_lineDefine (root : Text) : ∃ body : Pattern,
    (lineDefine root).ends = (lineStart ++ body).ends ∧
    body.Records fun piece notes => ∃ i n m call, i.all isSpaceOrTab = true ∧
      IsNamedCall root n m call ∧ piece = i ++ call ∧
      notes = [(2, call), (3, n ++ '.' :: m), (4, m), (1, i)] := by
  refine ⟨_, ends_assoc _ _ _, ((describes_run isSpaceOrTab).group 1).seq
    ((records_namedCall root).group 2) |>.congr fun piece notes => ⟨?_, ?_⟩⟩
  · rintro ⟨i, _, call, _, ⟨hi, rfl⟩, ⟨_, ⟨n, m, hcall, rfl⟩, rfl⟩, rfl, rfl⟩
    exact ⟨i, n, m, call, hi, hcall, rfl, rfl⟩
  · rintro ⟨i, n, m, call, hi, hcall, rfl, rfl⟩
    exact ⟨i, _, call, _, ⟨hi, rfl⟩, ⟨_, ⟨n, m, hcall, rfl⟩, rfl⟩, rfl, rfl⟩

theorem gives_lineDefine (root : Text) : (lineDefine root).Gives fun past piece _ =>
    AtBreak past ∧ ∃ i n m call, i.all isSpaceOrTab = true ∧ IsNamedCall root n m call ∧
      piece = i ++ call := by
  obtain ⟨body, same, records⟩ := exists_records_lineDefine root
  intro c d hd
  rw [same] at hd
  obtain ⟨_, notes, ⟨_, _, piece, _, ⟨starts, rfl, rfl⟩, ⟨i, n, m, call, hi, hcall, rfl, rfl⟩, rfl,
    rfl⟩, reads⟩ := gives_lineStart.seq records.gives c d hd
  exact ⟨_, _, ⟨starts, i, n, m, call, hi, hcall, rfl⟩, reads⟩

theorem ends_lineDefine_ne_nil {i n m call : Text} (starts : AtBreak past)
    (hi : i.all isSpaceOrTab = true) (hcall : IsNamedCall root n m call) (offset : Nat)
    (rest : Text) : (lineDefine root).ends ⟨past, offset, i ++ (call ++ rest), []⟩ ≠ [] := by
  obtain ⟨body, same, records⟩ := exists_records_lineDefine root
  obtain ⟨d, hd, -⟩ := records.complete ⟨past, offset, i ++ (call ++ rest), []⟩ (i ++ call) _ rest
    ⟨i, n, m, call, hi, hcall, rfl, rfl⟩ (by simp)
  rw [same]
  exact List.ne_nil_of_mem (mem_ends_seq.2 ⟨_, mem_ends_lineStart.2 ⟨starts, rfl⟩, hd⟩)

/-! ## The characters of a define -/

/-- A call consists of the spelling of a name, blanks and a parenthesis. -/
theorem IsCall.not_mem (h : IsCall root s) (hroot : IsNamespace root)
    (outside : (isIdent a || isBlank a || a == '.') = false) (paren : a ≠ '(') : a ∉ s := by
  obtain ⟨path, g, b, hpath, hg, hb, rfl⟩ := h
  have words : ∀ s ∈ segments root ++ [("define" : Text)], IsIdentifier s :=
    List.forall_mem_append.2 ⟨hroot, List.forall_mem_singleton.2 (by decide)⟩
  have spelled := hpath.concat (segments_ne_nil root) hg "define"
  have inPath := not_mem_of_all (spelled.all words) outside
  have inBlanks : a ∉ b := not_mem_of_all hb (by simp_all)
  simpa [inBlanks, paren, ← List.append_assoc] using inPath

theorem IsCall.exists_cons (h : IsCall root s) (hroot : IsNamespace root) :
    ∃ a r, s = a :: r ∧ isIdent a = true := by
  obtain ⟨path, g, b, hpath, hg, hb, rfl⟩ := h
  obtain ⟨a, r, rfl, ha⟩ := hpath.exists_cons (segments_ne_nil root) hroot
  exact ⟨a, _, rfl, ha⟩

theorem IsNamedCall.exists_cons {n m : Text} (h : IsNamedCall root n m s)
    (hroot : IsNamespace root) : ∃ a r, s = a :: r ∧ isIdent a = true := by
  obtain ⟨call, b, q, q', b', hcall, -, -, -, -, -, -, rfl⟩ := h
  obtain ⟨a, r, rfl, ha⟩ := hcall.exists_cons hroot
  exact ⟨a, _, rfl, ha⟩

theorem IsNamedCall.equals_not_mem {n m : Text} (h : IsNamedCall root n m s)
    (hroot : IsNamespace root) : '=' ∉ s := by
  obtain ⟨call, b, q, q', b', hcall, hb, hq, hn, hm, hq', hb', rfl⟩ := h
  have inCall : '=' ∉ call := hcall.not_mem hroot (by decide) (by decide)
  have inBlanks {b : Text} (hb : b.all isBlank = true) : '=' ∉ b := not_mem_of_all hb (by decide)
  have noQuote {q : Char} (hq : isNameQuote q = true) : '=' ≠ q := by
    rintro rfl
    exact absurd hq (by decide)
  simp [inCall, inBlanks hb, inBlanks hb', noQuote hq, noQuote hq', not_mem_of_all hn.2,
    not_mem_of_all hm.2, show isDotted '=' = false by decide, show isIdent '=' = false by decide]

theorem IsLetHeader.not_mem {name : Text} (h : IsLetHeader name s)
    (outside : (isIdent a || isBlank a) = false) : a ∉ s := by
  obtain ⟨b, b', -, hb, hname, hb', rfl⟩ := h
  obtain ⟨word, blank⟩ := Bool.or_eq_false_iff.1 outside
  have inLet : a ∉ ("let" : Text) := not_mem_of_all (p := isIdent) (by decide) word
  simp only [List.mem_append, not_or]
  exact ⟨inLet, not_mem_of_all hb blank, not_mem_of_all hname.2 word, not_mem_of_all hb' blank⟩

/-! ## Assignments that break their line -/

/-- An equals sign and the call of a define with a dotted name at the beginning of a later line,
with nothing but blanks between them. -/
def IsBroken (root v : Text) : Prop :=
  ∃ w i n m call, w.all isBlank = true ∧ i.all isSpaceOrTab = true ∧ IsNamedCall root n m call ∧
    v = '=' :: (w ++ '\n' :: (i ++ call))

/-- The text ends with what declares a name by `let`, up to the equals sign. -/
def EndsInLet (x : Text) : Prop :=
  ∃ p header name, x = p ++ header ∧ (∀ a ∈ p.getLast?, isIdent a = false) ∧
    IsLetHeader name header

namespace IsBroken

theorem exists_equals (h : IsBroken root v) (hroot : IsNamespace root) :
    ∃ u, v = '=' :: u ∧ '=' ∉ u := by
  obtain ⟨w, i, n, m, call, hw, hi, hcall, rfl⟩ := h
  refine ⟨_, rfl, ?_⟩
  simp [not_mem_of_all hw (a := '=') (by decide), not_mem_of_all hi (a := '=') (by decide),
    hcall.equals_not_mem hroot]

theorem ne_nil (h : IsBroken root v) : v ≠ [] := by
  obtain ⟨w, i, n, m, call, -, -, -, rfl⟩ := h
  simp

/-- It ends with a comma. -/
theorem comma_mem (h : IsBroken root v) {q : Text} (ends : q <:+ v) (hq : q ≠ []) : ',' ∈ q := by
  obtain ⟨w, i, n, m, _, -, -, ⟨call, b, c, c', b', -, -, -, -, -, -, -, rfl⟩, rfl⟩ := h
  have last : q <:+ ('=' :: (w ++ '\n' :: (i ++ (call ++ (b ++ c :: (n ++ '.' ::
      (m ++ c' :: b')))))) : Text) ++ [','] := by simpa using ends
  obtain ⟨q, rfl, -⟩ := (List.suffix_concat_iff.1 last).resolve_left hq
  simp

/-- Behind the equals sign a define is called. -/
theorem exists_call (h : IsBroken root v) : ∃ b call r, b.all isBlank = true ∧ IsCall root call ∧
    v = '=' :: (b ++ (call ++ r)) := by
  obtain ⟨w, i, n, m, _, hw, hi, ⟨call, b, c, c', b', hcall, -, -, -, -, -, -, rfl⟩, rfl⟩ := h
  have blanks : (w ++ '\n' :: i).all isBlank = true := by
    rw [List.all_append, hw, List.all_cons, isBlank_of_gap hi]
    rfl
  exact ⟨w ++ '\n' :: i, call, b ++ c :: (n ++ '.' :: (m ++ c' :: (b' ++ [',']))), blanks, hcall,
    by simp⟩

/-- Behind the equals sign there is no blank with an identifier behind it. -/
theorem ne_spaced (h : IsBroken root v) (ha : isIdent a = true) (r : Text) :
    v ≠ '=' :: ' ' :: a :: r := by
  obtain ⟨w, i, n, m, call, hw, -, -, rfl⟩ := h
  intro e
  have e := (List.cons.inj e).2
  have newline : isIdent '\n' = false := by decide
  match w, hw, e with
  | [_], _, e =>
    obtain ⟨rfl, -⟩ := List.cons.inj (List.cons.inj e).2
    simp [newline] at ha
  | _ :: b :: _, hw, e =>
    obtain ⟨rfl, -⟩ := List.cons.inj (List.cons.inj e).2
    have blank : isBlank b = true := List.all_eq_true.1 hw b (by simp)
    simp [isIdent_eq_false_of_isBlank blank] at ha

/-- A text without commas and with an equals sign behind its beginning does not begin within. -/
theorem not_begins (h : IsBroken root v) (hroot : IsNamespace root) {p q z w : Text}
    (e : v = q ++ z) (hz : z ≠ []) (same : z ++ y = p ++ w) (comma : ',' ∉ p) (equals : '=' ∈ p)
    (first : p.head? ≠ some '=') : False := by
  rcases List.prefix_or_prefix_of_prefix ⟨w, same.symm⟩ (List.prefix_append z y) with ⟨z', rfl⟩ | le
  · obtain ⟨u, rfl, none⟩ := h.exists_equals hroot
    cases q with
    | nil =>
      cases p with
      | nil => simp at equals
      | cons b p => exact first (by rw [List.cons.inj e |>.1]; rfl)
    | cons b q =>
      obtain ⟨-, rfl⟩ := List.cons.inj e
      simp [equals] at none
  · exact comma (le.subset (h.comma_mem ⟨q, e.symm⟩ hz))

end IsBroken

/-! ## Defines bound by `let` -/

/-- The declaration of a define by `let` is exchanged for one by `const`. -/
def LetBinds (root past piece _rest new : Text) : Prop :=
  (∀ a ∈ past.head?, isIdent a = false) ∧ ∃ header name b call, IsLetHeader name header ∧
    b.all isBlank = true ∧ IsCall root call ∧ piece = header ++ '=' :: (b ++ call) ∧
    new = "const " ++ name ++ " = " ++ root ++ ".define("

/-- The text with the defines that are bound by `let` bound by `const`. -/
def constBound (root t : Text) : Text :=
  (letDefine root).replace (fun m => "const " ++ m.groupText 1 ++ " = " ++ root ++ ".define(") t

theorem allows_letDefine (root : Text) : (letDefine root).Allows
    (fun m => "const " ++ m.groupText 1 ++ " = " ++ root ++ ".define(") (LetBinds root) := by
  refine (recordsAfter_letDefine root).gives.allows ?_
  rintro past _ _ rest m ⟨guard, header, name, b, call, hh, hb, hcall, rfl, rfl⟩ noted
  rw [groupText_of_noted noted]
  exact ⟨guard, header, name, b, call, hh, hb, hcall, rfl, rfl⟩

theorem consumes_letDefine (root : Text) : (letDefine root).Consumes :=
  ((Consumes.seq_right _ (consumes_one _)).seq_left _).seq_left _

namespace LetBinds

theorem piece_ne_nil (h : LetBinds root past piece rest new) : piece ≠ [] := by
  obtain ⟨-, header, name, b, call, -, -, -, rfl, -⟩ := h
  simp

/-- What is exchanged ends with a parenthesis. -/
theorem paren_mem (h : LetBinds root past piece rest new) {z : Text} (ends : z <:+ piece)
    (hz : z ≠ []) : '(' ∈ z := by
  obtain ⟨-, header, name, b, _, -, -, ⟨path, g, b', -, -, -, rfl⟩, rfl, -⟩ := h
  have last : z <:+ (header ++ '=' :: (b ++ (path ++ (g ++ ("define" ++ b'))))) ++ ['('] := by
    simpa using ends
  obtain ⟨z, rfl, -⟩ := (List.suffix_concat_iff.1 last).resolve_left hz
  simp

/-- The only equals sign of what is exchanged stands behind a header. -/
theorem exists_header (h : LetBinds root past piece rest new) (hroot : IsNamespace root) :
    ∃ header name u, IsLetHeader name header ∧ piece = header ++ '=' :: u ∧ '=' ∉ u ∧ ',' ∉ piece ∧
      piece.head? = some 'l' := by
  obtain ⟨-, header, name, b, call, hh, hb, hcall, rfl, -⟩ := h
  have blanks {a : Char} (ha : isBlank a = false) : a ∉ b := not_mem_of_all hb ha
  refine ⟨header, name, b ++ call, hh, rfl, ?_, ?_, ?_⟩
  · simp [blanks (a := '=') (by decide), hcall.not_mem hroot (a := '=') (by decide) (by decide)]
  · simp [blanks (a := ',') (by decide), hcall.not_mem hroot (a := ',') (by decide) (by decide),
      hh.not_mem (a := ',') (by decide)]
  · obtain ⟨b₁, b₂, -, -, -, -, rfl⟩ := hh
    rfl

/-- The only equals sign of what is written stands before a blank and the root. -/
theorem exists_written (h : LetBinds root past piece rest new) (hroot : IsNamespace root) :
    ∃ u a r, new = u ++ '=' :: ' ' :: a :: r ∧ isIdent a = true ∧ '=' ∉ u ∧ '=' ∉ ' ' :: a :: r ∧
      ',' ∉ new ∧ new.head? = some 'c' := by
  obtain ⟨-, header, name, b, call, ⟨-, -, -, -, hname, -, -⟩, -, -, -, rfl⟩ := h
  have spelled : Spells (segments root) root := by
    have := spells_joinWith (segments root)
    rwa [segments, joinWith_splitOn] at this
  have inRoot {c : Char} (hc : (isIdent c || isBlank c || c == '.') = false) : c ∉ root :=
    not_mem_of_all (spelled.all hroot) hc
  have inName {c : Char} (hc : isIdent c = false) : c ∉ name := not_mem_of_all hname.2 hc
  obtain ⟨a, r, e, ha⟩ := spelled.exists_cons (segments_ne_nil root) hroot
  refine ⟨"const " ++ name ++ " ", a, r ++ ".define(", by simp [e], ha, ?_, ?_, ?_, rfl⟩
  · simp [inName (c := '=') (by decide)]
  · have := inRoot (c := '=') (by decide)
    simp only [e, List.mem_cons, not_or] at this
    simp [this]
  · simp [inName (c := ',') (by decide), inRoot (c := ',') (by decide)]

end LetBinds

/-- A declaration by `let` does not touch a broken assignment, unless it declares what is
assigned. -/
theorem IsBroken.apart (broken : IsBroken root v) (hroot : IsNamespace root) (free : ¬ EndsInLet x)
    (binds : LetBinds root past piece rest new)
    (e : past.reverse ++ (piece ++ rest) = x ++ (v ++ y)) :
    past.length + piece.length ≤ x.length ∨ x.length + v.length ≤ past.length := by
  obtain ⟨header, name, u, hh, hp, none, comma, first⟩ := binds.exists_header hroot
  rcases List.append_eq_append_iff.1 e with ⟨x₂, rfl, e'⟩ | ⟨v₁, hpast, e'⟩
  · refine Or.inl ?_
    rw [List.length_append, List.length_reverse]
    rcases List.prefix_or_prefix_of_prefix ⟨rest, e'⟩ (List.prefix_append x₂ _) with le | ⟨z, hz⟩
    · exact Nat.add_le_add_left le.length_le _
    · cases z with
      | nil => simp [← hz]
      | cons c z =>
        -- the equals sign of the piece is that of the assignment
        obtain ⟨w, rfl, -⟩ := broken.exists_equals hroot
        rw [← hz, List.append_assoc] at e'
        obtain ⟨rfl, -⟩ := List.cons.inj (List.append_cancel_left e')
        have equals : '=' ∉ header := hh.not_mem (by decide)
        obtain ⟨rfl, -, -⟩ :=
          (List.append_cons_inj_of_notMem equals none).1 (hp.symm.trans hz.symm)
        exact absurd ⟨_, header, name, rfl, by simpa using binds.1, hh⟩ free
  · refine Or.inr ?_
    have length := congrArg List.length hpast
    rw [List.length_reverse, List.length_append] at length
    rw [length]
    rcases List.prefix_or_prefix_of_prefix ⟨y, e'⟩ (List.prefix_append v₁ _) with le | ⟨q, rfl⟩
    · exact Nat.add_le_add_left le.length_le _
    · by_cases hq : q = []
      · simp [hq]
      · have same : q ++ y = piece ++ rest := by simpa using e'
        exact (broken.not_begins hroot rfl hq same comma (by simp [hp]) (by simp [first])).elim

/-- A declaration by `const` is not written into a broken assignment. -/
theorem IsBroken.not_written (broken : IsBroken root v) (hroot : IsNamespace root)
    (binds : LetBinds root past piece rest new) {q z w : Text} (e : v = q ++ z) (hz : z ≠ []) :
    z ++ y ≠ new ++ w := by
  intro same
  obtain ⟨u, a, r, hnew, -, -, -, comma, first⟩ := binds.exists_written hroot
  exact broken.not_begins hroot e hz same comma (by simp [hnew]) (by simp [first])

/-- Nor is it written across its beginning. -/
theorem IsBroken.not_written_across (broken : IsBroken root v) (hroot : IsNamespace root)
    {n n' w : Text} (binds : LetBinds root past piece rest (n ++ n')) (e : v ++ y = n' ++ w) :
    n' = [] := by
  obtain ⟨u, a, r, hnew, ha, none, none', comma, -⟩ := binds.exists_written hroot
  cases n' with
  | nil => rfl
  | cons c n' =>
    exfalso
    rcases List.prefix_or_prefix_of_prefix ⟨y, e⟩ (List.prefix_append _ w) with le | ⟨v', hv⟩
    · have inNew := le.subset (broken.comma_mem (List.suffix_refl v) broken.ne_nil)
      exact comma (List.mem_append_right n inNew)
    · obtain ⟨v₂, rfl, -⟩ := broken.exists_equals hroot
      obtain ⟨rfl, rfl⟩ := List.cons.inj hv
      obtain ⟨-, -, rfl⟩ := (List.append_cons_inj_of_notMem none none').1 hnew.symm
      exact broken.ne_spaced ha (r ++ v') rfl

/-- A broken assignment to something else than a name declared by `let` stays. -/
theorem IsBroken.exists_constBound (broken : IsBroken root v) (hroot : IsNamespace root)
    (free : ¬ EndsInLet x) (y : Text) :
    ∃ x' y', constBound root (x ++ (v ++ y)) = x' ++ (v ++ y') := by
  obtain ⟨x', y', kept, -⟩ := exists_framed_rewrites
    (rewrites_replace (consumes_letDefine root) (allows_letDefine root) (x ++ (v ++ y)))
    (fun _ _ _ _ binds => binds.piece_ne_nil)
    (fun _ _ _ _ binds e => broken.apart hroot free binds e)
  exact ⟨x', y', kept⟩

theorem ends_letDefine_ne_nil (past : Text) {name header b call : Text}
    (guard : ∀ a ∈ past.head?, isIdent a = false) (hh : IsLetHeader name header)
    (hb : b.all isBlank = true) (hcall : IsCall root call) (offset : Nat) (rest : Text) :
    (letDefine root).ends ⟨past, offset, header ++ '=' :: (b ++ (call ++ rest)), []⟩ ≠ [] := by
  have := (recordsAfter_letDefine root).ends_ne_nil offset rest guard
    ⟨header, name, b, call, hh, hb, hcall, rfl, rfl⟩
  simpa using this

/-- A broken assignment that stays assigns to something else than a name declared by `let`. -/
theorem IsBroken.exists_of_constBound (broken : IsBroken root v) (hroot : IsNamespace root)
    (e : constBound root t = x ++ (v ++ y)) : ∃ x y, t = x ++ (v ++ y) ∧ ¬ EndsInLet x := by
  have sweeps := sweeps_replace (consumes_letDefine root) (allows_letDefine root) t
  rw [← constBound, e] at sweeps
  obtain ⟨x, t, rfl, behind, passed⟩ := sweeps.exists_before
    fun _ _ _ _ _ _ _ binds _ across _ => broken.not_written_across hroot binds across
  rcases behind.cases_append with ⟨y, rfl, -⟩ | ⟨q, z, piece, rest, new, out, ev, hz, same, binds⟩
  · refine ⟨x, y, rfl, ?_⟩
    rintro ⟨p, header, name, rfl, guard, hh⟩
    have hne : header ≠ [] := by
      obtain ⟨b, b', -, -, -, -, rfl⟩ := hh
      simp
    rcases passed p header rfl hne with unread | ⟨_, _, _, _, z, binds, hz, ends, begins⟩
    · obtain ⟨b, call, r, hb, hcall, rfl⟩ := broken.exists_call
      refine ends_letDefine_ne_nil p.reverse (by simpa using guard) hh hb hcall p.length
        (r ++ y) ?_
      simpa using unread
    · exact hh.not_mem (by decide) (begins.subset (binds.paren_mem ends hz))
  · exact absurd same (broken.not_written hroot binds ev hz)

/-! ## Bound calls -/

/-- The calls that get a binding, in the text in which they get it. -/
def boundCalls (root t : Text) : List Match := (lineDefine root).allMatches (constBound root t)

/-- What stands behind a text is assigned: an equals sign comes before it, with nothing but blanks
between them. The last character of the text comes first. -/
def IsAssigned (past : Text) : Prop := past.find? (! isBlank ·) = some '='

instance (past : Text) : Decidable (IsAssigned past) := inferInstanceAs (Decidable (_ = _))

/-- At the beginning of a line. -/
theorem isAssigned_iff (starts : AtBreak past) : IsAssigned past ↔
    ∃ x w, past.reverse = x ++ '=' :: (w ++ ['\n']) ∧ w.all isBlank = true := by
  rw [IsAssigned, List.find?_eq_some_iff_append]
  constructor
  · rintro ⟨-, b, p, rfl, blanks⟩
    cases b with
    | nil => exact absurd (starts '=' rfl) (by decide)
    | cons c b =>
      obtain rfl := starts c rfl
      refine ⟨p.reverse, b.reverse, by simp, ?_⟩
      simpa using fun a ha => blanks a (List.mem_cons_of_mem _ ha)
  · rintro ⟨x, w, e, hw⟩
    have newline : isBlank '\n' = true := by decide
    have equals : isBlank '=' = false := by decide
    refine ⟨by simp [equals], '\n' :: w.reverse, x.reverse, ?_, ?_⟩
    · simpa using congrArg List.reverse e
    · simpa [newline] using hw

/-- A call with its indentation that begins before the line break of a broken assignment does not go
on behind it. -/
theorem eq_nil_of_covers {x₁ x₂ w i n m call rest' : Text} (hroot : IsNamespace root)
    (split : x ++ '=' :: (w ++ ['\n']) = x₁ ++ x₂) (hw : w.all isBlank = true)
    (hi : i.all isSpaceOrTab = true) (hcall : IsNamedCall root n m call)
    (e : x₂ ++ rest = i ++ call ++ rest') (behind : x₂.length ≤ (i ++ call).length) : x₂ = [] := by
  have within : x₂ <+: i ++ call :=
    List.prefix_of_prefix_length_le ⟨rest, e⟩ (List.prefix_append _ rest') behind
  have none : '=' ∉ x₂ := fun mem => by
    have inCall := hcall.equals_not_mem hroot
    have inSpaces : '=' ∉ i := not_mem_of_all hi (by decide)
    exact (List.mem_append.1 (within.subset mem)).elim inSpaces inCall
  have tail : x₂ <:+ w ++ ['\n'] := by
    rcases List.append_eq_append_iff.1 split with ⟨b, rfl, e⟩ | ⟨b, rfl, rfl⟩
    · cases b with
      | nil =>
        obtain rfl : '=' :: (w ++ ['\n']) = x₂ := e
        simp at none
      | cons c b => exact ⟨b, (List.cons.inj e).2.symm⟩
    · simp at none
  rcases List.suffix_concat_iff.1 tail with rfl | ⟨z, rfl, le⟩
  · rfl
  · have blanks : ((z ++ ['\n']).all fun a => ! isIdent a) = true := by
      have newline : isIdent '\n' = false := by decide
      have inBlanks : ∀ a ∈ z, isIdent a = false := fun a ha =>
        isIdent_eq_false_of_isBlank (List.all_eq_true.1 hw a (le.subset ha))
      simpa [newline] using inBlanks
    obtain ⟨a, r, rfl, ha⟩ := hcall.exists_cons hroot
    have inSpaces := prefix_of_not_isIdent blanks ⟨a, r ++ rest', rfl, ha⟩ (by simpa using e)
    have newline : '\n' ∉ i := not_mem_of_all hi (by decide)
    exact absurd (inSpaces.subset (by simp)) newline

theorem consumes_lineDefine (root : Text) : (lineDefine root).Consumes := by
  refine (gives_lineDefine root).consumes ?_
  rintro past _ - ⟨-, i, n, m, _, -, ⟨call, b, q, q', b', -, -, -, -, -, -, -, rfl⟩, rfl⟩
  simp

/-- **The calls that are assigned and found at the beginning of a line** are those of the broken
assignments. -/
theorem exists_assigned_iff (hroot : IsNamespace root) :
    (∃ m ∈ (lineDefine root).allMatches t, IsAssigned m.start.past) ↔
      ∃ x v y, t = x ++ (v ++ y) ∧ IsBroken root v := by
  constructor
  · rintro ⟨m, hm, assigned⟩
    obtain ⟨isIn, -, hd⟩ := mem_allMatches hm
    obtain ⟨_, -, ⟨starts, i, n, m', call, hi, hcall, rfl⟩, reads, -⟩ :=
      gives_lineDefine root _ _ hd
    obtain ⟨x, w, e, hw⟩ := (isAssigned_iff starts).1 assigned
    refine ⟨x, _, m.stop.rest, ?_, w, i, n, m', call, hw, hi, hcall, rfl⟩
    rw [isIn.text, e, reads.rest]
    simp
  · rintro ⟨x, v, y, rfl, w, i, n, m', call, hw, hi, hcall, rfl⟩
    have starts : AtBreak (x ++ '=' :: (w ++ ['\n'])).reverse := by simp [AtBreak]
    have read := ends_lineDefine_ne_nil starts hi hcall (x ++ '=' :: (w ++ ['\n'])).length y
    obtain ⟨m, hm, x₁, x₂, split, start, behind⟩ :=
      exists_mem_allMatches (consumes_lineDefine root) _ (i ++ (call ++ y)) read
    refine ⟨m, by simpa using hm, ?_⟩
    obtain ⟨-, -, hd⟩ := mem_allMatches hm
    obtain ⟨_, -, ⟨-, i', n', m'', call', hi', hcall', rfl⟩, reads, -⟩ :=
      gives_lineDefine root _ _ hd
    rw [Match.text, reads.textTo] at behind
    have e := reads.rest
    rw [start] at e
    obtain rfl := eq_nil_of_covers hroot split hw hi' hcall' e (Nat.le_of_lt behind)
    rw [List.append_nil] at split
    rw [start, ← split]
    exact (isAssigned_iff starts).2 ⟨x, w, by simp, hw⟩

/-- The text has a broken assignment to something else than a name declared by `let`. -/
def HasBrokenAssignment (root t : Text) : Prop :=
  ∃ x v y, t = x ++ (v ++ y) ∧ IsBroken root v ∧ ¬ EndsInLet x

/-- **Which calls of defines are bound.** Once the defines declared by `let` have been bound, a
binding is put in front of the calls that begin a line, behind its indentation. None of these calls
is assigned exactly if no assignment to something else than a name declared by `let` breaks its line
before the call of a define with a dotted name. -/
theorem bindDefines_unassigned_iff (hroot : IsNamespace root) (t : Text) :
    (bindDefines root t).text =
      ((boundCalls root t).map fun m => (m.groupText 3, m.groupText 4)).foldl
        (fun t (name, short) => replaceReferences t name short)
        ((lineDefine root).replace
          (fun m => m.groupText 1 ++ "const " ++ m.groupText 4 ++ " = " ++ m.groupText 2)
          (constBound root t)) ∧
    ((∀ m ∈ boundCalls root t, ¬ IsAssigned m.start.past) ↔ ¬ HasBrokenAssignment root t) := by
  refine ⟨rfl, ?_⟩
  have bound : (∃ m ∈ boundCalls root t, IsAssigned m.start.past) ↔ HasBrokenAssignment root t := by
    rw [boundCalls, exists_assigned_iff hroot]
    constructor
    · rintro ⟨x, v, y, e, broken⟩
      obtain ⟨x, y, rfl, free⟩ := broken.exists_of_constBound hroot e
      exact ⟨x, v, y, rfl, broken, free⟩
    · rintro ⟨x, v, y, rfl, broken, free⟩
      obtain ⟨x', y', e⟩ := broken.exists_constBound hroot free y
      exact ⟨x', v, y', e, broken⟩
  rw [← bound]
  simp only [not_exists, not_and]

/-- A declaration by `let` may break its line before the call of a define, another assignment may
not. -/
theorem bindDefines_unassigned_let : IsNamespace "goog" ∧
    ¬ HasBrokenAssignment "goog" "let X =\n    goog.define('a.X', 1);\ngoog.define('a.Y', 2);\n" ∧
    HasBrokenAssignment "goog" "a.X =\n    goog.define('a.X', 1);\n" := by
  have hroot : IsNamespace "goog" := by decide
  refine ⟨hroot, (bindDefines_unassigned_iff hroot _).2.1 (by decide +kernel), ?_⟩
  refine Classical.not_not.1 fun none => ?_
  have unassigned := (bindDefines_unassigned_iff hroot _).2.2 none
  exact absurd unassigned (by decide +kernel)

/-- A binding is put between an assignment and the call of a define on the next line. -/
theorem bindDefines_assigned :
    bindDefines "goog" "var x =\n    goog.define('a.X', 1);\n" =
      ⟨"var x =\n    const X = goog.define('a.X', 1);\n", [⟨"X", "X"⟩]⟩ ∧
    ∃ m ∈ boundCalls "goog" "var x =\n    goog.define('a.X', 1);\n", IsAssigned m.start.past :=
  ⟨by decide +kernel, by decide +kernel⟩

end Modulize.Recast
