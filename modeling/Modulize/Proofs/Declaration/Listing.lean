import Modulize.Proofs.Declaration.Printed
import Modulize.Proofs.Files.Written
import Modulize.Proofs.Pattern.Composed
import Modulize.Proofs.Script.TokenScan

/-!
# Lists of exports

A list of exports stands in braces, with comments between its entries (`IsListing`). The scanner
finds the brace at its end whatever the comments say (`IsUncommented.groupEnd_eq`). The comments are
taken out by two patterns, first the ones with stars and then the ones to the end of the line. So a
comment to the end of a line must not open a comment with stars that is closed behind that line
(`IsHarmless`); then the entries are left (`IsUncommented.withoutComments_eq`) and are read as they
are written (`readEntries_of_isListing`).
-/

namespace Modulize.Declaration

open Pattern Qualified Script

/-! ## Comments -/

/-- **What is left of a line with a comment, and the text behind the line**: a comment with stars
that is opened in the line is closed in the line, or it is not closed at all. -/
inductive IsHarmless : Text → Text → Prop
  | done {t : Text} : IsHarmless [] t
  | char {c : Char} {body t : Text} (plain : ¬ ['/', '*'] <+: c :: body)
      (later : IsHarmless body t) : IsHarmless (c :: body) t
  | block {inner body t : Text} (unclosed : ¬ ['*', '/'] <:+: inner) (later : IsHarmless body t) :
      IsHarmless ('/' :: '*' :: (inner ++ '*' :: '/' :: body)) t
  | never {body t : Text} (unclosed : ¬ ['*', '/'] <:+: body ++ '\n' :: t) : IsHarmless body t

/-- A comment without stars opens none. -/
theorem IsHarmless.of_not_mem {body t : Text} (h : '*' ∉ body) : IsHarmless body t := by
  induction body with
  | nil => exact .done
  | cons c body ih =>
    refine .char ?_ (ih fun mem => h (List.mem_cons_of_mem c mem))
    rintro ⟨r, e⟩
    exact h (by rw [← e]; simp)

/-- **A text and what is left of it without its comments**: a line break is left of a comment to the
end of a line. The second slash of such a comment opens no comment either. -/
inductive IsUncommented : Text → Text → Prop
  | done : IsUncommented [] []
  | char {c : Char} {t u : Text} (single : isSingle c = true) (later : IsUncommented t u) :
      IsUncommented (c :: t) (c :: u)
  | block {body t u : Text} (unclosed : ¬ ['*', '/'] <:+: body) (later : IsUncommented t u) :
      IsUncommented ('/' :: '*' :: (body ++ '*' :: '/' :: t)) u
  | line {body t u : Text} (oneLine : '\n' ∉ body)
      (slashes : ['*'] <+: body → ¬ ['*', '/'] <:+: body ++ '\n' :: t)
      (harmless : IsHarmless body t) (later : IsUncommented t u) :
      IsUncommented ('/' :: '/' :: (body ++ '\n' :: t)) ('\n' :: u)

/-- The text has comments to the ends of lines only. -/
inductive IsNoted : Text → Text → Prop
  | done : IsNoted [] []
  | char {c : Char} {t u : Text} (single : isSingle c = true) (later : IsNoted t u) :
      IsNoted (c :: t) (c :: u)
  | line {body t u : Text} (oneLine : '\n' ∉ body) (later : IsNoted t u) :
      IsNoted ('/' :: '/' :: (body ++ '\n' :: t)) ('\n' :: u)

theorem ne_slash_of_isSingle {c : Char} (h : isSingle c = true) : c ≠ '/' := by
  rintro rfl
  cases h

namespace IsUncommented

variable {t u : Text}

theorem exists_tokens (h : IsUncommented t u) : ∃ ts : Tokens, ts.text = t ∧
    (∀ n, ts.Proper n) ∧ ∀ rest, ts.Unbroken rest := by
  induction h with
  | done => exact ⟨.done, rfl, fun _ => trivial, fun _ => trivial⟩
  | @char c _ _ single _ ih =>
    obtain ⟨ts, rfl, proper, unbroken⟩ := ih
    exact ⟨.single c single ts, rfl, fun n => proper (n.past c), unbroken⟩
  | @block body _ _ unclosed _ ih =>
    obtain ⟨ts, rfl, proper, unbroken⟩ := ih
    exact ⟨.literal (.blockComment body unclosed) ts, by simp [Tokens.text, Literal.text],
      fun n => ⟨nofun, proper .literal⟩, unbroken⟩
  | @line body _ _ oneLine _ _ _ ih =>
    obtain ⟨ts, rfl, proper, unbroken⟩ := ih
    exact ⟨.literal (.lineComment body oneLine) ts, by simp [Tokens.text, Literal.text],
      fun n => ⟨nofun, proper .literal⟩, unbroken⟩

/-- Characters by themselves in front. -/
theorem append {x : Text} (single : x.all isSingle = true) (later : IsUncommented t u) :
    IsUncommented (x ++ t) (x ++ u) := by
  induction x with
  | nil => exact later
  | cons c x ih =>
    obtain ⟨here, single⟩ := Bool.and_eq_true_iff.1 single
    exact .char here (ih single)

/-- **The brace at the end of a list is found**, whatever its comments say. -/
theorem groupEnd_eq (h : IsUncommented t u) (before after : Text) :
    groupEnd (before ++ '{' :: (t ++ '}' :: after)) before.length =
      .ok (before.length + 1 + t.length + 1) := by
  obtain ⟨ts, rfl, proper, -⟩ := h.exists_tokens
  have closes : isGroupEnd 1 '}' after = true := rfl
  have ends := groupEnd_of_end?
    (end?_group isEndRule_isGroupEnd .curly (proper _) closes before.reverse before.length)
  have length : before.length + ts.text.length + 2 = before.length + 1 + ts.text.length + 1 := by
    omega
  rw [← length]
  exact ends

/-- The semicolon behind such a text ends the statement. -/
theorem statementEnd_eq (h : IsUncommented t u) (before after : Text) :
    statementEnd (before ++ (t ++ ';' :: after)) before.length =
      .ok (before.length + t.length + 1) := by
  obtain ⟨ts, rfl, proper, unbroken⟩ := h.exists_tokens
  have fits : Neighbour.literal.Fits before.reverse := trivial
  have passed := Tokens.passes_tokens isEndRule_isStatementEnd ts fits (proper _)
    (Tokens.unended_of_unbroken (unbroken (';' :: after)))
  refine statementEnd_of_end? ?_
  rw [Scan.outside, passed, Scan.end?_cons]
  rfl

end IsUncommented

/-! ## Taking the comments out -/

theorem ends_literal {s r : Text} {c : Cursor} (h : c.rest = s ++ r) :
    (literal s).ends c = [c.after s r] := by
  induction s generalizing c with
  | nil =>
    obtain rfl : c.rest = r := h
    rfl
  | cons a s ih =>
    have first : (one (· == a)).ends c = [c.after [a] (s ++ r)] := by
      simp only [ends, h, List.cons_append, beq_self_eq_true, if_true]
      rfl
    cases s with
    | nil => exact first
    | cons b s =>
      have rest : (literal (b :: s)).ends (c.after [a] (b :: s ++ r)) = [c.after (a :: b :: s) r] :=
        (ih rfl).trans (congrArg ([·]) (Cursor.after_after c [a] (b :: s) _ r))
      change ((one (· == a)).ends c).flatMap (literal (b :: s)).ends = _
      rw [first, List.flatMap_singleton, rest]

theorem ends_literal_eq_nil {s : Text} {c : Cursor} (h : ¬ s <+: c.rest) :
    (literal s).ends c = [] := by
  refine List.eq_nil_iff_forall_not_mem.2 fun d hd => ?_
  obtain ⟨_, r, e, rfl, -⟩ := (describes_literal s c d).1 hd
  exact h ⟨r, e.symm⟩

/-- A lazy search goes on behind the character at which nothing is read. -/
theorem ends_search_cons {b : Pattern} {past r : Text} {offset : Nat} {a : Char}
    {groups : List (Nat × Capture)} (none : b.ends ⟨past, offset, a :: r, groups⟩ = []) :
    (span (fun _ _ => true) false ++ b).ends ⟨past, offset, a :: r, groups⟩ =
      (span (fun _ _ => true) false ++ b).ends ⟨a :: past, offset + 1, r, groups⟩ := by
  simp [ends_seq, ends, Cursor.stops, none]

/-- A lazy search takes the first place at which something is read. -/
theorem head?_ends_search {b : Pattern} {c d : Cursor} {ds : List Cursor} (h : b.ends c = d :: ds) :
    ((span (fun _ _ => true) false ++ b).ends c).head? = some d := by
  obtain ⟨past, offset, rest, groups⟩ := c
  cases rest with
  | nil => simp [ends_seq, ends, Cursor.stops, h]
  | cons a r => simp [ends_seq, ends, Cursor.stops, h]

/-- A comment with stars is read to its first end. -/
theorem head?_ends_closing {body : Text} (unclosed : ¬ ['*', '/'] <:+: body) {past t : Text}
    {offset : Nat} {groups : List (Nat × Capture)} :
    ((span (fun _ _ => true) false ++ literal ['*', '/']).ends
        ⟨past, offset, body ++ '*' :: '/' :: t, groups⟩).head? =
      some ((⟨past, offset, body ++ '*' :: '/' :: t, groups⟩ : Cursor).after
        (body ++ ['*', '/']) t) := by
  induction body generalizing past offset with
  | nil => exact head?_ends_search (ends_literal (s := ['*', '/']) rfl)
  | cons a body ih =>
    have later : ¬ ['*', '/'] <:+: body := fun h =>
      unclosed (h.trans (List.suffix_cons _ _).isInfix)
    have here : ¬ ['*', '/'] <+: a :: (body ++ '*' :: '/' :: t) := by
      rintro ⟨r, e⟩
      obtain ⟨rfl, tail⟩ := List.cons.inj e
      cases body with
      | nil => cases (List.cons.inj tail).1
      | cons b body =>
        obtain ⟨rfl, -⟩ := List.cons.inj tail
        exact unclosed ⟨[], body, rfl⟩
    rw [List.cons_append, ends_search_cons (ends_literal_eq_nil here), ih later]
    simp [Cursor.after, Nat.add_assoc, Nat.add_comm 1]

theorem ends_blockComment_eq_nil {c : Cursor} (h : ¬ ['/', '*'] <+: c.rest) :
    blockComment.ends c = [] := by
  have none : (literal ['/', '*']).ends c = [] := ends_literal_eq_nil h
  change (((literal ['/', '*']).ends c).flatMap _).flatMap _ = []
  rw [none]
  rfl

/-- **A comment with stars is read** as it is written. -/
theorem exists_ends_blockComment {body : Text} (unclosed : ¬ ['*', '/'] <:+: body) (past t : Text)
    (offset : Nat) : ∃ ds, blockComment.ends
        ⟨past, offset, ('/' :: '*' :: (body ++ ['*', '/'])) ++ t, []⟩ =
      (⟨past, offset, ('/' :: '*' :: (body ++ ['*', '/'])) ++ t, []⟩ : Cursor).after
        ('/' :: '*' :: (body ++ ['*', '/'])) t :: ds := by
  have cut : ('/' :: '*' :: (body ++ ['*', '/'])) ++ t =
      ['/', '*'] ++ (body ++ '*' :: '/' :: t) := by simp
  have first := ends_literal (s := ['/', '*']) (r := body ++ '*' :: '/' :: t)
    (c := ⟨past, offset, ['/', '*'] ++ (body ++ '*' :: '/' :: t), []⟩) rfl
  have whole :
      (blockComment.ends ⟨past, offset, ['/', '*'] ++ (body ++ '*' :: '/' :: t), []⟩).head? =
        some ((⟨past, offset, ['/', '*'] ++ (body ++ '*' :: '/' :: t), []⟩ : Cursor).after
        ('/' :: '*' :: (body ++ ['*', '/'])) t) := by
    rw [blockComment, ends_assoc]
    change (((literal ['/', '*']).ends _).flatMap
      (span (fun _ _ => true) false ++ literal ['*', '/']).ends).head? = _
    rw [first, List.flatMap_singleton]
    refine (head?_ends_closing unclosed).trans ?_
    simp [Cursor.after, Nat.add_assoc, Nat.add_comm 2]
  rw [cut]
  exact List.head?_eq_some_iff.1 whole

theorem consumes_blockComment : blockComment.Consumes :=
  (((consumes_one _).seq_left _).seq_left _).seq_left _

theorem consumes_lineComment : lineComment.Consumes := ((consumes_one _).seq_left _).seq_left _

theorem ends_lineComment_eq_nil {c : Cursor} (h : ¬ ['/', '/'] <+: c.rest) :
    lineComment.ends c = [] := by
  have none : (literal ['/', '/']).ends c = [] := ends_literal_eq_nil h
  change ((literal ['/', '/']).ends c).flatMap _ = []
  rw [none]
  rfl

/-- A comment to the end of the line is read up to the line break. -/
theorem exists_ends_lineComment {body : Text} (oneLine : '\n' ∉ body) (past t : Text)
    (offset : Nat) : ∃ ds, lineComment.ends
        ⟨past, offset, ('/' :: '/' :: body) ++ '\n' :: t, []⟩ =
      (⟨past, offset, ('/' :: '/' :: body) ++ '\n' :: t, []⟩ : Cursor).after ('/' :: '/' :: body)
        ('\n' :: t) :: ds := by
  have slashes := ends_literal (s := ['/', '/']) (r := body ++ '\n' :: t)
    (c := ⟨past, offset, ('/' :: '/' :: body) ++ '\n' :: t, []⟩) rfl
  have all : ∀ a ∈ body, (a != '\n') = true := fun a ha => bne_iff_ne.2 fun e => oneLine (e ▸ ha)
  have whole : (lineComment.ends ⟨past, offset, ('/' :: '/' :: body) ++ '\n' :: t, []⟩).head? =
      some ((⟨past, offset, ('/' :: '/' :: body) ++ '\n' :: t, []⟩ : Cursor).after
        ('/' :: '/' :: body) ('\n' :: t)) := by
    change (((literal ['/', '/']) ++ run (· != '\n')).ends _).head? = _
    rw [head?_ends_seq (ends_run_ne_nil _), slashes, List.head?_cons, Option.bind_some,
      head?_ends_run]
    simp [Cursor.after, List.takeWhile_append_of_pos all, List.dropWhile_append_of_pos all,
      Nat.add_assoc, Nat.add_comm 2]
  exact List.head?_eq_some_iff.1 whole

theorem ne_prefix_of_isSingle {c a b : Char} (h : isSingle c = true) (slash : a = '/') (t : Text) :
    ¬ [a, b] <+: c :: t := by
  rintro ⟨r, e⟩
  exact ne_slash_of_isSingle h ((List.cons.inj e).1.symm.trans slash)

/-- Where no comment with stars is closed, nothing is one. -/
theorem ends_blockComment_of_unclosed {c : Cursor} (h : ¬ ['*', '/'] <:+: c.rest) :
    blockComment.ends c = [] := by
  refine List.eq_nil_iff_forall_not_mem.2 fun d hd => ?_
  obtain ⟨e, he, hd⟩ := mem_ends_seq.1 hd
  obtain ⟨piece, reads⟩ := reads_of_mem_ends he
  obtain ⟨closing, r, behind, rfl, -⟩ := (describes_literal "*/" e d).1 hd
  exact h ⟨piece, r, by rw [reads.rest, behind]; simp⟩

/-- Where no comment with stars is closed, there is none. -/
theorem IsUncommented.isNoted {t u : Text} (h : IsUncommented t u)
    (unclosed : ¬ ['*', '/'] <:+: t) : IsNoted t u := by
  induction h with
  | done => exact .done
  | char single _ ih =>
    exact .char single (ih fun h => unclosed (h.trans (List.suffix_cons _ _).isInfix))
  | @block body t _ _ _ _ =>
    exact absurd ⟨'/' :: '*' :: body, t, by simp⟩ unclosed
  | @line body t _ oneLine _ _ _ ih =>
    refine .line oneLine (ih fun h => unclosed (h.trans ⟨'/' :: '/' :: (body ++ ['\n']), [], ?_⟩))
    simp

/-- Where no comment with stars is closed, nothing is taken out. -/
theorem erased_of_unclosed {t : Text} (unclosed : ¬ ['*', '/'] <:+: t) (past : Text)
    (offset : Nat) : blockComment.replaceAt (fun _ => []) past offset t = t := by
  have same := @replaceAt_append_of_none blockComment (fun _ => []) past offset t []
    fun x y e _ => ends_blockComment_of_unclosed fun h => unclosed (by
      rw [e]
      exact (List.append_nil y ▸ h).trans (List.suffix_append x y).isInfix)
  rwa [replaceAt_nil _ consumes_blockComment, List.append_nil] at same

/-- A comment with stars is taken out. -/
theorem erased_block {body t v : Text} (unclosed : ¬ ['*', '/'] <:+: body)
    (erased : ∀ past offset, blockComment.replaceAt (fun _ => []) past offset t = v) (past : Text)
    (offset : Nat) : blockComment.replaceAt (fun _ => []) past offset
      ('/' :: '*' :: (body ++ '*' :: '/' :: t)) = v := by
  have whole : '/' :: '*' :: (body ++ '*' :: '/' :: t) =
      ('/' :: '*' :: (body ++ ['*', '/'])) ++ t := by simp
  obtain ⟨ds, hd⟩ := exists_ends_blockComment unclosed past t offset
  rw [whole, replaceAt_of_match _ consumes_blockComment hd (Cursor.reads_after rfl), erased]
  rfl

/-- A harmless comment to the end of a line stays one when the comments with stars are taken
out. -/
theorem IsHarmless.exists_erased {body t u v : Text} (h : IsHarmless body t)
    (oneLine : '\n' ∉ body) (uncommented : IsUncommented t u) (noted : IsNoted v u)
    (erased : ∀ past offset, blockComment.replaceAt (fun _ => []) past offset t = v) :
    ∃ body' v', '\n' ∉ body' ∧ IsNoted v' u ∧ ∀ past offset,
      blockComment.replaceAt (fun _ => []) past offset (body ++ '\n' :: t) =
        body' ++ '\n' :: v' := by
  induction h with
  | @done t =>
    have line : ¬ ['/', '*'] <+: '\n' :: t := by
      rintro ⟨_, e⟩
      cases (List.cons.inj e).1
    refine ⟨[], v, List.not_mem_nil, noted, fun past offset => ?_⟩
    rw [List.nil_append, replaceAt_of_none _ (ends_blockComment_eq_nil line), erased]
    rfl
  | @char c body t plain _ ih =>
    obtain ⟨line, rest⟩ := not_or.1 (mt List.mem_cons.2 oneLine)
    obtain ⟨body', v', oneLine', noted', erased'⟩ := ih rest uncommented erased
    have here : ¬ ['/', '*'] <+: c :: (body ++ '\n' :: t) := by
      rintro ⟨r, e⟩
      cases body with
      | nil => cases (List.cons.inj (List.cons.inj e).2).1
      | cons b body =>
        obtain ⟨rfl, tail⟩ := List.cons.inj e
        exact plain ⟨body, by rw [(List.cons.inj tail).1]; rfl⟩
    refine ⟨c :: body', v', by simp [line, oneLine'], noted', fun past offset => ?_⟩
    rw [List.cons_append, replaceAt_of_none _ (ends_blockComment_eq_nil here), erased']
    rfl
  | @block inner body t unclosed _ ih =>
    have rest : '\n' ∉ body := fun h => oneLine (by simp [h])
    obtain ⟨body', v', oneLine', noted', erased'⟩ := ih rest uncommented erased
    refine ⟨body', v', oneLine', noted', fun past offset => ?_⟩
    simpa using erased_block unclosed erased' past offset
  | @never body t unclosed =>
    have behind : ¬ ['*', '/'] <:+: t := fun h =>
      unclosed (h.trans ⟨body ++ ['\n'], [], by simp⟩)
    exact ⟨body, t, oneLine, uncommented.isNoted behind, erased_of_unclosed unclosed⟩

/-- The comments with stars are taken out. -/
theorem IsUncommented.exists_erased {t u : Text} (h : IsUncommented t u) :
    ∃ v, IsNoted v u ∧
      ∀ past offset, blockComment.replaceAt (fun _ => []) past offset t = v := by
  induction h with
  | done => exact ⟨[], .done, fun past offset => replaceAt_nil _ consumes_blockComment⟩
  | @char c t u single _ ih =>
    obtain ⟨v, noted, erased⟩ := ih
    refine ⟨c :: v, .char single noted, fun past offset => ?_⟩
    rw [replaceAt_of_none _ (ends_blockComment_eq_nil (ne_prefix_of_isSingle single rfl t)), erased]
  | @block body t u unclosed _ ih =>
    obtain ⟨v, noted, erased⟩ := ih
    exact ⟨v, noted, erased_block unclosed erased⟩
  | @line body t u oneLine slashes harmless later ih =>
    obtain ⟨v, noted, erased⟩ := ih
    obtain ⟨body', v', oneLine', noted', erased'⟩ :=
      harmless.exists_erased oneLine later noted erased
    refine ⟨'/' :: '/' :: (body' ++ '\n' :: v'), .line oneLine' noted', fun past offset => ?_⟩
    have first : ¬ ['/', '*'] <+: '/' :: '/' :: (body ++ '\n' :: t) := by
      rintro ⟨_, e⟩
      cases (List.cons.inj (List.cons.inj e).2).1
    have second (past : Text) (offset : Nat) :
        blockComment.ends ⟨past, offset, '/' :: (body ++ '\n' :: t), []⟩ = [] := by
      by_cases star : ['*'] <+: body
      · refine ends_blockComment_of_unclosed fun h => ?_
        rcases List.infix_cons_iff.1 h with ⟨_, e⟩ | h
        · cases (List.cons.inj e).1
        · exact slashes star h
      · refine ends_blockComment_eq_nil ?_
        rintro ⟨r, e⟩
        cases body with
        | nil => cases (List.cons.inj (List.cons.inj e).2).1
        | cons b body => exact star ⟨body, by rw [(List.cons.inj (List.cons.inj e).2).1]; rfl⟩
    rw [replaceAt_of_none _ (ends_blockComment_eq_nil first), replaceAt_of_none _ (second _ _),
      erased']

/-- The comments to the ends of lines are taken out. -/
theorem IsNoted.erased {t u : Text} (h : IsNoted t u) (past : Text) (offset : Nat) :
    lineComment.replaceAt (fun _ => []) past offset t = u := by
  induction h generalizing past offset with
  | done => exact replaceAt_nil _ consumes_lineComment
  | @char c t u single _ ih =>
    rw [replaceAt_of_none _ (ends_lineComment_eq_nil (ne_prefix_of_isSingle single rfl t)), ih]
  | @line body t u oneLine _ ih =>
    have whole : '/' :: '/' :: (body ++ '\n' :: t) = ('/' :: '/' :: body) ++ '\n' :: t := by simp
    obtain ⟨ds, hd⟩ := exists_ends_lineComment oneLine past t offset
    have line : ¬ ['/', '/'] <+: '\n' :: t := by
      rintro ⟨_, e⟩
      cases (List.cons.inj e).1
    rw [whole, replaceAt_of_match _ consumes_lineComment hd (Cursor.reads_after rfl),
      replaceAt_of_none _ (ends_lineComment_eq_nil line), ih]
    rfl

/-- **What is left of a list without its comments.** -/
theorem IsUncommented.withoutComments_eq {t u : Text} (h : IsUncommented t u) :
    withoutComments t = u := by
  obtain ⟨v, noted, erased⟩ := h.exists_erased
  have first : blockComment.erase t = v := erased [] 0
  rw [withoutComments, first]
  exact noted.erased [] 0

/-! ## Entries -/

/-- What stands between two commas of a list, and the entry that it writes: nothing but blanks, a
name, or two names with a colon in between. -/
inductive IsItem : Text → List ExportEntry → Prop
  | blank {b : Text} (blank : b.all isBlank = true) : IsItem b []
  | name {b n b' : Text} (blank : b.all isBlank = true) (isName : IsIdentifier n)
      (blank' : b'.all isBlank = true) : IsItem (b ++ (n ++ b')) [⟨n, n⟩]
  | renamed {b n c c' n' b' : Text} (blank : b.all isBlank = true) (isName : IsIdentifier n)
      (colon : c.all isBlank = true) (colon' : c'.all isBlank = true) (isName' : IsIdentifier n')
      (blank' : b'.all isBlank = true) :
      IsItem ((b ++ (n ++ c)) ++ ':' :: (c' ++ (n' ++ b'))) [⟨n, n'⟩]

/-- **A list of exports**: items with commas between them, and comments anywhere. -/
def IsListing (body : Text) (entries : List ExportEntry) : Prop :=
  ∃ items : List (Text × List ExportEntry), items ≠ [] ∧ (∀ p ∈ items, IsItem p.1 p.2) ∧
    IsUncommented body (Text.joinWith [','] (items.map Prod.fst)) ∧
    entries = items.flatMap Prod.snd

theorem trim_around {b n b' : Text} (blank : b.all isBlank = true) (isName : IsIdentifier n)
    (blank' : b'.all isBlank = true) : Text.trim (b ++ (n ++ b')) = n :=
  Text.strip_append blank blank'
    (Text.strip_eq_self_iff.1 (isFramed_of_isIdentifier isName).trim_eq)

theorem not_mem_around {b n b' : Text} (blank : b.all isBlank = true) (isName : IsIdentifier n)
    (blank' : b'.all isBlank = true) {a : Char} (shows : isBlank a = false)
    (mark : isIdent a = false) : a ∉ b ++ (n ++ b') := by
  have outside {w : Text} (h : w.all isBlank = true) : a ∉ w := not_mem_of_all h shows
  simp only [List.mem_append, not_or]
  exact ⟨outside blank, isName.not_mem mark, outside blank'⟩

namespace IsItem

variable {t : Text} {es : List ExportEntry}

theorem comma_not_mem (h : IsItem t es) : ',' ∉ t := by
  cases h with
  | blank blank => exact not_mem_of_all blank (by decide)
  | name blank isName blank' => exact not_mem_around blank isName blank' (by decide) (by decide)
  | renamed blank isName colon colon' isName' blank' =>
    have first := not_mem_around blank isName colon (a := ',') (by decide) (by decide)
    have second := not_mem_around colon' isName' blank' (a := ',') (by decide) (by decide)
    rw [List.mem_append, List.mem_cons]
    exact not_or.2 ⟨first, not_or.2 ⟨by decide, second⟩⟩

/-- **An item is read as it is written.** -/
theorem readEntry_eq (h : IsItem t es) :
    t.allBlank = true ∧ es = [] ∨ t.allBlank = false ∧ ∃ e, es = [e] ∧ readEntry t = .ok e := by
  have filled {b n b' : Text} (isName : IsIdentifier n) : (b ++ (n ++ b')).all isBlank = false := by
    obtain ⟨a, r, rfl, ident⟩ := isName.exists_cons
    simp [isBlank_eq_false_of_isIdent ident]
  cases h with
  | blank blank => exact Or.inl ⟨blank, rfl⟩
  | @name b n b' blank isName blank' =>
    have colon := not_mem_around blank isName blank' (a := ':') (by decide) (by decide)
    refine Or.inr ⟨filled isName, _, rfl, ?_⟩
    simp only [readEntry, Text.cut?_eq_none colon, trim_around blank isName blank',
      isIdentifier_eq_true isName]
    rfl
  | @renamed b n c c' n' b' blank isName colon colon' isName' blank' =>
    have first := not_mem_around blank isName colon (a := ':') (by decide) (by decide)
    refine Or.inr ⟨?_, _, rfl, ?_⟩
    · rw [Text.allBlank, List.all_append, filled isName]
      rfl
    · simp only [readEntry, Text.cut?_append_cons first, trim_around blank isName colon,
        trim_around colon' isName' blank', isIdentifier_eq_true isName,
        isIdentifier_eq_true isName']
      rfl

end IsItem

theorem mapM_readEntry_items {items : List (Text × List ExportEntry)}
    (h : ∀ p ∈ items, IsItem p.1 p.2) :
    ((items.map Prod.fst).filter (! ·.allBlank)).mapM readEntry = .ok (items.flatMap Prod.snd) := by
  induction items with
  | nil => rfl
  | cons p items ih =>
    obtain ⟨here, later⟩ := List.forall_mem_cons.1 h
    rw [List.map_cons, List.flatMap_cons]
    rcases here.readEntry_eq with ⟨blank, none⟩ | ⟨shows, e, one, read⟩
    · rw [List.filter_cons_of_neg (by simp [blank]), none]
      exact ih later
    · rw [List.filter_cons_of_pos (by simp [shows]), one]
      exact mapM_cons_of_eq_ok read (ih later)

/-- **A list of exports is read as it is written.** -/
theorem readEntries_of_isListing {body : Text} {entries : List ExportEntry}
    (h : IsListing body entries) : readEntries body = .ok entries := by
  obtain ⟨items, filled, isItem, uncommented, rfl⟩ := h
  have comma : ∀ t ∈ items.map Prod.fst, ',' ∉ t := fun t ht => by
    obtain ⟨p, hp, rfl⟩ := List.mem_map.1 ht
    exact (isItem p hp).comma_not_mem
  rw [readEntries, uncommented.withoutComments_eq,
    Text.splitOn_joinWith comma (mt List.map_eq_nil_iff.1 filled)]
  exact mapM_readEntry_items isItem

end Modulize.Declaration
