import Modulize.Proofs.Qualified.Names
import Modulize.Proofs.Recast.Silence

/-!
# Headers on lines of their own

A text is laid out (`Laid`) when some headers stand in it on lines of their own, and the texts
between them are silent. So the first occurrence of a header is where it stands
(`Laid.exists_cut`), and a layout is kept

* when text is put before it or blanks are taken away there (`Laid.prepend`, `Laid.trimStart`);
* when one header is taken away with what follows it on its line (`Laid.exists_removed`);
* by a pass over the text that keeps out of the headers and exchanges pieces gently
  (`Laid.rewrites`).
-/

namespace Modulize.Declaration

open Qualified

variable {root : Text}

theorem IsBinder.exists_cons {target s : Text} (hs : IsBinder target s) :
    ∃ a r, s = a :: r ∧ isIdent a = true := by
  obtain ⟨-, word, b₁, b₂, b₃, hw, -, -, -, -, rfl⟩ := hs
  obtain ⟨a, r, rfl, ha⟩ := (isIdentifier_of_mem_declarationWords word hw).exists_cons
  exact ⟨a, _, rfl, ha⟩

theorem IsCall.exists_cons {keyword name s : Text} (hroot : IsNamespace root)
    (hs : IsCall root keyword name s) : ∃ a r, s = a :: r ∧ isIdent a = true := by
  obtain ⟨first, gap, rest, hfirst, -, rfl⟩ := hs.exists_head
  obtain ⟨a, r, rfl, ha⟩ := (hroot first (List.mem_of_mem_head? hfirst)).exists_cons
  exact ⟨a, _, rfl, ha⟩

/-- A call begins with a spelled name that ends before a parenthesis. -/
theorem IsCall.exists_name {keyword name s : Text} (hroot : IsNamespace root)
    (word : IsIdentifier keyword) (call : IsCall root keyword name s) :
    ∃ ss p b r, Spells ss p ∧ ss ≠ [] ∧ (∀ s ∈ ss, IsIdentifier s) ∧ EndsName b '(' ∧
      s = p ++ (b ++ '(' :: r) := by
  obtain ⟨path, gap, argument, hp, hg, ⟨-, b, b₂, b₃, q, q', hb, -, -, -, -, rfl⟩, rfl⟩ := call
  refine ⟨_, _, b, _, hp.concat (segments_ne_nil root) hg keyword, by simp, fun s hs => ?_,
    ⟨hb, by decide, by decide, Or.inr (by decide)⟩, by simp; rfl⟩
  rcases List.mem_append.1 hs with hs | hs
  · exact hroot s hs
  · obtain rfl := List.mem_singleton.1 hs
    exact word

end Modulize.Declaration

namespace Modulize.Recast

open Pattern Qualified Declaration

/-- A header up to its closing parenthesis. -/
def IsHeader (root s : Text) : Prop :=
  (∃ keyword name, IsProvide root keyword name s) ∨
    ∃ target keyword name, IsRequire root target keyword name s

/-- A header on one line, with a semicolon; no define is called in it. -/
structure IsHeaderLine (root h : Text) : Prop where
  statement : ∃ s b, IsHeader root s ∧ b.all isBlank = true ∧ h = s ++ (b ++ [';'])
  oneLine : '\n' ∉ h
  definesNothing : Silent ["define"] h

/-- The usual spelling of a header. -/
theorem isHeaderLine_usual {root keyword name : Text} (hk : keyword ∈ provideWords ++ requireWords)
    (hname : IsDottedName name) (oneLine : '\n' ∉ callLine root keyword name)
    (definesNothing : Silent ["define"] (callLine root keyword name)) :
    IsHeaderLine root (callLine root keyword name) := by
  have call := isCall_usual root keyword hname
  refine ⟨⟨_, [], ?_, rfl, rfl⟩, oneLine, definesNothing⟩
  rcases List.mem_append.1 hk with hk | hk
  · exact Or.inl ⟨keyword, name, hk, call⟩
  · exact Or.inr ⟨none, keyword, name, [], _, rfl, hk, call, rfl⟩

/-- A text of some headers on lines of their own, with silent texts between them. -/
inductive Laid (root : Text) : List Text → Text → Prop
  | code {x : Text} (silent : Silent callWords x) : Laid root [] x
  | header {x h t : Text} {hs : List Text} (silent : Silent callWords x)
      (ends : AtBreak x.reverse) (line : IsHeaderLine root h) (starts : AtBreak t)
      (rest : Laid root hs t) : Laid root (h :: hs) (x ++ (h ++ t))

variable {root h t x y : Text} {hs : List Text}

/-! ## Headers -/

namespace IsHeader

variable {s : Text}

/-- A header begins with an identifier character. -/
theorem exists_cons (hroot : IsNamespace root) (hs : IsHeader root s) :
    ∃ a r, s = a :: r ∧ isIdent a = true := by
  rcases hs with ⟨keyword, name, -, call⟩ | ⟨target, keyword, name, opening, call, ho, -, hc, rfl⟩
  · exact IsCall.exists_cons hroot call
  · cases target with
    | none =>
      obtain rfl : opening = [] := ho
      exact IsCall.exists_cons hroot hc
    | some target =>
      obtain ⟨a, r, rfl, ha⟩ := IsBinder.exists_cons ho
      exact ⟨a, _, rfl, ha⟩

/-- There is a call in a header. -/
theorem not_silent (hs : IsHeader root s) (x y : Text) : ¬ Silent callWords (x ++ (s ++ y)) := by
  intro silent
  rcases hs with ⟨keyword, name, hk, call⟩ | ⟨target, keyword, name, opening, call, -, hk, hc, rfl⟩
  · exact silent.not_isCall (mem_callWords_of_provide hk) (isIdentifier_of_mem_provideWords _ hk)
      call
  · rw [List.append_assoc, ← List.append_assoc] at silent
    exact silent.not_isCall (mem_callWords_of_require hk) (isIdentifier_of_mem_requireWords _ hk) hc

/-- A header begins with a spelled name that is not declared there. -/
theorem exists_name (hroot : IsNamespace root) (hs : IsHeader root s) :
    ∃ ss p b c r, Spells ss p ∧ ss ≠ [] ∧ (∀ s ∈ ss, IsIdentifier s) ∧ EndsName b c ∧
      c ≠ '=' ∧ c ≠ ';' ∧ s = p ++ (b ++ c :: r) := by
  rcases hs with ⟨keyword, name, hk, call⟩ | ⟨target, keyword, name, opening, call, ho, hk, hc, rfl⟩
  · obtain ⟨ss, p, b, r, hp, hne, words, ends, rfl⟩ :=
      call.exists_name hroot (isIdentifier_of_mem_provideWords _ hk)
    exact ⟨ss, p, b, '(', r, hp, hne, words, ends, by decide, by decide, rfl⟩
  cases target with
  | none =>
    obtain rfl : opening = [] := ho
    obtain ⟨ss, p, b, r, hp, hne, words, ends, rfl⟩ :=
      hc.exists_name hroot (isIdentifier_of_mem_requireWords _ hk)
    exact ⟨ss, p, b, '(', r, hp, hne, words, ends, by decide, by decide, rfl⟩
  | some target =>
    obtain ⟨ht, word, b₁, b₂, b₃, hw, hne, hb₁, -, -, rfl⟩ := ho
    have words : ∀ s ∈ [word], IsIdentifier s :=
      List.forall_mem_singleton.2 (isIdentifier_of_mem_declarationWords word hw)
    obtain ⟨a, r, rfl, blank, dot⟩ := ht.exists_cons
    have first : a = '{' ∨ isIdent a = true := by
      rcases ht with ⟨inner, -, e⟩ | ht
      · exact Or.inl (List.cons.inj e).1
      · exact Or.inr (Bool.and_eq_true_iff.1 ht.2).1
    have other {c : Char} (hc : isIdent c = false) (brace : c ≠ '{') : a ≠ c := by
      rintro rfl
      exact first.elim brace fun ha => nomatch ha.symm.trans hc
    exact ⟨[word], word, b₁, a, _, .last word, by simp, words, ⟨hb₁, blank, dot, Or.inl hne⟩,
      other (by decide) (by decide), other (by decide) (by decide), by simp; rfl⟩

end IsHeader

namespace IsHeaderLine

theorem exists_cons (hroot : IsNamespace root) (hh : IsHeaderLine root h) :
    ∃ a r, h = a :: r ∧ isIdent a = true := by
  obtain ⟨s, b, hs, -, rfl⟩ := hh.statement
  obtain ⟨a, r, rfl, ha⟩ := hs.exists_cons hroot
  exact ⟨a, _, rfl, ha⟩

theorem exists_concat (hh : IsHeaderLine root h) : ∃ r, h = r ++ [';'] := by
  obtain ⟨s, b, -, -, rfl⟩ := hh.statement
  exact ⟨s ++ b, by simp⟩

theorem ne_nil (hh : IsHeaderLine root h) : h ≠ [] := by
  obtain ⟨r, rfl⟩ := hh.exists_concat
  simp

theorem not_silent (hh : IsHeaderLine root h) (x y : Text) :
    ¬ Silent callWords (x ++ (h ++ y)) := by
  obtain ⟨s, b, hs, -, rfl⟩ := hh.statement
  rw [List.append_assoc]
  exact hs.not_silent _ _

/-- A header does not begin with a line break. -/
theorem not_atBreak (hh : IsHeaderLine root h) (t : Text) : ¬ AtBreak (h ++ t) :=
  not_atBreak_append hh.oneLine hh.ne_nil

/-- A header does not begin within a silent text before the end of a line. -/
theorem not_prefix_of_silent (hh : IsHeaderLine root h) (silent : Silent callWords x)
    (ends : AtBreak x.reverse) (hne : x ≠ []) (t : Text) : ¬ h <+: x ++ t := by
  intro front
  rcases List.prefix_or_prefix_of_prefix front (List.prefix_append x t) with ⟨y, rfl⟩ | beyond
  · exact hh.not_silent [] y silent
  · refine hh.oneLine (beyond.subset ?_)
    obtain ⟨a, r, e⟩ := List.exists_cons_of_ne_nil (l := x.reverse) (by simpa using hne)
    obtain rfl := ends a (by simp [e])
    rw [← List.mem_reverse, e]
    exact List.mem_cons_self

/-- A header does not begin within another one, unless it is a part of it. -/
theorem not_prefix_of_not_infix (hh : IsHeaderLine root h) {h' h₁ h₂ : Text} (e : h' = h₁ ++ h₂)
    (apart : ¬ h <:+: h') (starts : AtBreak t) : ¬ h <+: h₂ ++ t := by
  intro front
  rcases prefix_or_of_prefix_append front starts with ⟨y, rfl⟩ | beyond
  · exact apart ⟨h₁, y, by simp [e]⟩
  · exact hh.oneLine (beyond.subset (by simp))

end IsHeaderLine

/-! ## Layouts -/

namespace Laid

theorem lines (laid : Laid root hs t) : ∀ h ∈ hs, IsHeaderLine root h := by
  induction laid with
  | code => simp
  | header _ _ line _ _ ih => exact List.forall_mem_cons.2 ⟨line, ih⟩

/-- Without headers a text is silent. -/
theorem silent (laid : Laid root [] t) : Silent callWords t := by
  cases laid
  assumption

/-- A silent text can be put before it, as lines of its own or before the end of a line. -/
theorem prepend (laid : Laid root hs t) (silent : Silent callWords x)
    (between : AtBreak x.reverse ∨ AtBreak t) : Laid root hs (x ++ t) := by
  cases laid with
  | code hy => exact .code (silent.append hy)
  | @header y _ _ _ hy hends line starts rest =>
    rw [← List.append_assoc]
    refine .header (silent.append hy) ?_ line starts rest
    by_cases hne : y = []
    · subst hne
      rw [List.append_nil]
      exact between.resolve_right (line.not_atBreak _)
    · exact atBreak_reverse_append hne hends

theorem trimStart (hroot : IsNamespace root) (laid : Laid root hs t) :
    Laid root hs t.trimStart := by
  cases laid with
  | code hy =>
    rw [← List.takeWhile_append_dropWhile (p := isBlank) (l := t)] at hy
    exact .code hy.of_append
  | @header y h r _ hy hends line starts rest =>
    obtain ⟨a, h', e, ha⟩ := line.exists_cons hroot
    have first : (h ++ r).trimStart = h ++ r := by
      rw [e]
      exact dropWhile_eq_self (isBlank_eq_false_of_isIdent ha) _
    rcases dropWhile_eq_nil_or y with blank | ⟨w, b, y', rfl, hw, hb, -⟩
    · rw [Text.trimStart, dropWhile_blanks_append blank, ← Text.trimStart, first]
      exact .header (x := []) trivial atBreak_nil line starts rest
    · rw [Text.trimStart, List.append_assoc, dropWhile_blanks_append hw, List.cons_append,
        dropWhile_eq_self hb, ← List.cons_append]
      rw [List.reverse_append] at hends
      exact .header hy.of_append (AtBreak.of_append hends) line starts rest

/-- A line break at the beginning can be taken away. -/
theorem tail (laid : Laid root hs ('\n' :: t)) : Laid root hs t := by
  generalize e : '\n' :: t = whole at laid
  cases laid with
  | code hy =>
    subst e
    exact .code (Silent.of_append (x := ['\n']) hy)
  | @header y h r _ hy hends line starts rest =>
    cases y with
    | nil => exact absurd (e ▸ atBreak_newline t) (line.not_atBreak r)
    | cons a y =>
      obtain ⟨-, rfl⟩ := List.cons.inj e
      rw [List.reverse_cons] at hends
      exact .header (Silent.of_append (x := [a]) hy) (AtBreak.of_append hends) line starts rest

end Laid

/-! ## Taking a header away -/

/-- Of some headers none is a part of another. -/
def Apart (hs : List Text) : Prop := hs.Pairwise fun h h' => ¬ h <:+: h' ∧ ¬ h' <:+: h

instance (hs : List Text) : Decidable (Apart hs) := inferInstanceAs (Decidable (hs.Pairwise _))

/-- The second list is the first one without one member. -/
def Without (h : Text) (hs hs' : List Text) : Prop :=
  ∃ hs₁ hs₂, hs = hs₁ ++ h :: hs₂ ∧ hs' = hs₁ ++ hs₂

theorem Apart.perm {hs' : List Text} (apart : Apart hs) (perm : hs.Perm hs') : Apart hs' :=
  (perm.pairwise_iff fun h => ⟨h.2, h.1⟩).1 apart

/-- The headers that are left when one of them has been taken away. -/
theorem Without.perm {h : Text} {hs' : List Text} (without : Without h hs hs') :
    hs.Perm (h :: hs') := by
  obtain ⟨hs₁, hs₂, rfl, rfl⟩ := without
  exact List.perm_middle

theorem Apart.not_infix {hs₁ hs₂ : List Text} (apart : Apart (hs₁ ++ h :: hs₂)) {h' : Text}
    (mem : h' ∈ hs₁ ++ hs₂) : ¬ h <:+: h' := by
  obtain ⟨-, behind, across⟩ := List.pairwise_append.1 apart
  rcases List.mem_append.1 mem with mem | mem
  · exact (across h' mem h List.mem_cons_self).2
  · exact ((List.pairwise_cons.1 behind).1 h' mem).1

theorem cut?_append {a rest : Text}
    (none : ∀ a₁ a₂, a = a₁ ++ a₂ → a₂ ≠ [] → ¬ h <+: a₂ ++ rest) :
    Text.cut? h (a ++ rest) = (Text.cut? h rest).map fun (x, y) => (a ++ x, y) := by
  induction a with
  | nil => simp
  | cons c a ih =>
    have here : Text.startsWith h (c :: (a ++ rest)) = false := by
      rw [Text.startsWith, ← Bool.not_eq_true, List.isPrefixOf_iff_prefix]
      exact none [] (c :: a) rfl (by simp)
    rw [List.cons_append, Text.cut?, here, ih fun a₁ a₂ e => none (c :: a₁) a₂ (by simp [e])]
    simp [Function.comp_def]

theorem cut?_self (hne : h ≠ []) (t : Text) : Text.cut? h (h ++ t) = some ([], t) := by
  obtain ⟨a, r, rfl⟩ := List.exists_cons_of_ne_nil hne
  have here : Text.startsWith (a :: r) (a :: (r ++ t)) = true := by
    rw [Text.startsWith, List.isPrefixOf_iff_prefix]
    exact List.prefix_append (a :: r) t
  rw [List.cons_append, Text.cut?, here]
  simp

theorem not_infix_append {x t : Text}
    (none : ∀ a₁ a₂, x = a₁ ++ a₂ → a₂ ≠ [] → ¬ h <+: a₂ ++ t) (ht : ¬ h <:+: t) :
    ¬ h <:+: x ++ t := by
  rintro ⟨a, b, e⟩
  rw [List.append_assoc] at e
  rcases List.append_eq_append_iff.1 e with ⟨x₂, rfl, e'⟩ | ⟨a', rfl, rfl⟩
  · by_cases hne : x₂ = []
    · subst hne
      exact ht ⟨[], b, e'⟩
    · exact none a x₂ rfl hne ⟨b, e'⟩
  · exact ht ⟨a', b, List.append_assoc a' h b⟩

namespace Laid

/-- **A header occurs first where it stands**, and what follows it can be laid out anew. -/
theorem exists_cut (laid : Laid root hs t) (hh : IsHeaderLine root h) (mem : h ∈ hs)
    (apart : Apart hs) : ∃ hs₁ hs₂ a b, hs = hs₁ ++ h :: hs₂ ∧ t = a ++ (h ++ b) ∧
      Text.cut? h t = some (a, b) ∧ AtBreak b ∧ Laid root hs₂ b ∧
      ∀ b', Laid root hs₂ b' → Laid root (hs₁ ++ hs₂) (a ++ b') := by
  induction laid with
  | code => cases mem
  | @header x h' t hs silent ends line starts rest ih =>
    have chunk : ∀ a₁ a₂, x = a₁ ++ a₂ → a₂ ≠ [] → ∀ r, ¬ h <+: a₂ ++ r := by
      rintro a₁ a₂ rfl hne r
      rw [List.reverse_append] at ends
      exact hh.not_prefix_of_silent silent.of_append (AtBreak.of_append ends) hne r
    by_cases same : h' = h
    · subst same
      refine ⟨[], hs, x, t, rfl, rfl, ?_, starts, rest,
        fun b' hb' => hb'.prepend silent (Or.inl ends)⟩
      rw [cut?_append fun a₁ a₂ e hne => chunk a₁ a₂ e hne _, cut?_self hh.ne_nil]
      simp
    · have mem : h ∈ hs := (List.mem_cons.1 mem).resolve_left (Ne.symm same)
      obtain ⟨first, others⟩ := List.pairwise_cons.1 apart
      obtain ⟨hs₁, hs₂, a, b, rfl, rfl, cut, hb, laid, anew⟩ := ih mem others
      refine ⟨h' :: hs₁, hs₂, x ++ (h' ++ a), b, rfl, by simp, ?_, hb, laid, fun b' hb' => ?_⟩
      · have within : ∀ a₁ a₂, h' = a₁ ++ a₂ → a₂ ≠ [] → ¬ h <+: a₂ ++ (a ++ (h ++ b)) :=
          fun a₁ a₂ e _ => hh.not_prefix_of_not_infix e (first h mem).2 starts
        rw [cut?_append fun a₁ a₂ e hne => chunk a₁ a₂ e hne _, cut?_append within, cut]
        simp
      · rw [List.append_assoc, List.append_assoc]
        refine .header silent ends line ?_ (anew b' hb')
        cases a with
        | nil => exact absurd starts (hh.not_atBreak b)
        | cons c a => exact starts

/-- A header that is part of none of those laid out does not occur. -/
theorem not_infix (laid : Laid root hs t) (hh : IsHeaderLine root h)
    (apart : ∀ h' ∈ hs, ¬ h <:+: h') : ¬ h <:+: t := by
  induction laid with
  | code silent =>
    rintro ⟨a, b, rfl⟩
    rw [List.append_assoc] at silent
    exact hh.not_silent a b silent
  | @header x h' t hs silent ends line starts rest ih =>
    refine not_infix_append (fun a₁ a₂ e hne => ?_) (not_infix_append (fun a₁ a₂ e _ => ?_)
      (ih fun h₁ hm => apart h₁ (List.mem_cons_of_mem _ hm)))
    · subst e
      rw [List.reverse_append] at ends
      exact hh.not_prefix_of_silent silent.of_append (AtBreak.of_append ends) hne _
    · exact hh.not_prefix_of_not_infix e (apart h' List.mem_cons_self) starts

end Laid

/-! ## Deleting statements -/

/-- The pattern by which a statement is deleted, with the end of its line. -/
def removal (h : Text) : Pattern := literal h ++ spacesOrTabs ++ optional (one (· == '\n'))

theorem removeStatement_eq_erase (t h : Text) : removeStatement t h = (removal h).erase t := rfl

theorem ends_removal_eq_nil {c : Cursor} (none : ¬ h <+: c.rest) : (removal h).ends c = [] := by
  refine List.eq_nil_iff_forall_not_mem.2 fun d hd => none ?_
  simp only [removal, mem_ends_seq] at hd
  obtain ⟨_, ⟨_, hs, -⟩, -⟩ := hd
  obtain ⟨piece, rest, e, rfl, -⟩ := (describes_literal h _ _).1 hs
  exact ⟨rest, e.symm⟩

/-- Where a statement does not occur, none is deleted. -/
theorem removeStatement_eq_self (none : ¬ h <:+: t) : removeStatement t h = t := by
  have absent : (removal h).occursIn t = false := by
    refine occursIn_eq_false_of_ends fun x y d e hd => ?_
    rw [ends_removal_eq_nil fun ⟨r, hr⟩ => none ⟨x, r, by rw [List.append_assoc, hr, e]⟩] at hd
    exact List.not_mem_nil hd
  rw [removeStatement_eq_erase, erase, replace, allMatches_eq_nil absent, rebuild]

theorem ends_spacesOrTabs {c : Cursor} (h : AtBreak c.rest) : spacesOrTabs.ends c = [c] := by
  obtain ⟨past, offset, rest, groups⟩ := c
  cases rest with
  | nil => rfl
  | cons a rest =>
    obtain rfl := h a rfl
    rfl

/-- What is deleted where a statement ends a line. -/
theorem exists_ends_removal {c : Cursor} {b : Text} (hc : c.rest = h ++ b) (hb : AtBreak b) :
    ∃ e b' d ds, b = e ++ b' ∧ (e = [] ∨ e = ['\n']) ∧ d.rest = b' ∧ c.Reads (h ++ e) d ∧
      (removal h).ends c = d :: ds := by
  have reads : c.Reads h (c.after h b) := Cursor.reads_after hc
  have first : ((literal h ++ spacesOrTabs).ends c).head? = some (c.after h b) := by
    cases hends : (literal h).ends c with
    | nil =>
      have : c.after h b ∈ (literal h).ends c := (describes_literal h _ _).2 ⟨h, b, hc, rfl, rfl⟩
      simp [hends] at this
    | cons d ds =>
      obtain ⟨s, rest, e, hs, rfl⟩ := (describes_literal h c d).1 (hends ▸ List.mem_cons_self)
      rw [hs] at e hends
      obtain rfl : b = rest := List.append_cancel_left (hc.symm.trans e)
      change (((literal h).ends c).flatMap spacesOrTabs.ends).head? = _
      rw [hends, List.flatMap_cons, ends_spacesOrTabs hb]
      rfl
  have total (e : Cursor) : (optional (one (· == '\n'))).ends e ≠ [] := by simp [ends_optional]
  have all := head?_ends_seq (a := literal h ++ spacesOrTabs) (c := c) total
  rw [first, Option.bind_some] at all
  cases b with
  | nil =>
    obtain ⟨ds, hds⟩ := List.head?_eq_some_iff.1 (all.trans rfl)
    exact ⟨[], [], c.after h [], ds, rfl, Or.inl rfl, rfl, by simpa using reads, hds⟩
  | cons a b =>
    obtain rfl := hb a rfl
    obtain ⟨ds, hds⟩ := List.head?_eq_some_iff.1 (all.trans rfl)
    refine ⟨['\n'], b, _, ds, rfl, Or.inr rfl, rfl, reads.trans ⟨rfl, rfl, rfl⟩, hds⟩

theorem consumes_removal (hne : h ≠ []) : (removal h).Consumes := by
  intro c d hd
  simp only [removal, mem_ends_seq] at hd
  obtain ⟨_, ⟨_, hs, hsp⟩, ho⟩ := hd
  obtain ⟨s, rest, -, rfl, rfl⟩ := (describes_literal h _ _).1 hs
  obtain ⟨p, hp⟩ := reads_of_mem_ends hsp
  obtain ⟨q, hq⟩ := reads_of_mem_ends ho
  have := List.length_pos_iff.2 hne
  rw [hq.offset, hp.offset, Cursor.after_offset]
  omega

/-- A statement that occurs once and stands at the end of a line is deleted with the line break. -/
theorem exists_removeStatement {a b : Text} (hne : h ≠ [])
    (before : ∀ a₁ a₂, a = a₁ ++ a₂ → a₂ ≠ [] → ¬ h <+: a₂ ++ (h ++ b)) (behind : ¬ h <:+: b)
    (hb : AtBreak b) : ∃ e b', b = e ++ b' ∧ (e = [] ∨ e = ['\n']) ∧
      removeStatement (a ++ (h ++ b)) h = a ++ b' := by
  have consumes := consumes_removal hne
  obtain ⟨e, b', d, ds, rfl, he, rfl, reads, hends⟩ := exists_ends_removal
    (c := ⟨a.reverse ++ [], 0 + a.length, h ++ b, []⟩) rfl hb
  have front : (removal h).replaceAt (fun _ => []) [] 0 (a ++ (h ++ (e ++ d.rest))) =
      a ++ (removal h).replaceAt (fun _ => []) (a.reverse ++ []) (0 + a.length)
        (h ++ (e ++ d.rest)) :=
    replaceAt_append_of_none _ fun a₁ a₂ split hne => ends_removal_eq_nil (before a₁ a₂ split hne)
  have later : ∀ past offset,
      (removal h).replaceAt (fun _ => []) past offset (d.rest ++ []) = d.rest := by
    intro past offset
    rw [replaceAt_append_of_none, replaceAt_nil _ consumes, List.append_nil]
    refine fun a₁ a₂ split _ => ends_removal_eq_nil fun ⟨r, hr⟩ => behind ⟨e ++ a₁, r, ?_⟩
    simp only [List.append_nil] at hr
    simp [split, ← hr]
  simp only [List.append_nil] at later
  refine ⟨e, d.rest, rfl, he, ?_⟩
  rw [← List.append_assoc h] at hends reads front ⊢
  rw [replaceAt_of_match _ consumes hends reads, later] at front
  exact front

/-- Before the first occurrence a text does not begin. -/
theorem not_prefix_of_cut? {s a b : Text} (cut : Text.cut? s t = some (a, b)) {a₁ a₂ r : Text}
    (e : a = a₁ ++ a₂) (hne : a₂ ≠ []) (ht : t = a₁ ++ r) : ¬ s <+: r := by
  induction t generalizing a a₁ with
  | nil =>
    unfold Text.cut? at cut
    split at cut
    · obtain ⟨rfl, -⟩ := Prod.mk.inj (Option.some.inj cut)
      exact absurd (List.append_eq_nil_iff.1 e.symm).2 hne
    · cases cut
  | cons c t ih =>
    unfold Text.cut? at cut
    split at cut
    · obtain ⟨rfl, -⟩ := Prod.mk.inj (Option.some.inj cut)
      exact absurd (List.append_eq_nil_iff.1 e.symm).2 hne
    · rename_i here
      obtain ⟨⟨a', b'⟩, later, e'⟩ := Option.map_eq_some_iff.1 cut
      obtain ⟨rfl, rfl⟩ := Prod.mk.inj e'
      cases a₁ with
      | nil =>
        obtain rfl : c :: t = r := ht
        rwa [Text.startsWith, List.isPrefixOf_iff_prefix] at here
      | cons d a₁ => exact ih later (List.cons.inj e).2 (List.cons.inj ht).2

namespace Laid

/-- **The first occurrence of a header** is taken away with the blanks behind it. -/
theorem exists_removeFirst (hroot : IsNamespace root) (laid : Laid root hs t)
    (hh : IsHeaderLine root h) (mem : h ∈ hs) (apart : Apart hs) :
    ∃ hs', Without h hs hs' ∧ Laid root hs' (removeFirst t h) := by
  obtain ⟨hs₁, hs₂, a, b, rfl, -, cut, -, laid, anew⟩ := laid.exists_cut hh mem apart
  refine ⟨_, ⟨hs₁, hs₂, rfl, rfl⟩, ?_⟩
  rw [removeFirst, cut]
  exact anew _ (laid.trimStart hroot)

/-- **A statement takes the place of a header.** -/
theorem exists_placeImport (laid : Laid root hs t) (hh : IsHeaderLine root h) (mem : h ∈ hs)
    (apart : Apart hs) {statement : Text} (silent : Silent callWords statement) :
    ∃ hs', Without h hs hs' ∧ Laid root hs' (placeImport t (some h) statement) := by
  obtain ⟨hs₁, hs₂, a, b, rfl, -, cut, hb, laid, anew⟩ := laid.exists_cut hh mem apart
  refine ⟨_, ⟨hs₁, hs₂, rfl, rfl⟩, ?_⟩
  have behind : ¬ h <:+: b := laid.not_infix hh fun h' hm =>
    apart.not_infix (List.mem_append_right _ hm)
  simp only [placeImport, cut, removeStatement_eq_self behind]
  rw [List.append_assoc]
  exact anew _ (laid.prepend silent (Or.inr hb))

/-- A header is taken away with the end of its line. -/
theorem exists_removeStatement (laid : Laid root hs t) (hh : IsHeaderLine root h) (mem : h ∈ hs)
    (apart : Apart hs) : ∃ hs', Without h hs hs' ∧ Laid root hs' (removeStatement t h) := by
  obtain ⟨hs₁, hs₂, a, b, rfl, rfl, cut, hb, laid, anew⟩ := laid.exists_cut hh mem apart
  refine ⟨_, ⟨hs₁, hs₂, rfl, rfl⟩, ?_⟩
  have behind : ¬ h <:+: b := laid.not_infix hh fun h' hm =>
    apart.not_infix (List.mem_append_right _ hm)
  have before : ∀ a₁ a₂, a = a₁ ++ a₂ → a₂ ≠ [] → ¬ h <+: a₂ ++ (h ++ b) := fun a₁ a₂ e hne =>
    not_prefix_of_cut? cut e hne (by rw [e, List.append_assoc])
  obtain ⟨e, b', rfl, he, removed⟩ := Recast.exists_removeStatement hh.ne_nil before behind hb
  rw [removed]
  refine anew b' ?_
  rcases he with rfl | rfl
  · exact laid
  · exact laid.tail

end Laid

end Modulize.Recast
