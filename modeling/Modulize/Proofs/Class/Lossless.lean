import Modulize.Proofs.Class.Edits
import Modulize.Proofs.Class.Function
import Modulize.Proofs.Pattern.Replacing

/-!
# What the conversion of classes keeps

The code of a class is kept (`Kept`) when its class statement occurs in the converted text, and
nothing but blanks and an optional semicolon follows the functions that are written again.
`convert_keeps_iff` says what a text has to be like for that (`Keepable`).

* No other applied edit covers the beginning of the constructor, unless the other edits happen to
  result in the class statement (`infix_iff`).
* The functions of the constructor and of the methods close their statements (`isLoose_constructor`,
  `isLoose_method`): a paragraph ends behind the brace that leads the scan out of all brackets, or a
  semicolon comes first.

Not every text is like that: a constructor that ends with a brace and a single line break swallows
the class behind it (`convert_loses_class`).
-/

namespace Modulize.Class

open Pattern Script

/-! ## Statements that are written -/

theorem head_render_comment (c : Doc.Comment) : c.render = [] ∨ ∃ r, c.render = '/' :: r := by
  unfold Doc.Comment.render
  split
  · exact Or.inl rfl
  · exact Or.inr ⟨_, rfl⟩

theorem head_header {t : Text} {s : Nat} {d : Definition} (h : ConstructorAt t s d.constructor) :
    ∃ a r, header d = a :: r ∧ isBlank a = false := by
  obtain ⟨a, r, name, ha⟩ := h.name
  have name : d.name = a :: r := name
  unfold header
  rcases head_render_comment (classDoc d) with hdoc | ⟨r', hdoc⟩
  · rcases h.binding with hb | ⟨b, r', hb, hblank⟩
    · exact ⟨a, _, by rw [hdoc, hb, name]; rfl, ha⟩
    · exact ⟨b, _, by rw [hdoc, hb]; rfl, hblank⟩
  · exact ⟨'/', _, by rw [hdoc]; rfl, by decide⟩

/-- A class statement does not begin with a blank. -/
theorem head_render {root t statement : Text} {s : Nat} {d : Definition}
    (h : ConstructorAt t s d.constructor) (hr : render root d = .ok statement) :
    ∃ a r, statement = a :: r ∧ isBlank a = false := by
  obtain ⟨a, r, header, ha⟩ := head_header h
  obtain ⟨constructor, -, hr⟩ := bind_eq_ok hr
  obtain ⟨methods, -, hr⟩ := bind_eq_ok hr
  split at hr
  · obtain rfl := Except.ok.inj hr
    exact ⟨a, _, by rw [header]; rfl, ha⟩
  · obtain rfl := Except.ok.inj hr
    exact ⟨a, _, by rw [header]; rfl, ha⟩

/-- A constructor that is written has been split. -/
theorem functionEnd_of_constructorText {root : Text} {d : Definition} {parts : List Text}
    (h : constructorText root d = .ok parts) :
    ∃ stop, functionEnd d.name d.constructor.definition = .ok stop := by
  obtain ⟨⟨params, body⟩, hsplit, -⟩ := bind_eq_ok h
  obtain ⟨-, stop, hstop, -⟩ := functionEnd_of_splitFunction hsplit
  exact ⟨stop, hstop⟩

/-- The function that a method is assigned. -/
def methodFunction (m : Member) : Text := functionAssignment.replaceFirst (fun _ => []) m.body

/-- A method that is written has been split. -/
theorem functionEnd_of_methodText {root text : Text} {d : Definition} {m : Member}
    (hm : m.kind = .method) (h : methodText root d m = .ok text) :
    ∃ stop, functionEnd m.name (methodFunction m) = .ok stop := by
  unfold methodText at h
  rw [hm] at h
  obtain ⟨⟨params, body⟩, hsplit, -⟩ := bind_eq_ok h
  obtain ⟨-, stop, hstop, -⟩ := functionEnd_of_splitFunction hsplit
  exact ⟨stop, hstop⟩

/-- The functions of a class that is written have been split. -/
theorem functionEnd_of_render {root statement : Text} {d : Definition}
    (h : render root d = .ok statement) :
    (∃ stop, functionEnd d.name d.constructor.definition = .ok stop) ∧
      ∀ m ∈ d.members, m.kind = .method →
        ∃ stop, functionEnd m.name (methodFunction m) = .ok stop := by
  obtain ⟨parts, hparts, h⟩ := bind_eq_ok h
  obtain ⟨methods, hmethods, -⟩ := bind_eq_ok h
  refine ⟨functionEnd_of_constructorText hparts, fun m hm hkind => ?_⟩
  have mem : m ∈ d.members.filter (·.kind.isMethod) :=
    List.mem_filter.2 ⟨hm, by rw [hkind]; rfl⟩
  obtain ⟨text, -, htext⟩ := exists_mem_of_mapM hmethods mem
  exact functionEnd_of_methodText hkind htext

/-! ## Functions in the text -/

/-- A character inside of a piece of a text. -/
theorem take_of_slice {t x y : Text} {a : Char} {k e : Nat} (het : e ≤ t.length)
    (h : t.slice k e = x ++ a :: y) :
    k + (x.length + 1) ≤ e ∧ t.take (k + (x.length + 1)) = (t.take k ++ x) ++ [a] ∧
      t.slice (k + (x.length + 1)) e = y := by
  have hlen : (x ++ [a]).length = x.length + 1 := by simp
  have h : t.slice k e = (x ++ [a]) ++ y := by simpa using h
  have hle : k + (x.length + 1) ≤ e := by
    have hl := congrArg List.length h
    rw [Text.length_slice het, List.length_append, hlen] at hl
    omega
  have hslice : t.slice k (k + (x.length + 1)) = x ++ [a] := by
    rw [← Text.take_slice t hle, h, ← hlen, List.take_left]
  have split := Text.slice_append_slice (t := t) (Nat.zero_le k) (Nat.le_add_right k (x.length + 1))
  rw [hslice, ← List.append_assoc] at split
  refine ⟨hle, split.symm, ?_⟩
  rw [← Text.drop_slice, h, ← hlen, List.drop_left]

/-- The function of a constructor loses nothing exactly when it closes its statement. -/
theorem isLoose_constructor {t name : Text} {s stop : Nat} {c : Constructor}
    (h : ConstructorAt t s c) (hstop : functionEnd name c.definition = .ok stop) :
    IsLoose (c.definition.drop stop) ↔ ClosesStatement IsLoose t s (s + stop) := by
  obtain ⟨x, a, f, hdef, ha, rfl⟩ := exists_of_functionEnd hstop
  obtain ⟨hlt, hle⟩ := lt_statementEnd h.ends
  -- a statement does not end with a blank, so only semicolons have been taken away
  have htrim : Text.trimEnd (t.slice s c.span.2) = t.slice s c.span.2 := by
    obtain ⟨g, b, hg, hb⟩ := slice_eq_concat (Nat.le_refl s) hlt h.ends
    have nonblank : isBlank b = false := by rcases hb with rfl | rfl <;> decide
    rw [hg]
    exact Text.dropEndWhile_concat nonblank
  have hx : Text.dropEndWhile (· == ';') (t.slice s c.span.2) = x ++ a :: f := by
    rw [← htrim, ← h.definition, hdef]
  obtain ⟨v, hv, -⟩ := Text.exists_dropEndWhile (· == ';') (t.slice s c.span.2)
  rw [hx, List.append_assoc] at hv
  obtain ⟨hqe, hw, -⟩ := take_of_slice hle hv
  have hdef' : c.definition = (x ++ [a]) ++ f := by simpa using hdef
  have hlen : (x ++ [a]).length = x.length + 1 := by simp
  have hf : c.definition.drop (x.length + 1) = f := by rw [hdef', ← hlen, List.drop_left]
  rw [hf]
  refine isLoose_constructor_iff (by omega) hqe h.ends hw ha (hx.trans ?_) (congrArg (s + ·) hlen)
  simp

theorem fits_of_kind {m : Member} (h : m.kind = .method) :
    m.body ≠ ";" ∧ functionAssignment.fits (Cursor.start m.body) = true := by
  unfold Member.kind at h
  split at h
  · split at h <;> cases h
  · rename_i hbody
    split at h
    · cases h
    · split at h
      · rename_i hfits
        exact ⟨hbody, hfits⟩
      · split at h
        · cases h
        · split at h <;> cases h

/-- A word that begins with `f` stands behind an equals sign at the beginning of a text. -/
theorem mem_ends_functionAssignment {t : Text} {d : Cursor}
    (h : d ∈ functionAssignment.ends (Cursor.start t)) :
    ∃ b b' w, b.all isBlank = true ∧ b'.all isBlank = true ∧
      t = b ++ '=' :: (b' ++ 'f' :: (w ++ d.rest)) := by
  unfold functionAssignment at h
  obtain ⟨d₁, h₁, hedge⟩ := mem_ends_seq.1 h
  obtain ⟨d₂, h₂, hword⟩ := mem_ends_seq.1 h₁
  obtain ⟨d₃, h₃, hb'⟩ := mem_ends_seq.1 h₂
  obtain ⟨d₄, h₄, hequals⟩ := mem_ends_seq.1 h₃
  obtain ⟨d₅, h₅, hb⟩ := mem_ends_seq.1 h₄
  obtain ⟨-, rfl⟩ := mem_ends_place.1 h₅
  obtain ⟨b, _, hd₅, hblank, rfl⟩ := (describes_run _ _ _).1 hb
  obtain ⟨_, _, hd₄, ⟨a, ha, rfl⟩, rfl⟩ := (describes_one _ _ _).1 hequals
  obtain ⟨b', _, hd₃, hblank', rfl⟩ := (describes_run _ _ _).1 hb'
  obtain ⟨_, rest, hd₂, rfl, rfl⟩ := (describes_literal _ _ _).1 hword
  obtain ⟨-, rfl⟩ := mem_ends_place.1 hedge
  obtain rfl := eq_of_beq ha
  simp only [Cursor.after_rest] at hd₂ hd₃ hd₄
  subst hd₂ hd₃ hd₄
  exact ⟨b, b', "unction", hblank, hblank', hd₅⟩

/-- The function of a method is a piece at the end of the statement of the member. -/
theorem exists_methodFunction {t : Text} {s : Nat} {m : Member} (h : MemberAt t s m)
    (hkind : m.kind = .method) : statementEnd t s = .ok m.span.2 ∧
      ∃ k, s ≤ k ∧ methodFunction m = t.slice k m.span.2 := by
  obtain ⟨hbody, hfits⟩ := fits_of_kind hkind
  cases h with
  | bare body _ => exact absurd body hbody
  | assigned b b' hb hb' _ ends body =>
    refine ⟨ends, ?_⟩
    cases hends : functionAssignment.ends (Cursor.start m.body) with
    | nil => exact absurd hends ((fits_iff _ _).1 hfits)
    | cons d ds =>
      have found : functionAssignment.matchAt? (Cursor.start m.body) =
          some ⟨Cursor.start m.body, d⟩ := by
        rw [matchAt?_eq_head?, hends]
        rfl
      obtain ⟨c, c', w, hc, hc', hbody'⟩ :=
        mem_ends_functionAssignment (d := d) (hends ▸ List.mem_cons_self)
      have equals : ∀ a r, a ∈ ('=' :: r : Text).head? → isBlank a = false := by
        rintro a r h
        obtain rfl := Option.some.inj h
        decide
      obtain ⟨-, htail⟩ := append_inj_of_all hb hc (fun a => equals a _) (fun a => equals a _)
        (body.symm.trans hbody')
      obtain ⟨x, -, hx⟩ := append_eq_append_cons hb' (by decide) (List.cons.inj htail).2
      have hx : t.slice s m.span.2 = (x ++ 'f' :: w) ++ d.rest := by
        rw [hx, List.append_assoc]
        rfl
      refine ⟨s + (x ++ 'f' :: w).length, Nat.le_add_right s _, ?_⟩
      rw [methodFunction, replaceFirst_nothing found, ← Text.drop_slice, hx, List.drop_left]

/-- The function of a method loses nothing exactly when it closes its statement. -/
theorem isLoose_method {t name : Text} {s stop : Nat} {m : Member} (h : MemberAt t s m)
    (hkind : m.kind = .method) (hstop : functionEnd name (methodFunction m) = .ok stop) :
    IsLoose ((methodFunction m).drop stop) ↔
      ClosesStatement IsBlankGap t s (m.span.2 - ((methodFunction m).length - stop)) := by
  obtain ⟨ends, k, hk, hfun⟩ := exists_methodFunction h hkind
  obtain ⟨x, a, f, hdef, ha, rfl⟩ := exists_of_functionEnd hstop
  obtain ⟨-, hle⟩ := lt_statementEnd ends
  obtain ⟨hqe, hw, hf⟩ := take_of_slice hle (hfun.symm.trans hdef)
  have hq : m.span.2 - ((methodFunction m).length - (x.length + 1)) = k + (x.length + 1) := by
    rw [hfun, Text.length_slice hle]
    omega
  have hdrop : (methodFunction m).drop (x.length + 1) = t.slice (k + (x.length + 1)) m.span.2 := by
    rw [hfun, Text.drop_slice]
  rw [hq, hdrop]
  exact isLoose_member_iff (by omega) hqe ends hw ha

/-! ## The conversion -/

/-- The edit that writes a class statement in place of the constructor. -/
def statementEdit (d : Definition) (statement : Text) : Edit :=
  ⟨d.constructor.span.1, d.constructor.span.2, statement⟩

theorem edits_eq_ok {root : Text} {d : Definition} {es : List Edit} (h : edits root d = .ok es) :
    ∃ statement, render root d = .ok statement ∧ statementEdit d statement ∈ es ∧
      ∀ e ∈ es, e = statementEdit d statement ∨ (∃ m ∈ d.members, e = ⟨m.span.1, m.span.2, []⟩) ∨
        ∃ s ∈ d.inheritsSpan, e = ⟨s.1, s.2, []⟩ := by
  obtain ⟨statement, hr, h⟩ := bind_eq_ok h
  obtain rfl := Except.ok.inj h
  refine ⟨statement, hr, List.mem_append_left _ List.mem_cons_self, fun e he => ?_⟩
  rcases List.mem_append.1 he with he | he
  · rcases List.mem_cons.1 he with rfl | he
    · exact Or.inl rfl
    · obtain ⟨m, hm, rfl⟩ := List.mem_map.1 he
      exact Or.inr (Or.inl ⟨m, hm, rfl⟩)
  · obtain ⟨s, hs, rfl⟩ := List.mem_map.1 he
    exact Or.inr (Or.inr ⟨s, Option.mem_toList.1 hs, rfl⟩)

theorem MemberAt.span_le {t : Text} {s : Nat} {m : Member} (h : MemberAt t s m) :
    m.span.1 ≤ m.span.2 := by
  cases h with
  | bare _ span => exact span
  | assigned _ _ _ _ start_le ends _ =>
    have := (lt_statementEnd ends).1
    omega

theorem ConstructorAt.span_lt {t : Text} {s : Nat} {c : Constructor} (h : ConstructorAt t s c) :
    c.span.1 < c.span.2 := by
  have := (lt_statementEnd h.ends).1
  have := h.start_le
  omega

/-- The conversion keeps the code of a class: its class statement occurs in the result, and nothing
but blanks and an optional semicolon follows the functions that are written again. -/
structure Kept (root out : Text) (d : Definition) : Prop where
  statement : ∃ statement, render root d = .ok statement ∧ statement <:+: out
  constructor : ∃ stop, functionEnd d.name d.constructor.definition = .ok stop ∧
    IsLoose (d.constructor.definition.drop stop)
  methods : ∀ m ∈ d.members, m.kind = .method → ∃ stop,
    functionEnd m.name (methodFunction m) = .ok stop ∧ IsLoose ((methodFunction m).drop stop)

/-- What a text has to be like for the code of a class to be kept, given all edits in order: no
other applied edit covers the beginning of the constructor, unless the other edits happen to result
in the class statement; and the functions that are written again close their statements. -/
structure Keepable (root t : Text) (es : List Edit) (d : Definition) : Prop where
  statement : ∃ statement, render root d = .ok statement ∧
    ((∀ a ∈ Edit.accepted 0 es, a.covers d.constructor.span.1 → a = statementEdit d statement) ∨
      statement <:+:
        Edit.applyFrom 0 t (Edit.accepted 0 (es.filter (· ≠ statementEdit d statement))))
  constructor : ∃ s stop, ConstructorAt t s d.constructor ∧
    functionEnd d.name d.constructor.definition = .ok stop ∧ ClosesStatement IsLoose t s (s + stop)
  methods : ∀ m ∈ d.members, m.kind = .method → ∃ s stop, MemberAt t s m ∧
    functionEnd m.name (methodFunction m) = .ok stop ∧
    ClosesStatement IsBlankGap t s (m.span.2 - ((methodFunction m).length - stop))

/-- A class statement occurs in the result exactly when it is applied, or the other edits result in
it. -/
theorem infix_iff {t statement : Text} {s : Nat} {es : List Edit} {d : Definition} {a : Char}
    {r : Text} (hd : ConstructorAt t s d.constructor) (mem : statementEdit d statement ∈ es)
    (sorted : es.Pairwise fun a b => a.start ≤ b.start) (spans : ∀ e ∈ es, e.start ≤ e.stop)
    (head : statement = a :: r) (ha : isBlank a = false) :
    statement <:+: Edit.applyFrom 0 t (Edit.accepted 0 es) ↔
      (∀ a ∈ Edit.accepted 0 es, a.covers d.constructor.span.1 → a = statementEdit d statement) ∨
      statement <:+:
        Edit.applyFrom 0 t (Edit.accepted 0 (es.filter (· ≠ statementEdit d statement))) := by
  have applied := Edit.mem_accepted_iff mem sorted spans hd.span_lt
  by_cases h : statementEdit d statement ∈ Edit.accepted 0 es
  · have gap : Edit.isGap a = false :=
      Bool.eq_false_iff.2 fun h => Bool.eq_false_iff.1 ha (Edit.isBlank_of_isGap h)
    exact iff_of_true (Edit.infix_applyFrom h head gap 0 t) (Or.inl (applied.1 h))
  · rw [Edit.accepted_filter_ne h]
    exact ⟨Or.inr, fun h' => h'.elim (fun free => absurd (applied.2 free) h) id⟩

/-- The edits of collected classes end behind their beginnings. -/
theorem span_le_of_mem_edits {root t : Text} {ds : List Definition} {all : List (List Edit)}
    (found : ∀ d ∈ ds, DefinitionAt t d) (hall : ds.mapM (edits root) = .ok all) :
    ∀ e ∈ sortBy Edit.precedes all.flatten, e.start ≤ e.stop := by
  intro e he
  obtain ⟨es, hes, he⟩ := List.mem_flatten.1 ((mem_sortBy _).1 he)
  obtain ⟨d, hd, hedits⟩ := exists_of_mem_mapM hall hes
  obtain ⟨statement, -, -, cases⟩ := edits_eq_ok hedits
  rcases cases e he with rfl | ⟨m, hm, rfl⟩ | ⟨s, hs, rfl⟩
  · obtain ⟨s, hs⟩ := (found d hd).constructorAt
    exact Nat.le_of_lt hs.span_lt
  · obtain ⟨s, hs⟩ := (found d hd).memberAt m hm
    exact hs.span_le
  · exact (found d hd).inherits s hs

theorem kept_iff {root t : Text} {ds : List Definition} {all : List (List Edit)} {d : Definition}
    (found : ∀ d ∈ ds, DefinitionAt t d) (hall : ds.mapM (edits root) = .ok all) (hd : d ∈ ds) :
    Kept root (Edit.applyFrom 0 t (Edit.accepted 0 (sortBy Edit.precedes all.flatten))) d ↔
      Keepable root t (sortBy Edit.precedes all.flatten) d := by
  obtain ⟨es, hes, hedits⟩ := exists_mem_of_mapM hall hd
  obtain ⟨statement, hr, hmem, -⟩ := edits_eq_ok hedits
  have hmem : statementEdit d statement ∈ sortBy Edit.precedes all.flatten :=
    (mem_sortBy _).2 (List.mem_flatten.2 ⟨es, hes, hmem⟩)
  obtain ⟨s, hs⟩ := (found d hd).constructorAt
  obtain ⟨a, r, head, ha⟩ := head_render hs hr
  have statement_iff := infix_iff hs hmem (Edit.sorted_starts _) (span_le_of_mem_edits found hall)
    head ha
  obtain ⟨⟨stop, hstop⟩, methods⟩ := functionEnd_of_render hr
  constructor
  · intro h
    refine ⟨⟨statement, hr, ?_⟩, ⟨s, stop, hs, hstop, ?_⟩, fun m hm hkind => ?_⟩
    · obtain ⟨statement', hr', hinfix⟩ := h.statement
      obtain rfl := Except.ok.inj (hr'.symm.trans hr)
      exact statement_iff.1 hinfix
    · obtain ⟨stop', hstop', hloose⟩ := h.constructor
      obtain rfl := Except.ok.inj (hstop'.symm.trans hstop)
      exact (isLoose_constructor hs hstop).1 hloose
    · obtain ⟨stop, hstop, hloose⟩ := h.methods m hm hkind
      obtain ⟨s, hs⟩ := (found d hd).memberAt m hm
      exact ⟨s, stop, hs, hstop, (isLoose_method hs hkind hstop).1 hloose⟩
  · intro h
    refine ⟨⟨statement, hr, ?_⟩, ?_, fun m hm hkind => ?_⟩
    · obtain ⟨statement', hr', hfree⟩ := h.statement
      obtain rfl := Except.ok.inj (hr'.symm.trans hr)
      exact statement_iff.2 hfree
    · obtain ⟨s, stop, hs, hstop, hcloses⟩ := h.constructor
      exact ⟨stop, hstop, (isLoose_constructor hs hstop).2 hcloses⟩
    · obtain ⟨s, stop, hs, hstop, hcloses⟩ := h.methods m hm hkind
      exact ⟨stop, hstop, (isLoose_method hs hkind hstop).2 hcloses⟩

/-- **When the conversion of a text keeps the code of all its classes.** -/
theorem convert_keeps_iff {root t out : Text} (h : convert root t = .ok out) :
    (∃ ds, collect root t = .ok ds ∧ ∀ d ∈ ds, Kept root out d) ↔
      ∃ ds all, collect root t = .ok ds ∧ ds.mapM (edits root) = .ok all ∧
        ∀ d ∈ ds, Keepable root t (sortBy Edit.precedes all.flatten) d := by
  obtain ⟨ds, hds, h⟩ := bind_eq_ok h
  obtain ⟨all, hall, h⟩ := bind_eq_ok h
  obtain rfl := Except.ok.inj h
  have found := collect_sound hds
  constructor
  · rintro ⟨ds', hds', kept⟩
    obtain rfl := Except.ok.inj (hds'.symm.trans hds)
    exact ⟨ds', all, hds, hall, fun d hd => (kept_iff found hall hd).1 (kept d hd)⟩
  · rintro ⟨ds', all', hds', hall', keepable⟩
    obtain rfl := Except.ok.inj (hds'.symm.trans hds)
    obtain rfl := Except.ok.inj (hall'.symm.trans hall)
    exact ⟨ds', hds, fun d hd => (kept_iff found hall hd).2 (keepable d hd)⟩

/-- The theorem for a text with one class. -/
theorem convert_keeps_iff_single :
    (∃ ds, collect "goog" "/** @constructor */\na.B = function() \x7b\n\x7d;\n" = .ok ds ∧
      ∀ d ∈ ds, Kept "goog" "a.B = class \x7b\x7d;\n" d) ↔
    ∃ ds all, collect "goog" "/** @constructor */\na.B = function() \x7b\n\x7d;\n" = .ok ds ∧
      ds.mapM (edits "goog") = .ok all ∧ ∀ d ∈ ds,
        Keepable "goog" "/** @constructor */\na.B = function() \x7b\n\x7d;\n"
          (sortBy Edit.precedes all.flatten) d :=
  convert_keeps_iff (by rfl)

/-- A text in which the function of a constructor ends with a brace and a single line break, and
another class follows. -/
def swallowing : Text :=
  "/** @constructor */\na.B = function() \x7b\n\x7d\n" ++
    "/** @constructor */\na.C = function() \x7b\x7d;\n"

/-- The conversion can lose a whole class. -/
theorem convert_loses_class : convert "goog" swallowing = .ok "a.B = class \x7b\x7d;\n" ∧
    ¬ ∃ ds, collect "goog" swallowing = .ok ds ∧
      ∀ d ∈ ds, Kept "goog" "a.B = class \x7b\x7d;\n" d := by
  refine ⟨by rfl, ?_⟩
  have lost : ∃ ds d statement, collect "goog" swallowing = .ok ds ∧ d ∈ ds ∧
      render "goog" d = .ok statement ∧ ¬ statement <:+: "a.B = class \x7b\x7d;\n".toList :=
    ⟨_, _, _, rfl, .tail _ (.head _), rfl, by decide +kernel⟩
  obtain ⟨ds, d, statement, hds, hd, hr, hlost⟩ := lost
  rintro ⟨ds', hds', kept⟩
  obtain rfl := Except.ok.inj (hds'.symm.trans hds)
  obtain ⟨statement', hr', hinfix⟩ := (kept d hd).statement
  obtain rfl := Except.ok.inj (hr'.symm.trans hr)
  exact hlost hinfix

end Modulize.Class
