import Modulize.Class.Convert
import Modulize.Proofs.Class.Parts
import Modulize.Proofs.Qualified.Spelling
import Modulize.Proofs.Script.CodeChars

/-!
# The parent constructor is called before the fields

A constructor calls its parent first (`ParentFirst`) if the first call `super(…)` that is code
(`IsParentCall`) ends before a place; the fields of the class are to begin at such a place.

What stands behind the place does not matter (`ParentFirst.behind`), since the code in front
of a stop is the same before any text (`isCode_stop`). So the fields may be put in
(`insertFields_parentFirst_iff`): they go behind a call that has been added, or behind the first
text that has the form of a call, in code or not (`IsFieldPlace`).
-/

namespace Modulize.Script

/-- The character at an offset of a text is code. -/
def IsCode (t : Text) (n : Nat) : Prop := ∃ c ∈ codeChars t 0, c.offset = n

/-- In front of a stop it does not matter for a character to be code what follows the stop. -/
theorem isCode_stop {c : Char} (stop : IsStop c) {w r : Text} (r' : Text) {n : Nat}
    (before : n < w.length) (h : IsCode (w ++ c :: r) n) : IsCode (w ++ c :: r') n := by
  obtain ⟨cs, cs', same, -, split, split'⟩ :=
    Scan.exists_codeChars_stop stop Scan.outside [] 0 w r r'
  obtain ⟨a, ha, rfl⟩ := h
  have ha : a ∈ Scan.outside.codeChars [] 0 (w ++ c :: r) := ha
  rw [split, List.mem_append] at ha
  rcases ha with ha | ha
  · obtain ⟨i, hi, rfl⟩ := List.getElem_of_mem ha
    have hi' : i < cs'.length := same.length_eq ▸ hi
    refine ⟨cs'[i], ?_, (same.get hi hi').offset⟩
    change _ ∈ Scan.outside.codeChars [] 0 (w ++ c :: r')
    rw [split']
    exact List.mem_append_left _ (List.getElem_mem hi')
  · have := Scan.le_offset_of_mem_codeChars ha
    omega

/-- What follows a closing bracket or a semicolon has no part in a group that has ended then. -/
theorem groupEnd_behind {w r : Text} {c : Char} (r' : Text) {start e : Nat}
    (h : groupEnd (w ++ c :: r) start = .ok e) (he : e ≤ w.length + 1) :
    groupEnd (w ++ c :: r') start = .ok e := by
  obtain ⟨_, _, -, last, same⟩ :=
    Scan.end?_take isEndRule_isGroupEnd sightedTo_isGroupEnd (groupEnd_eq_ok_iff.1 h)
  have cut (r : Text) : w ++ c :: r = (w ++ [c]) ++ r := by simp
  have take : (w ++ c :: r').take e = (w ++ c :: r).take e := by
    have he : e ≤ (w ++ [c]).length := by simpa using he
    rw [cut r', cut r, List.take_append_of_le_length he, List.take_append_of_le_length he]
  rw [← List.take_append_drop e (w ++ c :: r'), take]
  exact groupEnd_eq_ok_iff.2 (same _ last)

/-- A group ends behind the place where it begins. -/
theorem lt_of_groupEnd {t : Text} {start e : Nat} (h : groupEnd t start = .ok e) : start < e := by
  obtain ⟨_, _, _, _, _, rfl, -⟩ := Scan.exists_of_end? isEndRule_isGroupEnd sightedTo_isGroupEnd
    (groupEnd_eq_ok_iff.1 h)
  omega

end Modulize.Script

namespace Modulize.Class

open Pattern Script

/-! ## Calls of the parent constructor -/

/-- **A call of the parent constructor in code**: at the offset `p` the word `super`, which
continues no name, and behind any blanks the parenthesis at the offset `q`. -/
structure IsParentCall (t : Text) (p q : Nat) : Prop where
  written : ∃ x b r, t = x ++ ("super" ++ (b ++ '(' :: r)) ∧
    (∀ a ∈ x.getLast?, (isIdent a || a == '.') = false) ∧ b.all isBlank = true ∧
    p = x.length ∧ q = p + 5 + b.length
  code : ∀ n, p ≤ n → n ≤ q → IsCode t n

/-- **The parent constructor is called before the offset `k`**: the first call has ended then. -/
def ParentFirst (t : Text) (k : Nat) : Prop :=
  ∃ p q e, IsParentCall t p q ∧ (∀ p' q', IsParentCall t p' q' → q ≤ q') ∧
    groupEnd t q = .ok e ∧ e ≤ k

variable {w r : Text} {c : Char}

namespace IsParentCall

variable {t : Text} {p q : Nat}

theorem getElem?_eq (h : IsParentCall t p q) : t[q]? = some '(' := by
  obtain ⟨x, b, r, rfl, -, -, rfl, rfl⟩ := h.written
  have whole : x ++ ("super" ++ (b ++ '(' :: r)) = (x ++ "super".toList ++ b) ++ '(' :: r := by simp
  have length : (x ++ "super".toList ++ b).length = x.length + 5 + b.length := by
    have : "super".toList.length = 5 := rfl
    rw [List.length_append, List.length_append, this]
  rw [whole, ← length, List.getElem?_append_right (Nat.le_refl _), Nat.sub_self]
  rfl

/-- A call in front of a closing bracket or a semicolon is a call before any text. -/
theorem behind (mark : IsEndMark c) (r' : Text) (hq : q ≤ w.length)
    (h : IsParentCall (w ++ c :: r) p q) : IsParentCall (w ++ c :: r') p q := by
  have hlt : q < w.length := by
    refine Nat.lt_of_le_of_ne hq fun e => ?_
    have paren := h.getElem?_eq
    rw [e, List.getElem?_append_right (Nat.le_refl _), Nat.sub_self] at paren
    obtain rfl : c = '(' := Option.some.inj paren
    exact mark.not_mem (by simp)
  obtain ⟨x, b, s, split, free, blank, rfl, rfl⟩ := h.written
  have whole (s : Text) :
      x ++ ("super" ++ (b ++ '(' :: s)) = (x ++ ("super" ++ (b ++ ['(']))) ++ s := by simp
  have length : (x ++ ("super" ++ (b ++ ['(']))).length = x.length + 5 + b.length + 1 := by
    have : "super".toList.length = 5 := rfl
    simp only [List.length_append, this, List.length_singleton]
    omega
  rw [whole] at split
  obtain ⟨u, rfl⟩ : x ++ ("super".toList ++ (b ++ ['('])) <+: w :=
    List.prefix_of_prefix_length_le ⟨s, split.symm⟩ (List.prefix_append w _) (by omega)
  refine ⟨⟨x, b, u ++ c :: r', by simp, free, blank, rfl, rfl⟩, fun n hp hn => ?_⟩
  exact isCode_stop mark.isStop r' (by omega) (h.code n hp hn)

end IsParentCall

/-- What stands behind a closing bracket or a semicolon has no part in whether the parent is called
before that place. -/
theorem ParentFirst.behind (mark : IsEndMark c) (r' : Text)
    (h : ParentFirst (w ++ c :: r) (w.length + 1)) :
    ParentFirst (w ++ c :: r') (w.length + 1) := by
  obtain ⟨p, q, e, call, first, ends, he⟩ := h
  have hq : q ≤ w.length := by
    have := lt_of_groupEnd ends
    omega
  refine ⟨p, q, e, call.behind mark r' hq, fun p' q' call' => ?_, groupEnd_behind r' ends he, he⟩
  rcases Nat.le_total q q' with le | le
  · exact le
  · exact first p' q' (call'.behind mark r (Nat.le_trans le hq))

/-- No group ends behind a line break. -/
theorem parentFirst_newline_iff {x y : Text} :
    ParentFirst (x ++ '\n' :: y) (x.length + 1) ↔ ParentFirst (x ++ '\n' :: y) x.length := by
  constructor
  · rintro ⟨p, q, e, call, first, ends, he⟩
    refine ⟨p, q, e, call, first, ends, ?_⟩
    obtain ⟨z, a, s, split, closing, rfl⟩ := exists_of_groupEnd ends
    refine Nat.lt_of_le_of_ne (Nat.le_of_succ_le_succ he) fun length => ?_
    obtain ⟨-, tail⟩ := List.append_inj split length.symm
    obtain ⟨rfl, -⟩ := List.cons.inj tail
    cases closing
  · rintro ⟨p, q, e, call, first, ends, he⟩
    exact ⟨p, q, e, call, first, ends, Nat.le_succ_of_le he⟩

/-- The added call comes before everything. -/
theorem parentFirst_super (y : Text) {k : Nat} (hk : 7 ≤ k) : ParentFirst ("super();" ++ y) k := by
  have code : ∀ n, 0 ≤ n → n ≤ 5 → IsCode ("super(" ++ ')' :: []) n := by
    intro n _ hn
    have all : ∀ n < 6, n ∈ (codeChars ("super(" ++ ')' :: []) 0).map (·.offset) := by decide
    obtain ⟨a, ha, rfl⟩ := List.mem_map.1 (all n (by omega))
    exact ⟨a, ha, rfl⟩
  have call : IsParentCall ("super(" ++ ')' :: []) 0 5 :=
    ⟨⟨[], [], [')'], rfl, by simp, rfl, rfl, rfl⟩, code⟩
  have mark : IsEndMark ')' := Or.inr rfl
  have ends : groupEnd ("super(" ++ ')' :: []) 5 = .ok 7 := rfl
  refine ⟨0, 5, 7, call.behind mark (';' :: y) (by decide), fun p' q' call' => ?_,
    groupEnd_behind (';' :: y) ends (by decide), hk⟩
  obtain ⟨_, _, _, -, -, -, -, rfl⟩ := call'.written
  omega

/-! ## The fields -/

/-- Where the fields go if a text of the form of a call of the parent constructor has been found:
behind the statement that ends with the group that opens there; without fields, anywhere. -/
def IsFieldPlace (fields : List Text) (source : Text) (found : Match) (k : Nat) : Prop :=
  if fields = [] then k = source.length
  else ∃ e, groupEnd source (found.stop.offset - 1) = .ok e ∧ k = afterCall source e

/-- The first text of the form of a call, if there is one, leads the fields to a place before which
the parent constructor is called. -/
def LeadsBehindCall (fields : List Text) (source : Text) : Prop :=
  ∀ found, superCall.find? source = some found →
    ∃ k, IsFieldPlace fields source found k ∧ ParentFirst source k

/-- **The fields come behind the call of the parent constructor** exactly if no text in the source
has the form of the call, or the first one that does leads to a place behind a call in code. -/
theorem insertFields_parentFirst_iff {source body : Text} {fields : List Text}
    (h : insertFields source fields true = .ok body) :
    ∃ front back, body = front ++ (Text.joinWith ['\n'] fields ++ back) ∧
      (ParentFirst body front.length ↔ LeadsBehindCall fields source) := by
  cases inserted_of_insertFields h with
  | added missing =>
    have always : LeadsBehindCall fields source := by simp [LeadsBehindCall, missing]
    generalize (if source.isEmpty then [] else '\n' :: source) = back
    cases fields with
    | nil =>
      exact ⟨"super();", back, rfl, iff_of_true (parentFirst_super back (by decide)) always⟩
    | cons field fields =>
      have front : Text.joinWith ['\n'] ("super();".toList :: field :: fields) ++ back =
          "super();\n".toList ++ (Text.joinWith ['\n'] (field :: fields) ++ back) := by
        simp [Text.joinWith]
      rw [front]
      exact ⟨"super();\n", back, rfl, iff_of_true (parentFirst_super _ (by decide)) always⟩
  | unchanged first empty =>
    exact ⟨source, [], by simp [empty, Text.joinWith], by
      simp [LeadsBehindCall, first, IsFieldPlace, empty]⟩
  | @behind found w c r e first filled split mark ends place =>
    subst split
    have place : LeadsBehindCall fields (w ++ c :: r) ↔
        ParentFirst (w ++ c :: r) (w.length + 1) := by
      simp [LeadsBehindCall, first, IsFieldPlace, filled, ends, place]
    refine ⟨(w ++ [c]) ++ ['\n'], r, by simp, ?_⟩
    have front : ((w ++ [c]) ++ ['\n']).length = (w ++ [c]).length + 1 := by simp
    have whole (y : Text) : w ++ c :: '\n' :: y = (w ++ [c]) ++ '\n' :: y := by simp
    rw [place, front, whole, parentFirst_newline_iff, List.length_append, List.length_singleton,
      ← whole]
    exact ⟨ParentFirst.behind mark _, ParentFirst.behind mark _⟩

/-! ## Classes -/

/-- **A class that inherits calls its parent before its fields** exactly if the first text of the
form of a call in its constructor, if there is one, leads the fields behind a call in code. -/
theorem render_parentFirst_iff {root : Text} {d : Definition} {statement : Text}
    (inherits : d.superclass.isSome = true) (h : render root d = .ok statement) :
    ∃ params source signature front back methods,
      recastConstructor root d = .ok (params, source) ∧
      constructorParts root d =
        .ok (signature, front ++ (Text.joinWith ['\n'] (initializers d) ++ back)) ∧
      statement = statementOf d
        ((signature, front ++ (Text.joinWith ['\n'] (initializers d) ++ back)) :: methods) ∧
      (ParentFirst (front ++ (Text.joinWith ['\n'] (initializers d) ++ back)) front.length ↔
        LeadsBehindCall (initializers d) source) := by
  obtain ⟨⟨signature, _⟩, methods, constructor, -, written⟩ := exists_parts inherits h
  obtain ⟨params, source, recast, inserted⟩ := insertFields_of_constructorParts constructor
  obtain ⟨front, back, rfl, iff⟩ := insertFields_parentFirst_iff inserted
  exact ⟨params, source, signature, front, back, methods, recast, constructor, written, iff⟩

/-- A class with a field and a call of its parent that has no semicolon. -/
def withField : Text :=
  "/** @constructor */\na.B = function(x) \x7b\n  goog.base(this, x)\n\x7d;\n" ++
    "goog.inherits(a.B, a.A);\n\n/** @private */\na.B.prototype.y_ = 1;\n"

set_option maxRecDepth 4000 in
/-- The theorem for a class with a field. -/
theorem render_parentFirst_iff_withField :
    ∃ d statement, collect "goog" withField = .ok [d] ∧ render "goog" d = .ok statement ∧
      ∃ params source signature front back methods,
        recastConstructor "goog" d = .ok (params, source) ∧
        constructorParts "goog" d =
          .ok (signature, front ++ (Text.joinWith ['\n'] (initializers d) ++ back)) ∧
        statement = statementOf d
          ((signature, front ++ (Text.joinWith ['\n'] (initializers d) ++ back)) :: methods) ∧
        (ParentFirst (front ++ (Text.joinWith ['\n'] (initializers d) ++ back)) front.length ↔
          LeadsBehindCall (initializers d) source) :=
  ⟨_, _, rfl, rfl, render_parentFirst_iff rfl rfl⟩

/-- A class whose constructor has a call of its parent only in a comment. -/
def withNoteOnly : Text :=
  "/** @constructor */\na.B = function() \x7b\n  // calls super()\n  this.x = 1;\n\x7d;\n" ++
    "goog.inherits(a.B, a.A);\n"

set_option maxRecDepth 4000 in
/-- A call in a comment keeps the call of the parent constructor from being added. -/
theorem not_parentFirst_withNoteOnly :
    ∃ d body, collect "goog" withNoteOnly = .ok [d] ∧ d.superclass.isSome = true ∧
      constructorParts "goog" d = .ok ("constructor()", body) ∧
      render "goog" d = .ok (statementOf d [("constructor()", body)]) ∧
      ∀ k, ¬ ParentFirst body k := by
  refine ⟨_, "// calls super()\nthis.x = 1;", rfl, rfl, rfl, rfl, ?_⟩
  rintro k ⟨p, q, e, ⟨⟨x, b, r, split, -, -, rfl, rfl⟩, code⟩, -⟩
  obtain ⟨c, hc, place⟩ := code x.length (Nat.le_refl _) (by omega)
  obtain ⟨piece, split', offset⟩ := exists_of_mem_codeCharsFrom hc
  have others : ∀ c ∈ codeChars "// calls super()\nthis.x = 1;" 0,
      ¬ "super".toList <+: c.char :: c.rest := by decide
  obtain ⟨-, tail⟩ := List.append_inj (split.symm.trans split') (by omega)
  exact others c hc ⟨_, tail⟩

end Modulize.Class
