import Modulize.Proofs.Declaration.Parts
import Modulize.Proofs.Recast.Importing

/-!
# What the replacement of a require spares

The replacement of a require exchanges references for a name, puts one import statement into the
text and deletes the repetitions of the require (`Replaced`). Where the require stands is told by
its text alone, so another statement is spared if no reference is in it and the require cannot
overlap it (`Meets`): then it occurs in the text as before (`replaceRequire_spares`). For statements
on one line that end with a semicolon, it is enough that the require is no part of the other one
(`not_meets_of_not_infix`).

A plain require is a part of the one that binds the same namespace to a name. When the first is
replaced, the second loses its call (`replaceRequire_cuts_binding`).
-/

namespace Modulize

namespace Declaration

open Pattern

variable {root t : Text} {r : Require} {rs : List Require}

theorem IsRequire.name_ne_nil {target : Option Text} {keyword name s : Text}
    (h : IsRequire root target keyword name s) : name ≠ [] := by
  obtain ⟨_, _, -, -, ⟨_, _, _, -, -, ⟨⟨hne, -⟩, -⟩, -⟩, -⟩ := h
  exact hne

/-- A require that is read from a text names something, and it stands there. -/
theorem ne_nil_of_mem_requires (read : requires root t = .ok rs) (mem : r ∈ rs) :
    r.name ≠ [] ∧ ∀ h ∈ r.matched, h ≠ [] := by
  obtain ⟨m, hm, h⟩ := exists_of_mem_mapM read mem
  obtain ⟨binding, -, h⟩ := bind_eq_ok h
  obtain rfl := Except.ok.inj h
  obtain ⟨target, keyword, name, s, tail, hs, -, reading⟩ := exists_isRequire_of_mem_allMatches hm
  constructor
  · have same : m.groupText 3 = name := by
      rw [← Match.groupText_reading, reading]
      rfl
    exact same ▸ hs.name_ne_nil
  · rintro _ ⟨⟩
    have text : m.text = s ++ tail := congrArg Reading.text reading
    simp [text, hs.ne_nil]

end Declaration

namespace Recast

open Pattern Qualified Declaration

variable {root h v t u x y : Text} {r : Require} {rs : List Require} {ctx : FileContext}
  {s s' : Importing} {target : Path}

/-! ## What is deleted -/

/-- A statement is deleted with the blanks behind it and the end of its line. -/
def Deletes (h _past piece _rest new : Text) : Prop :=
  new = [] ∧ ∃ b e, b.all isSpaceOrTab = true ∧ (e = [] ∨ e = ['\n']) ∧ piece = h ++ (b ++ e)

theorem describes_removal (h : Text) : (removal h).Describes fun piece =>
    ∃ b e, b.all isSpaceOrTab = true ∧ (e = [] ∨ e = ['\n']) ∧ piece = h ++ (b ++ e) := by
  refine (((describes_literal h).seq (describes_run isSpaceOrTab)).seq
    (describes_orElse (describes_char '\n') describes_nothing)).congr fun t => ⟨?_, ?_⟩
  · rintro ⟨_, e, ⟨_, b, rfl, hb, rfl⟩, he, rfl⟩
    exact ⟨b, e, hb, he.symm, by simp⟩
  · rintro ⟨b, e, hb, he, rfl⟩
    exact ⟨_, e, ⟨_, b, rfl, hb, rfl⟩, he.symm, by simp⟩

theorem rewrites_removeStatement (hne : h ≠ []) (t : Text) :
    Rewrites (Deletes h) [] t (removeStatement t h) := by
  refine rewrites_replace (consumes_removal hne) ((describes_removal h).gives.allows ?_) t
  rintro past piece notes rest m ⟨deleted, -⟩ -
  exact ⟨rfl, deleted⟩

/-- A require statement of a text stands behind a place. -/
def IsFound (root u past h : Text) : Prop :=
  ∃ m ∈ (requireHeader root).allMatches u, m.start.past = past ∧ m.text = h

/-- Wherever it occurs in a text, a statement is one of its require statements. -/
def OnlyFound (root h u : Text) : Prop := ∀ a b, u = a ++ (h ++ b) → IsFound root u a.reverse h

/-- What is deleted is a require statement at the beginning of a line, if the statement occurs
nowhere else. -/
def DeletesFound (root u h past piece rest new : Text) : Prop :=
  Deletes h past piece rest new ∧ (OnlyFound root h u → AtBreak past ∧ IsFound root u past h)

theorem IsFound.atBreak {past : Text} (found : IsFound root u past h) : AtBreak past := by
  obtain ⟨m, hm, rfl, -⟩ := found
  exact anchored_requireHeader m.start (List.ne_nil_of_mem (mem_allMatches hm).2.2)

theorem OnlyFound.atBreak_and_isFound {a b : Text} (only : OnlyFound root h u)
    (e : u = a ++ (h ++ b)) : AtBreak a.reverse ∧ IsFound root u a.reverse h :=
  ⟨(only a b e).atBreak, only a b e⟩

/-- In the end of a text, statements of the whole text are deleted. -/
theorem rewrites_removeStatement_behind (hne : h ≠ []) {a b : Text} (e : u = a ++ b) :
    Rewrites (DeletesFound root u h) a.reverse b (removeStatement b h) := by
  refine (rewrites_removeStatement hne b).behind fun past piece rest new deletes split => ?_
  refine ⟨deletes, fun only => ?_⟩
  obtain ⟨-, b, e', -, -, rfl⟩ := deletes
  have := only.atBreak_and_isFound (a := a ++ past.reverse) (b := b ++ e' ++ rest) (by
    rw [e]
    simpa using split.symm)
  simpa using this

/-- What becomes of a text when a require is replaced. Without an import statement to be written it
stays the same, or the require is deleted wherever it stands. An import statement is left out if it
is there already, or it comes first, or it comes in the place of the require, whose repetitions are
deleted. -/
inductive Replaced (root : Text) (r : Require) (statements : List Text) (u : Text) : Text → Prop
  | same (idle : statements = [] ∨ ∃ statement ∈ statements, Text.contains statement u = true) :
      Replaced root r statements u u
  | first {statement : Text} (hs : statement ∈ statements) :
      Replaced root r statements u (statement ++ '\n' :: u)
  | deleted {h out : Text} (idle : statements = []) (hh : h ∈ r.matched)
      (pass : Rewrites (DeletesFound root u h) [] u out) : Replaced root r statements u out
  | placed {h statement a b out : Text} (hh : h ∈ r.matched) (hs : statement ∈ statements)
      (split : u = a ++ (h ++ b))
      (found : OnlyFound root h u → AtBreak a.reverse ∧ IsFound root u a.reverse h)
      (pass : Rewrites (DeletesFound root u h) (a ++ h).reverse b out) :
      Replaced root r statements u (a ++ (statement ++ out))

/-! ## One step -/

theorem replaced_placeImport {statement : Text} {statements : List Text}
    (hs : statement ∈ statements) (hh : ∀ h ∈ r.matched, h ≠ []) (u : Text) :
    Replaced root r statements u (placeImport u r.matched statement) := by
  cases matched : r.matched with
  | none =>
    simp only [placeImport]
    split
    · rename_i there
      exact .same (Or.inr ⟨statement, hs, there⟩)
    · exact .first hs
  | some h =>
    simp only [placeImport]
    split
    · exact .first hs
    · rename_i a b cut
      have split := Text.append_of_cut? cut
      rw [List.append_assoc]
      exact .placed matched hs split (·.atBreak_and_isFound split)
        (rewrites_removeStatement_behind (hh h matched) (by simpa using split))

/-- The import of a namespace exchanges its references, or none. -/
theorem replaced_addImport (hh : ∀ h ∈ r.matched, h ≠ [])
    (step : addImport ctx s r target = .ok s') :
    ∃ u, (u = s.text ∨ ∃ localName, u = replaceReferences s.text r.name localName) ∧
      Replaced root r ((writtenFor ctx s r target).map WrittenImport.statement) u s'.text := by
  obtain ⟨w, recorded, name, text⟩ := exists_written_of_addImport step
  refine ⟨w.exchange s.text, ?_, ?_⟩
  · unfold WrittenImport.exchange
    cases w.localName with
    | none => exact Or.inl rfl
    | some localName => exact Or.inr ⟨localName, by rw [name]⟩
  · rw [recorded, text]
    exact replaced_placeImport List.mem_cons_self hh _

theorem replaced_replaceRequire (root : Text) (hh : ∀ h ∈ r.matched, h ≠ [])
    (step : replaceRequire ctx s r = .ok s') :
    ∃ u, (u = s.text ∨ ∃ localName, u = replaceReferences s.text r.name localName) ∧
      Replaced root r ((writtenByRequire ctx s r).map WrittenImport.statement) u s'.text := by
  cases replacement_of_replaceRequire step with
  | passed unowned same =>
    subst same
    exact ⟨_, Or.inl rfl, .same (Or.inl (by simp [writtenByRequire, unowned]))⟩
  | redundant owner redundant bare same =>
    subst same
    exact ⟨_, Or.inl rfl, .same (Or.inl (by simp [writtenByRequire, owner, redundant]))⟩
  | @deleted _ header owner redundant matched removed =>
    subst removed
    exact ⟨_, Or.inl rfl, .deleted (by simp [writtenByRequire, owner, redundant]) matched
      (rewrites_removeStatement_behind (hh _ matched) (a := []) rfl)⟩
  | imported owner needed added =>
    simp only [writtenByRequire, owner, needed]
    exact replaced_addImport hh added

/-! ## Statements that do not overlap -/

/-- One text begins the other. -/
def Comparable (x y : Text) : Prop := x <+: y ∨ y <+: x

instance (x y : Text) : Decidable (Comparable x y) := inferInstanceAs (Decidable (_ ∨ _))

/-- A statement can overlap another one that begins a line: it begins within the other, or the other
begins on one of its lines. -/
def Meets (h v : Text) : Prop :=
  (∃ i < v.length, Comparable h (v.drop i)) ∨
    ∃ i < h.length, AtBreak (h.take i).reverse ∧ Comparable (h.drop i) v

instance (h v : Text) : Decidable (Meets h v) := inferInstanceAs (Decidable (_ ∨ _))

/-- A statement on one line, with a semicolon only at its end, meets another one that a semicolon
ends only if it is a part of it. -/
theorem not_meets_of_not_infix {p q : Text} (plain : ';' ∉ p) (line : '\n' ∉ p)
    (apart : ¬ p ++ [';'] <:+: q ++ [';']) : ¬ Meets (p ++ [';']) (q ++ [';']) := by
  have incomparable {z w : Text} (split : z ++ w = q) :
      ¬ Comparable (p ++ [';']) (w ++ [';']) := by
    have within : w ++ [';'] <:+: q ++ [';'] := by
      rw [← split, List.append_assoc]
      exact (List.suffix_append z _).isInfix
    rintro (front | front)
    · exact apart (front.isInfix.trans within)
    · rcases List.prefix_concat_iff.1 front with same | inside
      · exact apart (same ▸ within)
      · exact plain (inside.subset (by simp))
  rintro (⟨i, hi, h⟩ | ⟨i, hi, starts, h⟩)
  · rw [List.length_append, List.length_singleton] at hi
    rw [List.drop_append_of_le_length (Nat.le_of_lt_succ hi)] at h
    exact incomparable (List.take_append_drop i q) h
  · rw [List.length_append, List.length_singleton] at hi
    rw [List.take_append_of_le_length (Nat.le_of_lt_succ hi)] at starts
    rcases atBreak_reverse_iff.1 starts with first | ⟨w, break_⟩
    · have zero : i = 0 := by
        have := congrArg List.length first
        simp only [List.length_take, List.length_nil] at this
        omega
      subst zero
      exact incomparable (List.nil_append q) h
    · exact line (List.mem_of_mem_take (break_ ▸ List.mem_append_right w List.mem_cons_self))

theorem comparable_of_append_eq {a b c d : Text} (e : a ++ b = c ++ d) : Comparable a c :=
  List.prefix_or_prefix_of_prefix ⟨b, e⟩ (List.prefix_append c d)

/-- **An occurrence of a statement that does not meet another** ends before it or begins behind it,
and so do blanks that follow. -/
theorem apart_of_not_meets {a b z : Text} (apart : ¬ Meets h v) (starts : AtBreak x.reverse)
    (first : ∃ c r, v = c :: r ∧ isBlank c = false) (blanks : b.all isBlank = true)
    (e : a ++ (h ++ (b ++ z)) = x ++ (v ++ y)) :
    a.length + (h ++ b).length ≤ x.length ∨ x.length + v.length ≤ a.length := by
  rcases Nat.lt_or_ge a.length x.length with before | behind
  · left
    obtain ⟨w, rfl⟩ : a <+: x := List.prefix_of_prefix_length_le ⟨_, e⟩
      (List.prefix_append x _) (Nat.le_of_lt before)
    rw [List.append_assoc] at e
    have e := List.append_cancel_left e
    -- the other statement does not begin within this one
    have ends : h.length ≤ w.length := by
      refine Nat.le_of_not_lt fun short => apart (Or.inr ⟨w.length, short, ?_⟩)
      obtain ⟨h', rfl⟩ := List.prefix_of_prefix_length_le ⟨_, e.symm⟩ (List.prefix_append h _)
        (Nat.le_of_lt short)
      rw [List.append_assoc] at e
      rw [List.take_left, List.drop_left]
      rw [List.reverse_append] at starts
      exact ⟨starts.of_append, comparable_of_append_eq (List.append_cancel_left e)⟩
    obtain ⟨w, rfl⟩ := List.prefix_of_prefix_length_le ⟨_, e⟩ (List.prefix_append w _) ends
    rw [List.append_assoc] at e
    have e := List.append_cancel_left e
    -- nor do the blanks reach it
    have blanksEnd : b.length ≤ w.length := by
      refine Nat.le_of_not_lt fun short => ?_
      obtain ⟨b', rfl⟩ := List.prefix_of_prefix_length_le ⟨_, e.symm⟩ (List.prefix_append b _)
        (Nat.le_of_lt short)
      rw [List.append_assoc] at e
      obtain ⟨c, r, rfl, hc⟩ := first
      cases b' with
      | nil => simp at short
      | cons c' b' =>
        obtain ⟨rfl, -⟩ := List.cons.inj (List.append_cancel_left e)
        simp [hc] at blanks
    simp only [List.length_append]
    omega
  · right
    refine Nat.le_of_not_lt fun short => apart (Or.inl ?_)
    obtain ⟨w, rfl⟩ : x <+: a := List.prefix_of_prefix_length_le (List.prefix_append x _)
      ⟨_, e⟩ behind
    rw [List.append_assoc] at e
    have e := List.append_cancel_left e
    rw [List.length_append] at short
    obtain ⟨v', rfl⟩ := List.prefix_of_prefix_length_le ⟨_, e⟩ (List.prefix_append v _)
      (by omega)
    rw [List.append_assoc] at e
    refine ⟨w.length, by omega, ?_⟩
    rw [List.drop_left]
    exact comparable_of_append_eq (List.append_cancel_left e)

/-! ## What is kept -/

/-- A statement with blanks behind it, or without. -/
def Padded (h _past piece _rest _new : Text) : Prop := ∃ b, b.all isBlank = true ∧ piece = h ++ b

theorem Deletes.padded {past piece rest new : Text} (deletes : Deletes h past piece rest new) :
    Padded h past piece rest new := by
  obtain ⟨-, b, e, hb, he, rfl⟩ := deletes
  refine ⟨b ++ e, ?_, rfl⟩
  rw [List.all_append, isBlank_of_gap hb]
  rcases he with rfl | rfl
  · rfl
  · decide

/-- Where a statement is exchanged that does not meet another one, the other is kept. -/
theorem infix_of_rewrites {out : Text} (hne : h ≠ []) (apart : ¬ Meets h v)
    (first : ∃ c r, v = c :: r ∧ isBlank c = false) (starts : AtBreak x.reverse)
    (pass : Rewrites (Padded h) [] (x ++ (v ++ y)) out) : v <:+: out := by
  obtain ⟨x', y', rfl, -⟩ := exists_framed_rewrites pass
    (fun _ _ _ _ ⟨b, _, e⟩ => by simp [e, hne])
    fun past piece rest new ⟨b, blanks, e⟩ split => by
      subst e
      rw [List.append_assoc] at split
      simpa using apart_of_not_meets apart starts first blanks split
  exact ⟨x', y', by simp⟩

theorem Replaced.infix {statements : List Text} {out : Text} (hh : ∀ h ∈ r.matched, h ≠ [])
    (apart : ∀ h ∈ r.matched, ¬ Meets h v) (first : ∃ c r, v = c :: r ∧ isBlank c = false)
    (starts : AtBreak x.reverse) (replaced : Replaced root r statements (x ++ (v ++ y)) out) :
    v <:+: out := by
  generalize hu : x ++ (v ++ y) = u at replaced
  cases replaced with
  | same => exact ⟨x, y, by simp [← hu]⟩
  | @first statement => exact ⟨statement ++ '\n' :: x, y, by simp [← hu]⟩
  | @deleted h _ _ matched pass =>
    subst hu
    exact infix_of_rewrites (hh h matched) (apart h matched) first starts
      (pass.imp fun _ _ _ _ deletes => deletes.1.padded)
  | @placed h statement a b out matched _ split _ pass =>
    have pass : Rewrites (Padded h) [] (x ++ (v ++ y)) (a ++ (statement ++ out)) := by
      rw [hu, split]
      refine .append a (.swap ⟨[], rfl, (List.append_nil h).symm⟩ ?_)
      simpa using pass.imp fun _ _ _ _ deletes => deletes.1.padded
    exact infix_of_rewrites (hh h matched) (apart h matched) first starts pass

/-- No reference to a namespace is within a match or right before it. -/
def KeepsClear (name t : Text) (m : Match) : Prop :=
  ∀ k ∈ (reference name).allMatches t,
    k.stop.offset < m.start.offset ∨ m.stop.offset ≤ k.start.offset

instance (name t : Text) (m : Match) : Decidable (KeepsClear name t m) :=
  inferInstanceAs (Decidable (∀ k ∈ _, _))

/-- A match at the beginning of a line stays there when references that keep clear of it are
exchanged. -/
theorem exists_kept_replaceReferences {name : Text} {p : Pattern} {m : Match} (hne : name ≠ [])
    (hm : m ∈ p.allMatches t) (starts : AtBreak m.start.past) (clear : KeepsClear name t m)
    (l : Text) :
    ∃ x y, replaceReferences t name l = x ++ (m.text ++ y) ∧ AtBreak x.reverse := by
  have pass := rewrites_replaceReferences hne t l
  conv at pass => arg 3; rw [eq_append_of_mem_allMatches hm]
  refine exists_framed_line (by rwa [List.reverse_reverse]) pass ?_ ?_
  · rintro past piece rest new ⟨⟨stands, -⟩, -⟩
    exact stands.ne_nil hne
  · rintro _ _ rest new ⟨-, k, hk, rfl, rfl⟩
    have := clear k hk
    rw [stop_offset_of_mem_allMatches hk, stop_offset_of_mem_allMatches hm,
      (mem_allMatches hk).1.offset, (mem_allMatches hm).1.offset] at this
    rwa [List.length_reverse]

/-! ## Requires that are not at turn -/

/-- **The replacement of a require spares the others.** It exchanges references to the namespace for
a name and then statements (`Replaced`); another require statement that keeps clear of the
references, and that the statement of the replaced one does not meet, occurs in the text as before.
-/
theorem replaceRequire_spares (hroot : IsNamespace root)
    (read : Declaration.requires root t = .ok rs) (mem : r ∈ rs)
    (step : replaceRequire ctx s r = .ok s') :
    ∃ u, (∃ localName, Rewrites (fun past piece rest new =>
        StandsAt r.name past piece rest ∧ new = localName) [] s.text u) ∧
      Replaced root r ((writtenByRequire ctx s r).map WrittenImport.statement) u s'.text ∧
      ∀ m ∈ (requireHeader root).allMatches s.text, KeepsClear r.name s.text m →
        (∀ h ∈ r.matched, ¬ Meets h m.text) → m.text <:+: s'.text := by
  obtain ⟨hname, hh⟩ := ne_nil_of_mem_requires read mem
  obtain ⟨u, hu, replaced⟩ := replaced_replaceRequire root hh step
  refine ⟨u, ?_, replaced, fun m hm clear apart => ?_⟩
  · rcases hu with rfl | ⟨localName, rfl⟩
    · exact ⟨[], .refl _ _ _⟩
    · exact ⟨localName, (rewrites_replaceReferences hname _ _).imp fun _ _ _ _ h => h.1⟩
  · obtain ⟨target, keyword, name, statement, tail, hs, -, reading⟩ :=
      exists_isRequire_of_mem_allMatches hm
    have text : m.text = statement ++ tail := congrArg Reading.text reading
    have first : ∃ c l, m.text = c :: l ∧ isBlank c = false := by
      obtain ⟨c, l, rfl, hc⟩ := IsHeader.exists_cons hroot (Or.inr ⟨target, keyword, name, hs⟩)
      exact ⟨c, l ++ tail, text, isBlank_eq_false_of_isIdent hc⟩
    have starts : AtBreak m.start.past :=
      anchored_requireHeader _ (List.ne_nil_of_mem (mem_allMatches hm).2.2)
    obtain ⟨x, y, split, starts'⟩ : ∃ x y, u = x ++ (m.text ++ y) ∧ AtBreak x.reverse := by
      rcases hu with rfl | ⟨localName, rfl⟩
      · exact ⟨m.start.past.reverse, m.stop.rest, eq_append_of_mem_allMatches hm,
          by rwa [List.reverse_reverse]⟩
      · exact exists_kept_replaceReferences hname hm starts clear localName
    rw [split] at replaced
    exact replaced.infix hh apart first starts'

/-- One file provides a class. -/
def classGraph : DependencyGraph where
  owners := [("a.b.C", ⟨.here, ["p.js"]⟩)]
  provided := [(⟨.here, ["p.js"]⟩, [⟨"a.b.C", false, [], none, some .value, none⟩])]
  required := []

/-- Another file, which uses the class. -/
def classContext : FileContext := ⟨classGraph, {}, ⟨.here, ["q.js"]⟩⟩

/-- The require of the class by its name. -/
def plainRequire : Require :=
  ⟨"a.b.C", .explicit, .plain, some ("goog.require('a.b.C');" : Text)⟩

/-- A file that also requires another namespace. -/
def otherText : Text :=
  "goog.require('a.b.C');\nconst Y = goog.require('x.Y');\n[a.b.C, Y];\n"

/-- The other require keeps its place. -/
theorem replaceRequire_spares_other :
    replaceRequire classContext ⟨otherText, [], []⟩ plainRequire =
        .ok ⟨"import \x7bC\x7d from './p.js';\nconst Y = goog.require('x.Y');\n[C, Y];\n",
          ["C"], ["a.b.C"]⟩ ∧
      ("const Y = goog.require('x.Y');" : Text) <:+:
        "import \x7bC\x7d from './p.js';\nconst Y = goog.require('x.Y');\n[C, Y];\n" := by
  have read : Declaration.requires "goog" otherText =
      .ok [plainRequire, ⟨"x.Y", .explicit, .alias "Y",
        some ("const Y = goog.require('x.Y');" : Text)⟩] := by decide +kernel
  have step : replaceRequire classContext ⟨otherText, [], []⟩ plainRequire =
      .ok ⟨"import \x7bC\x7d from './p.js';\nconst Y = goog.require('x.Y');\n[C, Y];\n",
        ["C"], ["a.b.C"]⟩ := by decide +kernel
  have other : ∃ m ∈ (requireHeader "goog").allMatches otherText,
      m.text = "const Y = goog.require('x.Y');" ∧ KeepsClear "a.b.C" otherText m := by
    decide +kernel
  have apart : ¬ Meets (("goog.require('a.b.C')" : Text) ++ [';'])
      (("const Y = goog.require('x.Y')" : Text) ++ [';']) :=
    not_meets_of_not_infix (by decide) (by decide) (by decide +kernel)
  obtain ⟨m, hm, text, clear⟩ := other
  obtain ⟨u, -, -, spared⟩ := replaceRequire_spares (by decide) read List.mem_cons_self step
  have kept := spared m hm clear fun h same => by
    obtain rfl := Option.some.inj same
    rw [text]
    exact apart
  rw [text] at kept
  exact ⟨step, kept⟩

/-- A file that requires the class twice, the second time under another name. -/
def twiceText : Text :=
  "goog.require('a.b.C');\nconst X = goog.require('a.b.C');\n[a.b.C, X];\n"

/-- **A require loses its call** if the same namespace is required by its name as well: the plain
require is a part of the other one, and is deleted there. -/
theorem replaceRequire_cuts_binding :
    Declaration.requires "goog" twiceText =
        .ok [plainRequire, ⟨"a.b.C", .explicit, .alias "X",
          some ("const X = goog.require('a.b.C');" : Text)⟩] ∧
      replaceRequire classContext ⟨twiceText, [], []⟩ plainRequire =
        .ok ⟨"import \x7bC\x7d from './p.js';\nconst X = [C, X];\n", ["C"], ["a.b.C"]⟩ ∧
      ¬ ("const X = goog.require('a.b.C');" : Text) <:+:
        "import \x7bC\x7d from './p.js';\nconst X = [C, X];\n" :=
  ⟨by decide +kernel, by decide +kernel, by decide +kernel⟩

end Recast

end Modulize
