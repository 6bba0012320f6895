import Modulize.Class.ParentCall
import Modulize.Proofs.Class.Delegation
import Modulize.Proofs.Pattern.Sweeps

/-!
# Sweeps that recast calls to the parent

To write the calls of one form with `super` is a sweep over a text (`Recasts`). In the place of a
piece that continues no name it writes the word `super`, perhaps with a member, and a parenthesis
(`IsRecast`).

Such a sweep creates no delegation: one that stands in the text behind it has stood in the text
before it, and the form had no reading there (`exists_source`). None begins within the text that is
written (`IsRecast.inner`), and none contains it (`Delegation.not_super`). One that follows it
directly would have stood behind the word `this`, which is excluded for the text that is swept; a
sweep leaves it excluded (`infix_of_sweeps`).

So the delegations that are left behind all forms stand in the source, and no form handles them
(`recast_survivors`).
-/

namespace Modulize.Class

open Pattern Qualified Script Way

/-- The piece that is read behind `past` (in reverse) may be exchanged for the new one: it continues
no name and ends where none goes on, or with the word `this`; and the new one is the beginning of a
call of `super` or of a member of it that the piece names. -/
structure IsRecast (past piece _rest new : Text) : Prop where
  guarded : Guarded past
  begins : ∃ a r, piece = a :: r ∧ isIdent a = true
  behind : Guarded piece.reverse ∨ "this".toList <:+ piece
  written : ∃ mid tail, new = "super" ++ (mid ++ '(' :: tail) ∧
    (mid = [] ∨ ∃ m, mid = '.' :: m ∧ m.all isIdent = true ∧ m <:+: piece) ∧
    (tail = [] ∨ tail = "...")

/-! ## The text that is written -/

namespace IsRecast

variable {past piece rest new : Text}

theorem exists_super (h : IsRecast past piece rest new) :
    ∃ c s, new = "super".toList ++ c :: s ∧ isIdent c = false := by
  obtain ⟨mid, tail, rfl, hmid, -⟩ := h.written
  rcases hmid with rfl | ⟨m, rfl, -, -⟩
  · exact ⟨'(', tail, rfl, by decide⟩
  · exact ⟨'.', m ++ '(' :: tail, rfl, by decide⟩

/-- Within the text that is written, an identifier character continues a name. -/
theorem inner (h : IsRecast past piece rest new) {n r : Text} {a : Char} (split : new = n ++ a :: r)
    (hn : n ≠ []) (ha : isIdent a = true) : ¬ Guarded n.reverse := by
  intro guarded
  have edge {x : Text} {b : Char} (e : n = x ++ [b]) : (isIdent b || b == '.') = false :=
    guarded b (by simp [e])
  have within {s x y z : Text} (hs : s.all isIdent = true) (hx : x ≠ []) (e : n = z ++ x)
      (split : s = x ++ y) : False := by
    obtain ⟨x', b, rfl, hb⟩ := exists_concat_of_all hs hx split
    have := edge (x := z ++ x') (b := b) (by simp [e])
    rw [hb] at this
    cases this
  obtain ⟨mid, tail, rfl, hmid, htail⟩ := h.written
  have others : a ∉ '(' :: tail := by
    have none : (('(' :: tail).all fun c => ! isIdent c) = true := by
      rcases htail with rfl | rfl <;> decide
    exact not_mem_of_all none (by simp [ha])
  have super : ("super" : Text).all isIdent = true := by decide
  rcases List.append_eq_append_iff.1 split with ⟨u, rfl, e⟩ | ⟨u, e, -⟩
  · rcases hmid with rfl | ⟨m, rfl, hm, -⟩
    · exact others (by rw [List.nil_append] at e; simp [e])
    · cases u with
      | nil =>
        obtain ⟨rfl, -⟩ := List.cons.inj e
        cases ha
      | cons b u =>
        obtain ⟨rfl, e⟩ : '.' = b ∧ m ++ '(' :: tail = u ++ a :: r := List.cons.inj e
        rcases List.append_eq_append_iff.1 e with ⟨w, -, e⟩ | ⟨w, e, -⟩
        · exact others (by simp [e])
        · by_cases hu : u = []
          · subst hu
            have := edge (x := "super") (b := '.') rfl
            cases this
          · exact within hm hu (z := "super" ++ ['.']) (by simp) (List.cons.inj e).2
  · exact within super hn rfl e (z := [])

end IsRecast

/-! ## Sweeps -/

section

variable {r : Pattern} {past t out : Text}

/-- What is behind a sweep goes on like what is before it. -/
theorem goesOnAlike_of_sweeps (h : Sweeps r IsRecast past t out) : GoesOnAlike t out := by
  induction h with
  | done => exact ⟨Iff.rfl, Iff.rfl⟩
  | @keep _ a rest out _ h ih =>
    refine ⟨?_, by simp [WordEnds]⟩
    cases ha : isBlank a with
    | true => simpa [CommaNext, ha] using ih.comma
    | false => simp [CommaNext, ha]
  | @swap past piece rest new out hR h ih =>
    obtain ⟨a, p, rfl, ha⟩ := hR.begins
    obtain ⟨c, s, rfl, -⟩ := hR.exists_super
    have blank : isBlank a = false := by
      cases e : isBlank a with
      | false => rfl
      | true => simp [isIdent_eq_false_of_isBlank e] at ha
    have comma : a ≠ ',' := by
      rintro rfl
      cases ha
    have letter : isBlank 's' = false ∧ isIdent 's' = true := by decide
    constructor
    · exact iff_of_false (by simp [CommaNext, blank, comma]) (by simp [CommaNext, letter])
    · exact iff_of_false (by simp [WordEnds, ha]) (by simp [WordEnds, letter])

/-- A sweep writes no word that the text does not contain, except in `super`. -/
theorem infix_of_sweeps {w : Text} (hw : w.all isIdent = true) (super : ¬ w <:+: "super".toList)
    (h : Sweeps r IsRecast past t out) (found : w <:+: past.reverse ++ out) :
    w <:+: past.reverse ++ t := by
  have outside {c : Char} (hc : isIdent c = false) : c ∉ w := not_mem_of_all hw hc
  induction h with
  | done => exact found
  | keep _ _ ih => simpa using ih (by simpa using found)
  | @swap past piece rest new out hR h ih =>
    obtain ⟨mid, tail, rfl, hmid, htail⟩ := hR.written
    have behind : w <:+: (piece.reverse ++ past).reverse ++ out →
        w <:+: past.reverse ++ (piece ++ rest) :=
      fun h => by simpa using ih h
    -- the word lies before the parenthesis or behind it
    have split : w <:+: (past.reverse ++ ("super".toList ++ mid)) ++ '(' :: (tail ++ out) := by
      simpa using found
    rcases Text.infix_of_append_cons (outside (by decide)) split with here | later
    · have inside : w <:+: "super".toList ++ mid → w <:+: past.reverse ++ (piece ++ rest) := by
        rcases hmid with rfl | ⟨m, rfl, -, named⟩
        · exact fun h => absurd h (by simpa using super)
        · intro h
          rcases Text.infix_of_append_cons (outside (by decide)) h with h | h
          · exact absurd h super
          · obtain ⟨x, y, e⟩ := h.trans named
            exact ⟨past.reverse ++ x, y ++ rest, by simp [← e]⟩
      cases past with
      | nil => exact inside here
      | cons b past =>
        have b_guard := (Bool.or_eq_false_iff.1 (hR.guarded b rfl)).1
        have split : w <:+: past.reverse ++ b :: ("super".toList ++ mid) := by simpa using here
        rcases Text.infix_of_append_cons (outside b_guard) split with h | h
        · obtain ⟨x, y, e⟩ := h
          exact ⟨x, y ++ b :: (piece ++ rest), by simp [← e]⟩
        · exact inside h
    · have undot (u : Text) (h : w <:+: '.' :: u) : w <:+: u := by
        rcases Text.infix_of_append_cons (u := []) (outside (by decide)) h with h | h
        · rw [List.infix_nil.1 h]
          exact List.nil_infix
        · exact h
      have : w <:+: out := by
        rcases htail with rfl | rfl
        · exact later
        · exact undot _ (undot _ (undot _ later))
      exact behind (this.trans List.infix_append_right)

end

/-! ## Delegations behind a sweep -/

/-- Nowhere in the text the name begins directly behind the word `this`. -/
def Parted (name t : Text) : Prop := ∀ s ∈ (segments name).head?, ¬ "this".toList ++ s <:+: t

section

variable {r : Pattern} {name m t out : Text} {way : Way}

theorem Parted.sweep (hn : IsNamespace name) (h : Sweeps r IsRecast [] t out)
    (parted : Parted name t) : Parted name out := by
  intro s hs found
  have word : ("this".toList ++ s).all isIdent = true := by
    have this : "this".toList.all isIdent = true := by decide
    rw [List.all_append, this, (hn s (List.mem_of_mem_head? hs)).2]
    rfl
  have super : ¬ "this".toList ++ s <:+: "super".toList := fun h => by
    have : 't' ∈ "super".toList := h.subset (by simp)
    exact absurd this (by decide)
  exact parted s hs (infix_of_sweeps word super h found)

theorem Guarded.of_append {x y : Text} (h : Guarded (x ++ y)) : Guarded x := by
  intro a ha
  refine h a ?_
  rw [Option.mem_def] at ha ⊢
  rw [List.head?_append, ha, Option.some_or]

/-- A delegation at a place behind a sweep has stood at the place before it, where the pattern had
no reading. -/
theorem exists_at_place (hn : IsNamespace name) (plain : "super".toList ∉ segments name)
    (hm : m ≠ "super") {past piece rest : Text} (h : Sweeps r IsRecast past t (piece ++ rest))
    (delegation : Delegation name way m piece rest) :
    ∃ rest', t = piece ++ rest' ∧ Delegation name way m piece rest' ∧
      r.ends ⟨past, past.length, piece ++ rest', []⟩ = [] := by
  rcases h.cases_append with ⟨rest', rfl, h, none⟩ | ⟨q, z, _, _, new, _, split, hz, e, hR⟩
  · obtain ⟨a, p, rfl, -⟩ := delegation.exists_cons hn
    have alike := goesOnAlike_of_sweeps h
    exact ⟨rest', rfl, delegation.congr ⟨alike.comma.symm, alike.word.symm⟩, none (by simp)⟩
  · obtain ⟨c, s, rfl, hc⟩ := hR.exists_super
    rw [List.append_assoc] at e
    exact absurd e (delegation.not_super hn plain hm split hz hR.guarded.of_append hc)

/-- **A sweep creates no delegation**: one that stands in the text behind it has stood in the text
before it, and the pattern had no reading there. -/
theorem exists_source (hn : IsNamespace name) (plain : "super".toList ∉ segments name)
    (hm : m ≠ "super") (parted : Parted name t) (h : Sweeps r IsRecast [] t out)
    (delegates : Delegates name way m out) :
    ∃ x piece rest, t = x ++ (piece ++ rest) ∧ Guarded x.reverse ∧
      Delegation name way m piece rest ∧ r.ends ⟨x.reverse, x.length, piece ++ rest, []⟩ = [] := by
  obtain ⟨x, piece, rest, rfl, guarded, delegation⟩ := delegates
  by_cases hx : x = []
  · subst hx
    have h : Sweeps r IsRecast [] t (piece ++ rest) := h
    obtain ⟨rest', rfl, found⟩ := exists_at_place hn plain hm h delegation
    exact ⟨[], piece, rest', rfl, guarded, found⟩
  rcases h.cases_behind hx with
    ⟨x', t', rfl, h, last⟩ | ⟨v, n, n', w, rfl, e, hn₁, hn', _, _, _, hR⟩
  · obtain ⟨rest', rfl, delegation', none⟩ := exists_at_place hn plain hm h delegation
    refine ⟨x', piece, rest', rfl, ?_, delegation', by simpa using none⟩
    rcases last with ⟨a, v, v', rfl, rfl⟩ | ⟨v, piece', _, _, rfl, hR⟩
    · simpa [Guarded] using guarded
    · rcases hR.behind with behind | ⟨y, rfl⟩
      · obtain ⟨a, p, rfl, -⟩ := hR.begins
        intro b hb
        refine behind b ?_
        rw [List.reverse_append, Text.head?_append_left (by simp)] at hb
        exact hb
      · obtain ⟨s, g, u, first, rfl, -⟩ := delegation.exists_first
        exact absurd ⟨v ++ y, g ++ u ++ rest', by simp⟩ (parted s first)
  · obtain ⟨a, p, rfl, ha⟩ := delegation.exists_cons hn
    obtain ⟨b, n', rfl⟩ := List.exists_cons_of_ne_nil hn'
    obtain ⟨rfl, -⟩ := List.cons.inj e
    exact absurd guarded.of_reverse_append (hR.inner rfl hn₁ ha)

end

/-! ## All forms -/

/-- The form recasts what it reads. -/
structure Recasts (form : ParentForm) : Prop where
  consumes : form.pattern.Consumes
  allows : form.pattern.Allows form.replacement IsRecast

/-- The form has a reading of every delegation to the member, in the way that is given. -/
def Handles (form : ParentForm) (name : Text) (way : Way) (m : Text) : Prop :=
  ∀ past offset piece rest, Guarded past → Delegation name way m piece rest →
    form.pattern.ends ⟨past, offset, piece ++ rest, []⟩ ≠ []

/-- **The delegations that are left behind all forms** stand in the source, and no form handles
them. -/
theorem recast_survivors {forms : List ParentForm} {name m source : Text} {way : Way}
    (sound : ∀ form ∈ forms, Recasts form) (hn : IsNamespace name)
    (plain : "super".toList ∉ segments name) (hm : m ≠ "super") (parted : Parted name source)
    (delegates : Delegates name way m (recastParentCalls forms source)) :
    Delegates name way m source ∧ ∀ form ∈ forms, ¬ Handles form name way m := by
  induction forms generalizing source with
  | nil => exact ⟨delegates, by simp⟩
  | cons form forms ih =>
    obtain ⟨recasts, sound⟩ := List.forall_mem_cons.1 sound
    have sweep := sweeps_replace recasts.consumes recasts.allows source
    obtain ⟨swept, unhandled⟩ := ih sound (parted.sweep hn sweep) delegates
    obtain ⟨x, piece, rest, rfl, guarded, delegation, none⟩ :=
      exists_source hn plain hm parted sweep swept
    refine ⟨⟨x, piece, rest, rfl, guarded, delegation⟩, List.forall_mem_cons.2 ⟨?_, unhandled⟩⟩
    exact fun handles => handles x.reverse x.length piece rest guarded delegation none

/-- **Calls written with `super`**: one behind the other, sweeps exchange pieces of a text for
beginnings of calls of `super`, or of a member of it that the piece names. -/
inductive WrittenWithSuper : Text → Text → Prop
  | same (t : Text) : WrittenWithSuper t t
  | sweep {r : Pattern} {t u v : Text} (h : Sweeps r IsRecast [] t u)
      (later : WrittenWithSuper u v) : WrittenWithSuper t v

theorem writtenWithSuper_recastParentCalls {forms : List ParentForm}
    (sound : ∀ form ∈ forms, Recasts form) (source : Text) :
    WrittenWithSuper source (recastParentCalls forms source) := by
  induction forms generalizing source with
  | nil => exact .same source
  | cons form forms ih =>
    obtain ⟨recasts, sound⟩ := List.forall_mem_cons.1 sound
    exact .sweep (sweeps_replace recasts.consumes recasts.allows source) (ih sound _)

end Modulize.Class
