import Modulize.Proofs.Alias.Allocation
import Modulize.Proofs.Collections
import Modulize.Proofs.Qualified.Names

/-!
# Aliases are identifiers

When all segments of a namespace are ASCII identifiers, so is every candidate of the search for an
alias (`Search.Spelt`): an identifier stays one with another in front, with an underscore in front
or with a letter behind. The name of a candidate is an identifier too, since the capital form of an
ASCII letter is one; and a name in its capital form does not begin with a small letter
(`isAsciiIdentifier_capitalizeFirst`).
-/

namespace Modulize.Alias

open Qualified

/-- Characters of ASCII identifiers. -/
def isIdentPart (c : Char) : Bool := isIdentStart c || c.isDigit

/-- An identifier in ASCII: a letter, an underscore or a dollar sign, and then digits as well. -/
def IsAsciiIdentifier (t : Text) : Prop :=
  (∃ a ∈ t.head?, isIdentStart a = true) ∧ t.all isIdentPart = true

instance (t : Text) : Decidable (IsAsciiIdentifier t) :=
  decidable_of_iff (t.head?.any isIdentStart = true ∧ t.all isIdentPart = true) (by
    cases t <;> simp [IsAsciiIdentifier])

/-! ## Building identifiers -/

theorem isIdentPart_of_isIdentStart {c : Char} (h : isIdentStart c = true) :
    isIdentPart c = true := by
  rw [isIdentPart, h]
  rfl

theorem isAsciiIdentifier_cons {a : Char} {r : Text} :
    IsAsciiIdentifier (a :: r) ↔ isIdentStart a = true ∧ r.all isIdentPart = true := by
  have both : isIdentStart a = true → isIdentPart a = true := isIdentPart_of_isIdentStart
  simp only [IsAsciiIdentifier, List.head?_cons, Option.mem_some_iff, List.all_cons,
    Bool.and_eq_true]
  constructor
  · rintro ⟨⟨_, rfl, ha⟩, -, hr⟩
    exact ⟨ha, hr⟩
  · rintro ⟨ha, hr⟩
    exact ⟨⟨a, rfl, ha⟩, both ha, hr⟩

namespace IsAsciiIdentifier

variable {s t : Text}

theorem exists_cons (h : IsAsciiIdentifier t) :
    ∃ a r, t = a :: r ∧ isIdentStart a = true ∧ r.all isIdentPart = true := by
  cases t with
  | nil =>
    obtain ⟨⟨a, ha, -⟩, -⟩ := h
    cases ha
  | cons a r => exact ⟨a, r, rfl, isAsciiIdentifier_cons.1 h⟩

theorem append (h : IsAsciiIdentifier s) (ht : t.all isIdentPart = true) :
    IsAsciiIdentifier (s ++ t) := by
  obtain ⟨a, r, rfl, ha, hr⟩ := h.exists_cons
  rw [List.cons_append]
  exact isAsciiIdentifier_cons.2 ⟨ha, by rw [List.all_append, hr, ht]; rfl⟩

theorem underscore (h : IsAsciiIdentifier t) : IsAsciiIdentifier ('_' :: t) :=
  isAsciiIdentifier_cons.2 ⟨by decide, h.2⟩

end IsAsciiIdentifier

/-- The characters that ASCII identifiers begin with. -/
theorem toNat_of_isIdentStart {a : Char} (h : isIdentStart a = true) :
    a.toNat ∈ List.range 0x80 ∧ isIdentStart (Char.ofNat a.toNat) = true := by
  refine ⟨List.mem_range.2 ?_, by rwa [Char.ofNat_toNat]⟩
  simp only [isIdentStart, Bool.or_eq_true, beq_iff_eq] at h
  rcases h with (h | rfl) | rfl
  · have cases : a.isUpper = true ∨ a.isLower = true := Bool.or_eq_true_iff.1 h
    rcases cases with upper | lower
    · have last : a.toNat ≤ 90 := (of_decide_eq_true upper).2
      omega
    · have last : a.toNat ≤ 122 := of_decide_eq_true (Bool.and_eq_true_iff.1 lower).2
      omega
  · decide
  · decide

/-- The capital form of a character that begins an ASCII identifier is one character. -/
theorem capital_of_isIdentStart {a : Char} (h : isIdentStart a = true) :
    ∃ b, capital a = [b] ∧ isIdentStart b = true ∧ b.isLower = false := by
  have forms : ∀ n ∈ List.range 0x80, isIdentStart (Char.ofNat n) = true →
      (capital (Char.ofNat n)).length = 1 ∧ (capital (Char.ofNat n)).all
        (fun b => isIdentStart b && !b.isLower) = true := by decide +kernel
  obtain ⟨low, starts⟩ := toNat_of_isIdentStart h
  obtain ⟨one, each⟩ := forms _ low starts
  rw [Char.ofNat_toNat] at one each
  obtain ⟨b, hb⟩ := List.length_eq_one_iff.1 one
  rw [hb] at each
  exact ⟨b, hb, by simpa using each⟩

theorem isAsciiIdentifier_capitalizeFirst {t : Text} (h : IsAsciiIdentifier t) :
    IsAsciiIdentifier (capitalizeFirst t) ∧
      ∀ a ∈ (capitalizeFirst t).head?, a.isLower = false := by
  obtain ⟨a, r, rfl, ha, hr⟩ := h.exists_cons
  obtain ⟨b, hb, starts, notLower⟩ := capital_of_isIdentStart ha
  have form : capitalizeFirst (a :: r) = b :: r := by rw [capitalizeFirst, hb]; rfl
  rw [form]
  exact ⟨isAsciiIdentifier_cons.2 ⟨starts, hr⟩, by simpa using notLower⟩

/-! ## Searches over identifiers -/

namespace Search

/-- The candidate and the outer segments are ASCII identifiers, and the alias is that of a class or
not. -/
structure Spelt (isClass : Bool) (s : Search) : Prop where
  candidate : IsAsciiIdentifier s.candidate
  outer : ∀ o ∈ s.outer, IsAsciiIdentifier o
  isClass : s.isClass = isClass

variable {isClass : Bool} {s : Search}

theorem Spelt.avoidClash (h : s.Spelt isClass) : s.avoidClash.Spelt isClass := by
  have words : ∀ e ∈ replacements, IsAsciiIdentifier e.2 := by decide
  unfold Search.avoidClash
  split
  · rename_i word found
    exact ⟨words _ (mem_of_lookup? found), h.outer, h.isClass⟩
  · split
    · rename_i o os outer
      have outers := h.outer
      rw [outer] at outers
      obtain ⟨ho, hos⟩ := List.forall_mem_cons.1 outers
      exact ⟨ho.append h.candidate.2, hos, h.isClass⟩
    · exact ⟨h.candidate.underscore, h.outer, h.isClass⟩

theorem Spelt.avoidPrefix (h : s.Spelt isClass) : s.avoidPrefix.Spelt isClass := by
  have letter : (['s'] : Text).all isIdentPart = true := by decide
  unfold Search.avoidPrefix
  split
  · rename_i o os outer
    have outers := h.outer
    rw [outer] at outers
    obtain ⟨ho, hos⟩ := List.forall_mem_cons.1 outers
    exact ⟨ho.append h.candidate.underscore.2, hos, h.isClass⟩
  · split
    · exact ⟨h.candidate.underscore, h.outer, h.isClass⟩
    · exact ⟨h.candidate.append letter, h.outer, h.isClass⟩

theorem spelt_start {name : Text} (h : ∀ s ∈ segments name, IsAsciiIdentifier s) :
    (start name).Spelt (isClassName (lastSegment name)) where
  candidate := h _ (lastSegment_mem name)
  outer o ho := h o (List.mem_reverse.1 (List.mem_of_mem_tail ho))
  isClass := rfl

theorem Spelt.name (h : s.Spelt isClass) :
    IsAsciiIdentifier s.name ∧ (isClass = true → ∀ a ∈ s.name.head?, a.isLower = false) := by
  have capitalized := isAsciiIdentifier_capitalizeFirst h.candidate
  unfold Search.name
  split
  · exact ⟨capitalized.1, fun _ => capitalized.2⟩
  · rename_i plain
    exact ⟨h.candidate, fun isClass => absurd (h.isClass.trans isClass) plain⟩

end Search

/-- **An alias is safe.** It is neither forbidden nor declared, and nothing is reached through it.
If all segments of the namespace are ASCII identifiers, it is one as well, and that of a class does
not begin with a small letter. -/
theorem safe_of_allocate {name a : Text} {around : Surroundings} {attempts : Nat}
    (h : allocate name around attempts = .ok a) :
    a ∉ around.forbidden ∧ isDeclared around.text a = false ∧
      isAccessed around.text a = false ∧
      ((∀ s ∈ segments name, IsAsciiIdentifier s) →
        IsAsciiIdentifier a ∧ (isClassName (lastSegment name) = true →
          ∀ c ∈ a.head?, c.isLower = false)) := by
  obtain ⟨forbidden, declared, accessed⟩ := free_of_allocate h
  refine ⟨forbidden, declared, accessed, fun segments => ?_⟩
  obtain ⟨s, spelt, rfl, -, -⟩ := Search.exists_of_run (fun _ spelt => spelt.avoidClash)
    (fun _ spelt => spelt.avoidPrefix) (Search.spelt_start segments) (run_of_allocate h)
  exact spelt.name

/-- The name of the class is declared, something is reached through the name with one segment in
front, and the name with both segments in front is forbidden: the phases of the search take turns. -/
theorem safe_of_allocate_class :
    allocate "goog.events.Event" ⟨["Goog_eventsEvent"], "let Event = EventsEvent.x;"⟩ 3 =
        .ok "_goog_eventsEvent" ∧
      ("_goog_eventsEvent" : Text) ∉ [("Goog_eventsEvent" : Text)] ∧
      isDeclared "let Event = EventsEvent.x;" "_goog_eventsEvent" = false ∧
      isAccessed "let Event = EventsEvent.x;" "_goog_eventsEvent" = false ∧
      IsAsciiIdentifier "_goog_eventsEvent" ∧
      ∀ c ∈ ("_goog_eventsEvent" : Text).head?, c.isLower = false := by
  have found : allocate "goog.events.Event" ⟨["Goog_eventsEvent"], "let Event = EventsEvent.x;"⟩ 3 =
      .ok "_goog_eventsEvent" := by rfl
  obtain ⟨forbidden, declared, accessed, spelt⟩ := safe_of_allocate found
  obtain ⟨identifier, capital⟩ := spelt (by decide)
  exact ⟨found, forbidden, declared, accessed, identifier, capital (by decide)⟩

end Modulize.Alias
