import Modulize.Alias

/-!
# The alias that a search finds

A search ends in either phase with a candidate that neither check objects to
(`Search.next?_eq_none_iff`), whatever changes have led to it; and what both changes keep holds of
it (`Search.exists_of_run`). So an alias that is found is neither forbidden nor declared, and
nothing is reached through it (`free_of_allocate`).
-/

namespace Modulize.Alias

variable {around : Surroundings} {a name : Text} {attempts : Nat}

namespace Search

/-- Both phases make both checks before they let a candidate pass. -/
theorem next?_eq_none_iff {phase : Phase} {s : Search} :
    next? around phase s = none ↔ s.clashes around = false ∧ s.isPrefix around = false := by
  cases phase <;> cases clash : s.clashes around <;> cases accessed : s.isPrefix around <;>
    simp [next?, clash, accessed]

/-- The next step of a search is one of its two changes. -/
theorem change_of_next? {phase phase' : Phase} {s s' : Search}
    (h : next? around phase s = some (phase', s')) : s' = s.avoidClash ∨ s' = s.avoidPrefix := by
  cases phase <;> cases clash : s.clashes around <;> cases accessed : s.isPrefix around <;>
    simp only [next?, clash, accessed] at h <;> simp_all

/-- A search that finds a name ends with a candidate for it that has passed both checks, and what
both changes keep holds of it. -/
theorem exists_of_run {P : Search → Prop} (clash : ∀ s, P s → P s.avoidClash)
    (accessed : ∀ s, P s → P s.avoidPrefix) {phase : Phase} {s : Search} (hs : P s)
    (h : run around attempts phase s = some a) :
    ∃ s' : Search, P s' ∧ s'.name = a ∧ s'.clashes around = false ∧
      s'.isPrefix around = false := by
  have keeps {phase phase' : Phase} {s s' : Search} (hs : P s)
      (h : next? around phase s = some (phase', s')) : P s' := by
    rcases change_of_next? h with rfl | rfl
    · exact clash s hs
    · exact accessed s hs
  induction attempts generalizing phase s with
  | zero =>
    unfold run at h
    split at h
    · rename_i done
      exact ⟨s, hs, Option.some.inj h, next?_eq_none_iff.1 done⟩
    · cases h
  | succ attempts ih =>
    unfold run at h
    split at h
    · rename_i done
      exact ⟨s, hs, Option.some.inj h, next?_eq_none_iff.1 done⟩
    · rename_i next
      exact ih (keeps hs next) h

end Search

theorem run_of_allocate (h : allocate name around attempts = .ok a) :
    Search.run around attempts .clash (Search.start name) = some a := by
  unfold allocate at h
  split at h
  · rename_i found
    exact found.trans (congrArg some (Except.ok.inj h))
  · cases h

/-- **An alias is free** in the surroundings that it has been searched for. -/
theorem free_of_allocate (h : allocate name around attempts = .ok a) :
    a ∉ around.forbidden ∧ isDeclared around.text a = false ∧
      isAccessed around.text a = false := by
  obtain ⟨s, -, rfl, clashes, accessed⟩ :=
    Search.exists_of_run (P := fun _ => True) (fun _ => id) (fun _ => id) trivial
      (run_of_allocate h)
  obtain ⟨forbidden, declared⟩ := Bool.or_eq_false_iff.1 clashes
  exact ⟨fun mem => by simp [mem] at forbidden, declared, accessed⟩

end Modulize.Alias
