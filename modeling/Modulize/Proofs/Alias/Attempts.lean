import Modulize.Proofs.Alias.Allocation
import Modulize.Proofs.LetterCase
import Modulize.Proofs.Pattern.Replacing
import Modulize.Proofs.Qualified.Spelling

/-!
# The number of attempts

A name that is longer than the text and than every forbidden name is free, and the name of a
candidate is no shorter than the candidate (`Search.length_le_name`). So a search does not go on
from a candidate beyond that length (`Search.length_le_of_next?`).

Every change but one makes the candidate longer; an outer segment in front may be empty, but then
there is one segment less to be used. `Search.rank` counts both, and every step of a search lowers
it (`Search.rank_lt`). A search therefore ends after a number of steps that the rank of its
beginning bounds, with the same name whenever that many attempts are allowed, and without one when
there are fewer (`exists_attempts`).
-/

namespace Modulize.Alias

open Pattern

/-- The length of the longest of some names. -/
def longest (names : List Text) : Nat := (names.map List.length).foldr max 0

theorem length_le_longest {names : List Text} {name : Text} (h : name ∈ names) :
    name.length ≤ longest names := by
  induction names with
  | nil => cases h
  | cons first names ih =>
    have step : longest (first :: names) = max first.length (longest names) := rfl
    rw [step]
    rcases List.mem_cons.1 h with rfl | h
    · exact Nat.le_max_left _ _
    · exact Nat.le_trans (ih h) (Nat.le_max_right _ _)

/-- The length beyond which all names are free. -/
def Surroundings.reach (around : Surroundings) : Nat :=
  max around.text.length (longest around.forbidden)

variable {around : Surroundings}

/-! ## Long names are free -/

/-- A name is not found in a shorter text, whatever has to stand around it. -/
theorem length_le_of_occursIn {before behind : Pattern} {name t : Text}
    (h : (before ++ literal name ++ behind).occursIn t = true) : name.length ≤ t.length := by
  obtain ⟨x, y, d, rfl, hd⟩ := exists_ends_of_occursIn h
  obtain ⟨e, he, -⟩ := mem_ends_seq.1 hd
  obtain ⟨e', he', hname⟩ := mem_ends_seq.1 he
  obtain ⟨piece, reads⟩ := reads_of_mem_ends he'
  obtain ⟨_, rest, hrest, rfl, -⟩ := (describes_literal name e' e).1 hname
  have rest' : y = piece ++ e'.rest := reads.rest
  rw [rest', hrest]
  simp only [List.length_append]
  omega

theorem length_le_of_isDeclared {t name : Text} (h : isDeclared t name = true) :
    name.length ≤ t.length := length_le_of_occursIn h

theorem length_le_of_isAccessed {t name : Text} (h : isAccessed t name = true) :
    name.length ≤ t.length := length_le_of_occursIn h

namespace Search

variable {phase phase' : Phase} {s s' : Search}

theorem length_le_name (s : Search) : s.candidate.length ≤ s.name.length := by
  unfold name
  split
  · cases s.candidate with
    | nil => exact Nat.le_refl 0
    | cons a r =>
      have := List.length_pos_iff.2 (capital_ne_nil a)
      simp only [Qualified.capitalizeFirst, List.length_cons, List.length_append]
      omega
  · exact Nat.le_refl _

/-- A search goes on from short candidates only. -/
theorem length_le_of_next? (h : next? around phase s = some (phase', s')) :
    s.candidate.length ≤ around.reach := by
  refine Nat.le_trans s.length_le_name ?_
  have taken : ¬ (s.clashes around = false ∧ s.isPrefix around = false) := by
    rw [← @next?_eq_none_iff around phase s, h]
    exact Option.some_ne_none _
  by_cases clash : s.clashes around = true
  · rcases Bool.or_eq_true_iff.1 clash with forbidden | declared
    · exact Nat.le_trans (length_le_longest (List.contains_iff_mem.1 forbidden))
        (Nat.le_max_right _ _)
    · exact Nat.le_trans (length_le_of_isDeclared declared) (Nat.le_max_left _ _)
  · have accessed : s.isPrefix around = true := by simp_all
    exact Nat.le_trans (length_le_of_isAccessed accessed) (Nat.le_max_left _ _)

/-! ## The changes -/

/-- The number of outer segments that are left, and of characters that the candidate has to gain
until all its names are free. -/
def rank (around : Surroundings) (s : Search) : Nat :=
  s.outer.length + (around.reach + 1 - s.candidate.length)

/-- A fixed replacement is longer than what it replaces. -/
theorem length_lt_of_replacement {word new : Text} (h : lookup? word replacements = some new) :
    word.length < new.length := by
  have longer : ∀ e ∈ replacements, e.1.length < e.2.length := by decide
  exact longer _ (mem_of_lookup? h)

theorem rank_avoidClash_lt (h : s.candidate.length ≤ around.reach) :
    s.avoidClash.rank around < s.rank around := by
  unfold avoidClash
  split
  · rename_i word found
    have := length_lt_of_replacement found
    simp only [rank]
    omega
  · split
    · rename_i o os outer
      simp only [rank, outer, List.length_append, List.length_cons]
      omega
    · rename_i outer
      simp only [rank, outer, List.length_cons]
      omega

theorem rank_avoidPrefix_lt (h : s.candidate.length ≤ around.reach) :
    s.avoidPrefix.rank around < s.rank around := by
  unfold avoidPrefix
  split
  · rename_i o os outer
    simp only [rank, outer, List.length_append, List.length_cons]
    omega
  · rename_i outer
    split
    · simp only [rank, outer, List.length_cons]
      omega
    · simp only [rank, outer, List.length_append, List.length_cons]
      omega

/-- **Every step of a search lowers its rank.** -/
theorem rank_lt (h : next? around phase s = some (phase', s')) : s'.rank around < s.rank around := by
  have short := length_le_of_next? h
  rcases change_of_next? h with rfl | rfl
  · exact rank_avoidClash_lt short
  · exact rank_avoidPrefix_lt short

/-! ## Runs -/

theorem run_of_done {attempts : Nat} (h : next? around phase s = none) :
    run around attempts phase s = some s.name := by
  unfold run
  rw [h]

theorem run_zero_of_next (h : next? around phase s = some (phase', s')) :
    run around 0 phase s = none := by
  unfold run
  rw [h]

theorem run_succ_of_next {attempts : Nat} (h : next? around phase s = some (phase', s')) :
    run around (attempts + 1) phase s = run around attempts phase' s' := by
  conv => lhs; unfold run
  rw [h]

/-- A search needs as many attempts as its rank says, or fewer. -/
theorem exists_attempts_of_rank (phase : Phase) {bound : Nat} (hs : s.rank around ≤ bound) :
    ∃ k a, k ≤ bound ∧ (∀ attempts, k ≤ attempts → run around attempts phase s = some a) ∧
      ∀ attempts, attempts < k → run around attempts phase s = none := by
  induction bound generalizing phase s with
  | zero =>
    cases next : next? around phase s with
    | none => exact ⟨0, s.name, Nat.le_refl 0, fun _ _ => run_of_done next, by simp⟩
    | some step =>
      have := rank_lt next
      omega
  | succ bound ih =>
    cases next : next? around phase s with
    | none => exact ⟨0, s.name, Nat.zero_le _, fun _ _ => run_of_done next, by simp⟩
    | some step =>
      have lower := rank_lt next
      obtain ⟨k, a, hk, enough, few⟩ := ih step.1 (s := step.2) (by omega)
      refine ⟨k + 1, a, Nat.succ_le_succ hk, fun attempts h => ?_, fun attempts h => ?_⟩
      · obtain ⟨n, rfl⟩ := Nat.exists_eq_add_of_le' (Nat.le_of_add_left_le h)
        rw [run_succ_of_next next]
        exact enough n (by omega)
      · cases attempts with
        | zero => exact run_zero_of_next next
        | succ n =>
          rw [run_succ_of_next next]
          exact few n (by omega)

theorem rank_start_le (name : Text) :
    (start name).rank around ≤ (Qualified.segments name).length + around.reach := by
  have := List.length_pos_iff.2 (Qualified.segments_ne_nil name)
  simp only [rank, start, List.length_tail, List.length_reverse]
  omega

end Search

/-- **The search for an alias ends within a known bound.** There is a number of attempts, not above
the number of segments and the length of the text or of the longest forbidden name, from which on
the same alias is found, and below which none is. -/
theorem exists_attempts (name : Text) (around : Surroundings) :
    ∃ k a, k ≤ (Qualified.segments name).length +
        max around.text.length (longest around.forbidden) ∧
      (∀ attempts, k ≤ attempts → allocate name around attempts = .ok a) ∧
      ∀ attempts, attempts < k →
        allocate name around attempts = .error (.noAlias name attempts) := by
  obtain ⟨k, a, hk, enough, few⟩ :=
    Search.exists_attempts_of_rank .clash (@Search.rank_start_le around name)
  refine ⟨k, a, hk, fun attempts h => ?_, fun attempts h => ?_⟩
  · rw [allocate, enough attempts h]
  · rw [allocate, few attempts h]

end Modulize.Alias
