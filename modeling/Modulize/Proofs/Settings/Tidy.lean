import Modulize.Proofs.LetterCase
import Modulize.Settings.Read

/-!
# Tidied texts

What has been tidied up stays as it is when it is tidied up again: lists of texts that are without
blanks at their ends and without repetitions (`tidied_eq_self`), and endings of file names
(`normalExtension_eq_self`). The file of a patch is the exception. The blanks around
it go before the slashes in front, so that there may be blanks at its beginning again
(`PatchRule.normalFile_eq_self_iff`).
-/

namespace Modulize

namespace Text

/-! ## Letter case -/

section

variable {p : Char → Bool} {t : Text} (blanks : ∀ a, p a = true → isBlank a = true)

include blanks

theorem eq_false_of_mem_capital {c x : Char} (h : p c = false) (hx : x ∈ capital c) :
    p x = false := by
  cases e : p x with
  | false => rfl
  | true =>
    rw [(isCapitalOf_of_mem_capital hx).2 (blanks x e), h] at e
    cases e

theorem eq_false_of_mem_smallBetween {before after : Text} {c x : Char} (h : p c = false)
    (hx : x ∈ smallBetween before c after) : p x = false := by
  cases e : p x with
  | false => rfl
  | true =>
    rw [(isSmallOf_of_mem_smallBetween hx).2 (blanks x e), h] at e
    cases e

/-- Capital forms bring no blanks to the ends of a text. -/
theorem IsTight.toCapitals (h : IsTight p t) : IsTight p t.toCapitals := by
  constructor
  · intro a ha
    cases t with
    | nil => cases ha
    | cons c t =>
      rw [Text.toCapitals, List.flatMap_cons, head?_append_left (capital_ne_nil c)] at ha
      exact eq_false_of_mem_capital blanks (h.1 c rfl) (List.mem_of_mem_head? ha)
  · intro a ha
    rcases List.eq_nil_or_concat t with rfl | ⟨t, c, e⟩
    · cases ha
    · rw [List.concat_eq_append] at e
      subst e
      rw [Text.toCapitals, List.flatMap_append, List.flatMap_singleton,
        getLast?_append_right _ (capital_ne_nil c)] at ha
      exact eq_false_of_mem_capital blanks (h.2 c (by simp)) (List.mem_of_getLast? ha)

theorem last_toSmallBehind {before : Text} (h : ∀ a ∈ t.getLast?, p a = false) :
    ∀ a ∈ (toSmallBehind before t).getLast?, p a = false := by
  induction t generalizing before with
  | nil => exact fun a ha => absurd ha (by simp [toSmallBehind])
  | cons c t ih =>
    cases t with
    | nil =>
      intro a ha
      rw [toSmallBehind, toSmallBehind, List.append_nil] at ha
      exact eq_false_of_mem_smallBetween blanks (h c rfl) (List.mem_of_getLast? ha)
    | cons c' t =>
      have some : toSmallBehind (c :: before) (c' :: t) ≠ [] :=
        fun e => smallBetween_ne_nil _ _ _ (List.append_eq_nil_iff.1 e).1
      rw [toSmallBehind, getLast?_append_right _ some]
      exact ih (by simpa using h)

/-- Small forms bring no blanks to the ends of a text. -/
theorem IsTight.toSmall (h : IsTight p t) : IsTight p t.toSmall := by
  constructor
  · intro a ha
    cases t with
    | nil => cases ha
    | cons c t =>
      rw [Text.toSmall, toSmallBehind,
        head?_append_left (smallBetween_ne_nil _ _ _)] at ha
      exact eq_false_of_mem_smallBetween blanks (h.1 c rfl) (List.mem_of_mem_head? ha)
  · exact last_toSmallBehind blanks h.2

end

end Text

open Text

theorem Checked.isBlank_of_isTrimmed {a : Char} (h : Checked.isTrimmed a = true) :
    isBlank a = true :=
  (Bool.and_eq_true_iff.1 h).1

/-! ## Tidied lists -/

/-- Texts without blanks at their ends, none of them empty, each once. -/
structure IsTidy (ts : List Text) : Prop where
  nodup : ts.Nodup
  visible : ∀ t ∈ ts, t ≠ []
  tight : ∀ t ∈ ts, IsTight isBlank t

theorem isTidy_tidied (ts : List Text) : IsTidy (tidied ts) := by
  have members : ∀ t ∈ tidied ts, t ≠ [] ∧ ∃ s : Text, t = s.trim := by
    intro t ht
    obtain ⟨mem, visible⟩ := List.mem_filter.1 (mem_dedup.1 ht)
    obtain ⟨s, -, rfl⟩ := List.mem_map.1 mem
    exact ⟨by simpa using visible, s, rfl⟩
  refine ⟨nodup_dedup _, fun t ht => (members t ht).1, fun t ht => ?_⟩
  obtain ⟨-, s, rfl⟩ := members t ht
  exact isTight_strip isBlank s

/-- **A tidied list stays as it is.** -/
theorem tidied_eq_self {ts : List Text} (h : IsTidy ts) : tidied ts = ts := by
  have trimmed : ts.map Text.trim = ts := by
    refine (List.map_congr_left fun t ht => ?_).trans (List.map_id ts)
    exact strip_eq_self_iff.2 (h.tight t ht)
  have visible : ts.filter (· ≠ []) = ts :=
    List.filter_eq_self.2 fun t ht => by simpa using h.visible t ht
  rw [tidied, trimmed, visible, dedup_eq_self h.nodup]

/-! ## Endings of file names -/

/-- An ending of file names: a dot and small letters, without blanks at its ends. -/
structure IsExtension (t : Text) : Prop where
  dot : ∃ r, t = '.' :: r
  small : ∀ c ∈ t, small c = [c]
  tight : IsTight isBlank t

theorem isExtension_normalExtension {t : Text} (h : t.trim ≠ []) :
    IsExtension (normalExtension t) := by
  have tight : IsTight isBlank t.trim.toSmall :=
    (isTight_strip isBlank t).toSmall fun _ h => h
  have small : ∀ c ∈ t.trim.toSmall, small c = [c] := fun _ => small_of_mem_toSmallBehind
  have some : t.trim.toSmall ≠ [] := by
    obtain ⟨c, r, e⟩ := List.exists_cons_of_ne_nil h
    rw [e]
    exact fun e => smallBetween_ne_nil _ _ _ (List.append_eq_nil_iff.1 e).1
  unfold normalExtension
  split
  · rename_i r e
    exact ⟨⟨r, rfl⟩, e ▸ small, e ▸ tight⟩
  · refine ⟨⟨_, rfl⟩, List.forall_mem_cons.2 ⟨by decide, small⟩, ?_, ?_⟩
    · rintro a ⟨⟩
      decide
    · rw [← List.singleton_append, getLast?_append_right _ some]
      exact tight.2

/-- **An ending of file names stays as it is.** -/
theorem normalExtension_eq_self {t : Text} (h : IsExtension t) : normalExtension t = t := by
  have trimmed : t.trim = t := strip_eq_self_iff.2 h.tight
  have small : t.toSmall = t := toSmallBehind_eq_self h.small []
  obtain ⟨r, rfl⟩ := h.dot
  rw [normalExtension, trimmed, small]
  rfl

/-! ## The files of patches -/

namespace PatchRule

/-- Backslashes become slashes. -/
def slashed (c : Char) : Char := if c = '\\' then '/' else c

theorem slashed_slashed (c : Char) : slashed (slashed c) = slashed c := by
  by_cases h : c = '\\'
  · subst h
    rfl
  · simp only [slashed, if_neg h]

theorem normalFile_eq (t : Text) : normalFile t = (t.trim.map slashed).dropWhile (· == '/') := rfl

/-- **The file of a patch stays as it is exactly if there are no blanks at its ends.** -/
theorem normalFile_eq_self_iff {f : Text} (h : ∃ t, f = normalFile t) :
    normalFile f = f ↔ f.trim = f := by
  obtain ⟨t, e⟩ := h
  have front : f.dropWhile (· == '/') = f := by
    have first := List.head?_dropWhile_not (· == '/') (t.trim.map slashed)
    rw [← normalFile_eq, ← e] at first
    cases f with
    | nil => rfl
    | cons a r => exact List.dropWhile_cons_of_neg (by simpa using first)
  have slashes : f.map slashed = f := by
    refine (List.map_congr_left fun c hc => ?_).trans (List.map_id f)
    rw [e, normalFile_eq] at hc
    obtain ⟨b, -, rfl⟩ := List.mem_map.1 ((List.dropWhile_sublist _).subset hc)
    exact slashed_slashed b
  constructor
  · intro same
    -- nothing can be taken away from a text that ends up as long as it was
    have short : (normalFile f).length ≤ f.trim.length := by
      have dropped := (List.dropWhile_sublist (· == '/') (l := f.trim.map slashed)).length_le
      rwa [List.length_map] at dropped
    rw [same] at short
    exact (strip_sublist isBlank f).eq_of_length_le short
  · intro trimmed
    rw [normalFile_eq, trimmed, slashes, front]

end PatchRule

end Modulize
