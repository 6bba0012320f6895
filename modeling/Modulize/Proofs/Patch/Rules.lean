import Modulize.Patch.Rule
import Modulize.Proofs.Text

/-!
# Rules one after another

The rules that are meant for a file are applied to what the rules before them have left
(`textAfter`): if nothing fails, this is the text that results (`eq_textAfter_of_applyAll`), and
nothing fails exactly if each strict rule finds something in the text that it is applied to
(`exists_applyAll_iff`). Applying a list of rules is applying its first part and then the second,
reports and failures included (`applyAll_append`).
-/

namespace Modulize.PatchRule

/-- What the rule is written with can be read: the pattern and the replacement for it. -/
def IsReadable (r : PatchRule) : Prop :=
  r.isRegex = true → ∃ w template, Pattern.Notation.read r.search = .ok w ∧
    Pattern.Template.read w r.replace = .ok template

/-- The rule finds something to replace in a text. -/
def Finds (r : PatchRule) (t : Text) : Prop :=
  if r.isRegex then ∃ w, Pattern.Notation.read r.search = .ok w ∧ w.pattern.occursIn t = true
  else r.search <:+: t

/-- The text that a rule makes of a text; it stays as it is when the rule finds nothing. -/
def after (r : PatchRule) (t : Text) : Text :=
  match r.apply t with
  | .ok (some t') => t'
  | _ => t

/-- The text that the rules which are meant for the file at a path make of a text, each applied to
what the one before it has made. -/
def textAfter (extension path : Text) (rules : List PatchRule) (t : Text) : Text :=
  (rules.filter (·.targets path extension)).foldl (fun t r => r.after t) t

variable {r : PatchRule} {rs rs' : List PatchRule} {extension path t t' : Text}

/-! ## A single rule -/

theorem apply_of_finds (readable : r.IsReadable) (finds : r.Finds t) :
    r.apply t = .ok (some (r.after t)) := by
  have made : ∃ t', r.apply t = .ok (some t') := by
    unfold Finds at finds
    unfold apply
    split at finds
    · rename_i isRegex
      obtain ⟨w, template, read, filled⟩ := readable isRegex
      obtain ⟨w', read', occurs⟩ := finds
      obtain rfl := Except.ok.inj (read.symm.trans read')
      rw [if_pos isRegex]
      simp only [read, filled, bind, Except.bind, occurs, if_true]
      exact ⟨_, rfl⟩
    · rename_i isPlain
      rw [if_neg isPlain, if_pos (Text.contains_iff_infix.2 finds)]
      exact ⟨_, rfl⟩
  obtain ⟨t', made⟩ := made
  simp only [after, made]

theorem apply_of_not_finds (readable : r.IsReadable) (finds : ¬ r.Finds t) :
    r.apply t = .ok none := by
  unfold Finds at finds
  unfold apply
  split at finds
  · rename_i isRegex
    obtain ⟨w, template, read, -⟩ := readable isRegex
    have nowhere : w.pattern.occursIn t ≠ true := fun occurs => finds ⟨w, read, occurs⟩
    rw [if_pos isRegex]
    simp only [read, bind, Except.bind, nowhere]
    rfl
  · rename_i isPlain
    rw [if_neg isPlain, if_neg (mt Text.contains_iff_infix.1 finds)]

theorem after_of_not_finds (readable : r.IsReadable) (finds : ¬ r.Finds t) : r.after t = t := by
  simp only [after, apply_of_not_finds readable finds]

/-! ## Rules that are meant for a file -/

@[simp] theorem textAfter_nil (extension path t : Text) : textAfter extension path [] t = t := rfl

theorem textAfter_cons_of_targets (h : r.targets path extension = true) (rs : List PatchRule)
    (t : Text) :
    textAfter extension path (r :: rs) t = textAfter extension path rs (r.after t) := by
  simp only [textAfter, List.filter_cons, h, if_true, List.foldl_cons]

theorem textAfter_cons_of_not_targets (h : ¬ r.targets path extension = true)
    (rs : List PatchRule) (t : Text) :
    textAfter extension path (r :: rs) t = textAfter extension path rs t := by
  simp only [textAfter, List.filter_cons, h, if_false, Bool.false_eq_true]

/-- A text stays as it is if no rule is meant for the file. -/
theorem applyAll_of_none (h : ¬ rs.any (·.targets path extension) = true) (t : Text) :
    applyAll extension path rs t = ([], .ok t) := by
  induction rs with
  | nil => rfl
  | cons r rs ih =>
    rw [List.any_cons, Bool.or_eq_true, not_or] at h
    rw [applyAll, if_neg h.1, ih h.2]

/-- **A list of rules is applied part by part**: the second part to what the first has made, if that
has not failed. -/
theorem applyAll_append (extension path : Text) (rs rs' : List PatchRule) (t : Text) :
    applyAll extension path (rs ++ rs') t =
      match applyAll extension path rs t with
      | (events, .error f) => (events, .error f)
      | (events, .ok t') =>
        let (events', result) := applyAll extension path rs' t'
        (events ++ events', result) := by
  induction rs generalizing t with
  | nil => rfl
  | cons r rs ih =>
    rw [List.cons_append, applyAll, applyAll]
    split
    · split
      · rfl
      · exact ih _
      · split
        · rfl
        · simp only [ih]
          rcases applyAll extension path rs t with ⟨events, _ | t'⟩ <;> rfl
    · exact ih t

/-- What results if nothing fails. -/
theorem eq_textAfter_of_applyAll (h : (applyAll extension path rs t).2 = .ok t') :
    t' = textAfter extension path rs t := by
  induction rs generalizing t with
  | nil => exact (Except.ok.inj h).symm
  | cons r rs ih =>
    rw [applyAll] at h
    split at h
    · rename_i targets
      rw [textAfter_cons_of_targets targets]
      split at h
      · cases h
      · rename_i made
        simpa only [after, made] using ih h
      · rename_i missed
        split at h
        · cases h
        · simpa only [after, missed] using ih h
    · rename_i other
      rw [textAfter_cons_of_not_targets other]
      exact ih h

/-- What holds of every member of a list and of what stands before it holds of the first member, and
of the others. -/
theorem forall_split_cons {α : Type} {P : List α → α → Prop} {a : α} {l : List α} :
    (∀ before b later, a :: l = before ++ b :: later → P before b) ↔
      P [] a ∧ ∀ before b later, l = before ++ b :: later → P (a :: before) b := by
  constructor
  · intro h
    exact ⟨h [] a l rfl, fun before b later same => h (a :: before) b later (same ▸ rfl)⟩
  · rintro ⟨first, others⟩ before b later same
    cases before with
    | nil =>
      obtain ⟨rfl, -⟩ := List.cons.inj same
      exact first
    | cons a' before =>
      obtain ⟨rfl, rest⟩ := List.cons.inj same
      exact others before b later rest

/-- **Nothing fails** exactly if every strict rule that is meant for the file finds something in the
text that the rules before it leave. -/
theorem exists_applyAll_iff (readable : ∀ r ∈ rs, r.IsReadable) (t : Text) :
    (∃ t', (applyAll extension path rs t).2 = .ok t') ↔
      ∀ before r later, rs = before ++ r :: later → r.isStrict = true →
        r.targets path extension = true → r.Finds (textAfter extension path before t) := by
  induction rs generalizing t with
  | nil => exact ⟨fun _ before r later same => by simp at same, fun _ => ⟨t, rfl⟩⟩
  | cons r rs ih =>
    obtain ⟨here, readable⟩ := List.forall_mem_cons.1 readable
    have split := forall_split_cons (a := r) (l := rs) (P := fun before r => r.isStrict = true →
      r.targets path extension = true → r.Finds (textAfter extension path before t))
    rw [split, textAfter_nil, applyAll]
    by_cases targets : r.targets path extension = true
    · simp only [textAfter_cons_of_targets targets, targets, if_true, forall_const]
      by_cases finds : r.Finds t
      · simp only [apply_of_finds here finds, finds, ih readable, implies_true, true_and]
      · rw [apply_of_not_finds here finds, after_of_not_finds here finds, ← ih readable]
        by_cases strict : r.isStrict = true
        · simp [strict, finds]
        · simp [strict]
    · rw [if_neg targets, ih readable]
      simp only [textAfter_cons_of_not_targets targets]
      exact ⟨fun others => ⟨fun _ meant => absurd meant targets, others⟩, And.right⟩

end Modulize.PatchRule
