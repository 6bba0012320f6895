import Modulize.Proofs.Settings.Document
import Modulize.Proofs.Settings.Tidy

/-!
# Checks keep what they have read

What a check has made of a value it makes again of its written form (`Checked.Keeps`). So it is with
each kind of field; the default of a field is a fixed point of its check as well
(`Checked.keeps_of_field`). A section is then taken apart from its last field on
(`Checked.ap_field_eq_ok`).
-/

namespace Modulize

namespace Checked

section

variable {α β : Type}

theorem ap_eq_ok_iff {f : Checked (α → β)} {x : Checked α} {b : β} :
    ap f x = .ok b ↔ ∃ g a, f = .ok g ∧ x = .ok a ∧ g a = b := by
  cases f <;> cases x <;> simp [ap]

theorem ok_of_under {step : LocStep} {x : Checked α} {a : α} (h : under step x = .ok a) :
    x = .ok a := by
  cases x with
  | error is => cases h
  | ok b => exact h

/-- What the check has read it reads again from its written form. -/
def Keeps (check : Value → Checked α) (written : α → Value) : Prop :=
  ∀ v a, check v = .ok a → check (written a) = .ok a

variable {check : Value → Checked α} {written : α → Value} {t : Table} {name : Text} {d a : α}

/-- The field of a section is read again from its written form, also when it has not been given. -/
theorem keeps_of_field (keeps : Keeps check written) (default : check (written d) = .ok d)
    (h : field t name d check = .ok a) : check (written a) = .ok a := by
  unfold field at h
  split at h
  · obtain rfl := Except.ok.inj h
    exact default
  · exact keeps _ _ (ok_of_under h)

/-- **The last field of a section**, and the check of the ones before it. -/
theorem ap_field_eq_ok {f : Checked (α → β)} {b : β} (keeps : Keeps check written)
    (default : check (written d) = .ok d) (h : ap f (field t name d check) = .ok b) :
    ∃ g a, f = .ok g ∧ check (written a) = .ok a ∧ g a = b := by
  obtain ⟨g, a, hf, ha, e⟩ := ap_eq_ok_iff.1 h
  exact ⟨g, a, hf, keeps_of_field keeps default ha, e⟩

/-- A section, also one that has not been given, has been read from some table. -/
theorem exists_of_field {check : Table → Checked α}
    (h : field t name d (section? check) = .ok a) (default : check [] = .ok d) :
    ∃ t', check t' = .ok a := by
  unfold field at h
  split at h
  · obtain rfl := Except.ok.inj h
    exact ⟨[], default⟩
  · rename_i v _
    cases v with
    | table t' => exact ⟨t', ok_of_under h⟩
    | _ => cases ok_of_under h

theorem field_eq_ok_iff {v : Value} (h : lookup? name t = some v) :
    field t name d check = .ok a ↔ check v = .ok a := by
  rw [field, h]
  exact ⟨ok_of_under, congrArg (under (.field name))⟩

/-- A field that has been written is read. -/
theorem ap_field {f : Checked (α → β)} {g : α → β} {v : Value} (hf : f = .ok g)
    (h : lookup? name t = some v) (hv : check v = .ok a) :
    ap f (field t name d check) = .ok (g a) := by
  rw [hf, (field_eq_ok_iff h).2 hv]
  rfl

end

/-! ## Texts, flags and numbers -/

theorem trimmedText_of_isTight {t : Text} (h : Text.IsTight isTrimmed t) :
    trimmedText (.text t) = .ok t :=
  congrArg Except.ok (Text.strip_eq_self_iff.2 h)

theorem isTight_of_trimmedText {v : Value} {t : Text} (h : trimmedText v = .ok t) :
    Text.IsTight isTrimmed t := by
  obtain ⟨s, -, rfl⟩ := map_eq_ok h
  exact Text.isTight_strip _ s

theorem keeps_trimmedText : Keeps trimmedText .text := fun _ _ h =>
  trimmedText_of_isTight (isTight_of_trimmedText h)

theorem keeps_visibleText : Keeps visibleText .text := by
  intro v t h
  unfold visibleText at h
  split at h
  · cases h
  · rename_i some
    have kept := keeps_trimmedText v t h
    rw [visibleText, kept]
    cases t with
    | nil => exact absurd h some
    | cons a t => rfl

/-- The level is read in capitals. -/
theorem keeps_level : Keeps (fun v => (trimmedText v).map Text.toCapitals) .text := by
  intro v t h
  obtain ⟨s, hs, rfl⟩ := map_eq_ok h
  have tight := (isTight_of_trimmedText hs).toCapitals fun _ => isBlank_of_isTrimmed
  have read := trimmedText_of_isTight tight
  exact (congrArg (Except.map Text.toCapitals) read).trans
    (congrArg Except.ok (Text.toCapitals_toCapitals s))

theorem keeps_flag : Keeps flag .flag := fun _ _ _ => rfl

theorem keeps_positive : Keeps positive fun n => .number n := by
  intro v n h
  unfold positive at h
  split at h
  · rename_i k _
    split at h
    · cases h
    · obtain rfl := Except.ok.inj h
      have same : ((k.toNat : Nat) : Int) = k := Int.toNat_of_nonneg (by omega)
      rename_i large
      simp only [positive, number, same, if_neg large]
  · cases h

/-! ## Lists -/

section

variable {α : Type} {check : Value → Checked α}

/-- **Written members are read again** if each of them is, and only then. -/
theorem each_map_eq_ok_iff {written : α → Value} {as : List α} (n : Nat) :
    each check n (as.map written) = .ok as ↔ ∀ a ∈ as, check (written a) = .ok a := by
  induction as generalizing n with
  | nil => exact iff_of_true rfl (by simp)
  | cons a as ih =>
    rw [List.forall_mem_cons, ← ih (n + 1), List.map_cons, each]
    cases check (written a) <;> cases each check (n + 1) (as.map written) <;>
      simp [under, Except.map, ap]

/-- Every member has been read from some value. -/
theorem exists_of_mem_each {n : Nat} {vs : List Value} {as : List α} (h : each check n vs = .ok as)
    {a : α} (ha : a ∈ as) : ∃ v, check v = .ok a := by
  induction vs generalizing n as with
  | nil =>
    obtain rfl := Except.ok.inj h
    cases ha
  | cons v vs ih =>
    obtain ⟨g, rest, hg, hrest, rfl⟩ := ap_eq_ok_iff.1 h
    obtain ⟨b, hb, rfl⟩ := map_eq_ok hg
    rcases List.mem_cons.1 ha with rfl | ha
    · exact ⟨v, ok_of_under hb⟩
    · exact ih hrest ha

end

theorem list_texts {check : Value → Checked Text} {ts : List Text}
    (h : ∀ t ∈ ts, check (.text t) = .ok t) : list check (.texts ts) = .ok ts :=
  (each_map_eq_ok_iff 0).2 h

theorem keeps_list : Keeps (list text) .texts := fun _ _ _ => list_texts fun _ _ => rfl

/-- Texts without blanks at their ends are read as they are. -/
theorem list_trimmedText {ts : List Text} (h : ∀ t ∈ ts, Text.IsTight isBlank t) :
    list trimmedText (.texts ts) = .ok ts :=
  list_texts fun t ht => trimmedText_of_isTight ((h t ht).mono fun _ => isBlank_of_isTrimmed)

theorem tidyList_of_isTidy {ts : List Text} (h : IsTidy ts) : tidyList (.texts ts) = .ok ts := by
  rw [tidyList, list_trimmedText h.tight]
  exact congrArg Except.ok (tidied_eq_self h)

theorem keeps_tidyList : Keeps tidyList .texts := by
  intro v ts h
  obtain ⟨us, -, rfl⟩ := map_eq_ok h
  exact tidyList_of_isTidy (isTidy_tidied us)

theorem refine_eq_ok {α β : Type} {x : Checked α} {f : α → Except Text β} {b : β}
    (h : refine x f = .ok b) : ∃ a, x = .ok a ∧ f a = .ok b := by
  unfold refine at h
  split at h
  · cases h
  · rename_i a
    split at h
    · rename_i b' e
      obtain rfl := Except.ok.inj h
      exact ⟨a, rfl, e⟩
    · cases h

theorem refine_of_eq_ok {α β : Type} {x : Checked α} {f : α → Except Text β} {a : α} {b : β}
    (hx : x = .ok a) (hf : f a = .ok b) : refine x f = .ok b := by
  rw [hx, refine, hf]

/-- The endings of file names that lists of them come to. -/
theorem extensions_of_isExtension {es : List Text} (nodup : es.Nodup)
    (ending : ∀ e ∈ es, IsExtension e) (hne : es ≠ []) : extensions (.texts es) = .ok es := by
  refine refine_of_eq_ok (list_trimmedText fun e he => (ending e he).tight) ?_
  have visible : es.filter (fun e => e.trim ≠ []) = es := by
    refine List.filter_eq_self.2 fun e he => ?_
    obtain ⟨r, hr⟩ := (ending e he).dot
    have trimmed : e.trim = e := Text.strip_eq_self_iff.2 (ending e he).tight
    rw [decide_eq_true_eq, trimmed, hr]
    exact List.cons_ne_nil _ _
  have normal : es.map normalExtension = es :=
    (List.map_congr_left fun e he => normalExtension_eq_self (ending e he)).trans (List.map_id es)
  rw [visible, normal, dedup_eq_self nodup]
  cases es with
  | nil => exact absurd rfl hne
  | cons e es => rfl

theorem keeps_extensions : Keeps extensions .texts := by
  intro v es h
  obtain ⟨ts, -, found⟩ := refine_eq_ok h
  split at found
  · cases found
  · rename_i some
    obtain rfl := Except.ok.inj found
    refine extensions_of_isExtension (nodup_dedup _) (fun e he => ?_) some
    obtain ⟨t, ht, rfl⟩ := List.mem_map.1 (mem_dedup.1 he)
    exact isExtension_normalExtension (by simpa using (List.mem_filter.1 ht).2)

end Checked

/-! ## Groups of files -/

/-- Groups of files that have been tidied up: no two have the same target, the targets have no
blanks at their ends, and every group has members. -/
structure IsTidyGroups (groups : List (Text × List Text)) : Prop where
  nodup : (groups.map Prod.fst).Nodup
  target : ∀ g ∈ groups, g.1 ≠ [] ∧ Text.IsTight isBlank g.1
  members : ∀ g ∈ groups, g.2 ≠ [] ∧ IsTidy g.2

theorem isTidyGroups_of_tidyGroups {groups done tidy : List (Text × List Text)}
    (h : tidyGroups done groups = .ok tidy) (hd : IsTidyGroups done) : IsTidyGroups tidy := by
  induction groups generalizing done with
  | nil =>
    obtain rfl := Except.ok.inj h
    exact hd
  | cons g groups ih =>
    obtain ⟨target, members⟩ := g
    rw [tidyGroups] at h
    split at h
    · cases h
    · rename_i visible
      split at h
      · cases h
      · rename_i some
        refine ih h ⟨nodup_map_fst_assign hd.nodup _ _, fun g hg => ?_, fun g hg => ?_⟩
        · rcases mem_of_mem_assign hg with rfl | hg
          · exact ⟨visible, Text.isTight_strip _ _⟩
          · exact hd.target g hg
        · rcases mem_of_mem_assign hg with rfl | hg
          · exact ⟨some, isTidy_tidied members⟩
          · exact hd.members g hg

/-- **Tidied groups stay as they are.** -/
theorem tidyGroups_eq_self (done : List (Text × List Text)) {groups : List (Text × List Text)}
    (h : IsTidyGroups (done ++ groups)) : tidyGroups done groups = .ok (done ++ groups) := by
  induction groups generalizing done with
  | nil => rw [tidyGroups, List.append_nil]
  | cons g groups ih =>
    obtain ⟨target, members⟩ := g
    have mem : (target, members) ∈ done ++ (target, members) :: groups := by simp
    obtain ⟨visible, tight⟩ := h.target _ mem
    obtain ⟨some, tidy⟩ := h.members _ mem
    have trimmed : target.trim = target := Text.strip_eq_self_iff.2 tight
    have new := not_mem_of_nodup h.nodup
    have rest := ih (done ++ [(target, members)]) (by simpa using h)
    rw [tidyGroups, trimmed, if_neg visible, tidied_eq_self tidy]
    cases members with
    | nil => exact absurd rfl some
    | cons m ms =>
      simp only [assign_eq_append new, rest]
      simp

namespace Checked

/-- A table is read entry by entry. -/
theorem table_cons {α : Type} {check : Value → Checked α} {k : Text} {v : Value} {t : Table}
    {a : α} {as : List (Text × α)} (first : check v = .ok a)
    (rest : table check (.table t) = .ok as) :
    table check (.table ((k, v) :: t)) = .ok ((k, a) :: as) := by
  have entries : table check (.table ((k, v) :: t)) =
      ap ((under (keyStep (.text k)) (((done Prod.mk).ap (key (.text k))).ap (check v))).map
        List.cons) (table check (.table t)) := rfl
  rw [entries, first, rest]
  rfl

/-- The written groups are read as they are. -/
theorem table_groupTable {groups : List (Text × List Text)}
    (h : ∀ g ∈ groups, ∀ m ∈ g.2, Text.IsTight isBlank m) :
    table (list trimmedText) (.table (Settings.groupTable groups)) = .ok groups := by
  induction groups with
  | nil => rfl
  | cons g groups ih =>
    obtain ⟨first, rest⟩ := List.forall_mem_cons.1 h
    exact table_cons (list_trimmedText first) (ih rest)

theorem isTidyGroups_of_cycleGroups {v : Value} {groups : List (Text × List Text)}
    (h : cycleGroups v = .ok groups) : IsTidyGroups groups := by
  obtain ⟨entries, -, tidy⟩ := refine_eq_ok h
  exact isTidyGroups_of_tidyGroups tidy ⟨List.nodup_nil, by simp, by simp⟩

theorem keeps_cycleGroups : Keeps cycleGroups fun gs => .table (Settings.groupTable gs) := by
  intro v groups h
  have tidy := isTidyGroups_of_cycleGroups h
  exact refine_of_eq_ok (table_groupTable fun g hg => (tidy.members g hg).2.tight)
    (tidyGroups_eq_self [] tidy)

end Checked

end Modulize
