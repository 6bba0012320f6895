import Modulize.Proofs.Files.Written
import Modulize.Proofs.Settings.Kept

/-!
# Sections are read again from their tables

A section that has been read is read again from its table (`ReaderSettings.read_table`,
`RecastSettings.read_table`). In the section about selecting this depends on the path
(`SelectionSettings.read_table_iff`): blanks at the ends of its written form get lost. And in the
section about patches it depends on the files of the patches (`PatchSettings.read_table_iff`).
-/

namespace Modulize

open Checked

theorem ReaderSettings.read_table {t : Table} {r : ReaderSettings} (h : read t = .ok r) :
    read r.table = .ok r := by
  obtain ⟨f₆, a₇, hf₆, h₇, rfl⟩ := ap_field_eq_ok keeps_flag rfl h
  obtain ⟨f₅, a₆, hf₅, h₆, rfl⟩ := ap_field_eq_ok keeps_tidyList rfl hf₆
  obtain ⟨f₄, a₅, hf₄, h₅, rfl⟩ := ap_field_eq_ok keeps_flag rfl hf₅
  obtain ⟨f₃, a₄, hf₃, h₄, rfl⟩ := ap_field_eq_ok keeps_trimmedText rfl hf₄
  obtain ⟨f₂, a₃, hf₂, h₃, rfl⟩ := ap_field_eq_ok keeps_tidyList rfl hf₃
  obtain ⟨f₁, a₂, hf₁, h₂, rfl⟩ := ap_field_eq_ok keeps_tidyList rfl hf₂
  obtain ⟨f₀, a₁, hf₀, h₁, rfl⟩ := ap_field_eq_ok keeps_extensions rfl hf₁
  obtain rfl := Except.ok.inj hf₀
  exact ap_field (ap_field (ap_field (ap_field (ap_field (ap_field (ap_field rfl
    rfl h₁) rfl h₂) rfl h₃) rfl h₄) rfl h₅) rfl h₆) rfl h₇

theorem RecastSettings.read_table {t : Table} {r : RecastSettings} (h : read t = .ok r) :
    read r.table = .ok r := by
  obtain ⟨f₃, a₄, hf₃, h₄, rfl⟩ := ap_field_eq_ok keeps_positive rfl h
  obtain ⟨f₂, a₃, hf₂, h₃, rfl⟩ := ap_field_eq_ok keeps_tidyList rfl hf₃
  obtain ⟨f₁, a₂, hf₁, h₂, rfl⟩ := ap_field_eq_ok keeps_tidyList rfl hf₂
  obtain ⟨f₀, a₁, hf₀, h₁, rfl⟩ := ap_field_eq_ok keeps_visibleText rfl hf₁
  obtain rfl := Except.ok.inj hf₀
  exact ap_field (ap_field (ap_field (ap_field rfl rfl h₁) rfl h₂) rfl h₃) rfl h₄

/-! ## Paths -/

/-- The written form of the path has no blanks at its ends. -/
def Path.IsTight (p : Path) : Prop := Text.IsTight isTrimmed p.toText

instance (p : Path) : Decidable p.IsTight := inferInstanceAs (Decidable (Text.IsTight ..))

/-- **A path is read again from its written form** if there are no blanks at the ends of it, and
only then. -/
theorem parse_trimmed_eq_iff {p : Path} (h : p.IsRead) :
    Path.parse (trimmed p.toText) = p ↔ p.IsTight := by
  by_cases empty : p = ⟨.here, []⟩
  · subst empty
    exact iff_of_true rfl (Text.strip_eq_self_iff.1 rfl)
  · exact (Path.parse_eq_self_iff h empty (Text.strip_sublist _ _)).trans Text.strip_eq_self_iff

section

variable {t : Table} {name : Text} {p? : Option Path}

theorem lookup?_pathEntries (h : lookup? name t = none) (p? : Option Path) :
    lookup? name (pathEntries name p? ++ t) = p?.map fun p => .text p.toText := by
  cases p? <;> simp [pathEntries, lookup?, h]

/-- A written path is read without the blanks at the ends. -/
theorem field_path (h : lookup? name t = p?.map fun p => .text p.toText) :
    field t name none path = .ok (p?.map fun p => Path.parse (trimmed p.toText)) := by
  rw [field, h]
  cases p? <;> rfl

/-- A path that has been read has been read from some text. -/
theorem exists_parse_of_field (h : field t name none path = .ok p?) :
    ∀ p ∈ p?, ∃ u, p = Path.parse u := by
  rintro p rfl
  unfold field at h
  split at h
  · cases h
  · rename_i v _
    have read := ok_of_under h
    cases v with
    | text u => exact ⟨trimmed u, (Option.some.inj (Except.ok.inj read)).symm⟩
    | null => cases read
    | _ => cases read

theorem map_parse_eq_iff (h : ∀ p ∈ p?, p.IsRead) :
    (p?.map fun p => Path.parse (trimmed p.toText)) = p? ↔ ∀ p ∈ p?, p.IsTight := by
  cases p? with
  | none => simp
  | some p => simpa using parse_trimmed_eq_iff (h p rfl)

theorem field_path_iff (written : lookup? name t = p?.map fun p => .text p.toText)
    (h : ∀ p ∈ p?, p.IsRead) : field t name none path = .ok p? ↔ ∀ p ∈ p?, p.IsTight := by
  rw [field_path written, Except.ok.injEq]
  exact map_parse_eq_iff h

end

namespace SelectionSettings

/-- **The section about selecting is read again** with whatever path, but for the blanks at the
ends of the path. -/
theorem read_table {t : Table} {s : SelectionSettings} (h : read t = .ok s) (p? : Option Path) :
    read (table { s with namespacesFile := p? }) = .ok
      { s with namespacesFile := p?.map fun p => Path.parse (trimmed p.toText) } := by
  obtain ⟨f₂, a₃, hf₂, h₃, rfl⟩ := ap_field_eq_ok keeps_visibleText rfl h
  obtain ⟨f₁, a₂, hf₁, h₂, rfl⟩ := ap_field_eq_ok keeps_flag rfl hf₂
  obtain ⟨f₀, a₁, hf₀, -, rfl⟩ := ap_eq_ok_iff.1 hf₁
  obtain rfl := Except.ok.inj hf₀
  have file : field (table ⟨p?, a₂, a₃⟩) "required_namespaces_file" none path = _ :=
    field_path (lookup?_pathEntries rfl p?)
  cases p? with
  | none => exact ap_field (ap_field (ap_eq_ok_iff.2 ⟨_, _, rfl, file, rfl⟩) rfl h₂) rfl h₃
  | some p => exact ap_field (ap_field (ap_eq_ok_iff.2 ⟨_, _, rfl, file, rfl⟩) rfl h₂) rfl h₃

theorem exists_parse_of_read {t : Table} {s : SelectionSettings} (h : read t = .ok s) :
    ∀ p ∈ s.namespacesFile, ∃ u, p = Path.parse u := by
  obtain ⟨f₂, a₃, hf₂, -, rfl⟩ := ap_eq_ok_iff.1 h
  obtain ⟨f₁, a₂, hf₁, -, rfl⟩ := ap_eq_ok_iff.1 hf₂
  obtain ⟨f₀, a₁, hf₀, h₁, rfl⟩ := ap_eq_ok_iff.1 hf₁
  obtain rfl := Except.ok.inj hf₀
  exact exists_parse_of_field h₁

theorem read_table_iff {t : Table} {r s : SelectionSettings} (h : read t = .ok r)
    (same : s = { r with namespacesFile := s.namespacesFile })
    (paths : ∀ p ∈ s.namespacesFile, p.IsRead) :
    read s.table = .ok s ↔ ∀ p ∈ s.namespacesFile, p.IsTight := by
  have again := read_table h s.namespacesFile
  rw [← same] at again
  rw [again, Except.ok.injEq, ← map_parse_eq_iff paths]
  constructor
  · exact congrArg namespacesFile
  · intro e
    rw [e]
    exact same.symm

end SelectionSettings

/-! ## Patches -/

namespace PatchRule

theorem readFile_eq_ok {v : Value} {f : Text} (h : readFile v = .ok f) :
    ∃ t, v = .text t ∧ normalFile t = f ∧ f ≠ [] := by
  obtain ⟨t, ht, found⟩ := refine_eq_ok h
  have written : v = .text t := by
    cases v <;> first | exact congrArg Value.text (Except.ok.inj ht) | cases ht
  split at found
  · cases found
  · rename_i some
    obtain rfl := Except.ok.inj found
    exact ⟨t, written, rfl, some⟩

theorem file_of_read {t : Table} {r : PatchRule} (h : read t = .ok r) :
    ∃ v, lookup? "file".toList t = some v ∧ readFile v = .ok r.file := by
  obtain ⟨f₄, a₅, hf₄, -, rfl⟩ := ap_eq_ok_iff.1 h
  obtain ⟨f₃, a₄, hf₃, -, rfl⟩ := ap_eq_ok_iff.1 hf₄
  obtain ⟨f₂, a₃, hf₂, -, rfl⟩ := ap_eq_ok_iff.1 hf₃
  obtain ⟨f₁, a₂, hf₁, -, rfl⟩ := ap_eq_ok_iff.1 hf₂
  obtain ⟨f₀, a₁, hf₀, h₁, rfl⟩ := ap_eq_ok_iff.1 hf₁
  obtain rfl := Except.ok.inj hf₀
  have file := ok_of_under h₁
  split at file
  · cases file
  · rename_i v e
    exact ⟨v, e, file⟩

/-- **A patch is read again** if there are no blanks at the ends of its file, and only then. -/
theorem read_table_iff {t : Table} {r : PatchRule} (h : read t = .ok r) :
    read r.table = .ok r ↔ Text.IsTight isBlank r.file := by
  obtain ⟨v, -, file⟩ := file_of_read h
  obtain ⟨y, -, normal, some⟩ := readFile_eq_ok file
  rw [← Text.strip_eq_self_iff]
  refine Iff.trans ?_ (normalFile_eq_self_iff ⟨y, normal.symm⟩)
  constructor
  · intro h
    obtain ⟨v, e, file⟩ := file_of_read h
    obtain ⟨y, rfl, normal, -⟩ := readFile_eq_ok file
    obtain rfl : r.file = y := Value.text.inj (Option.some.inj e)
    exact normal
  · intro same
    have file : readFile (.text r.file) = .ok r.file := by
      refine refine_of_eq_ok rfl ?_
      rw [same]
      cases e : r.file with
      | nil => exact absurd e some
      | cons a f => rfl
    have sections : read r.table = ((done mk).ap (under (.field "file") (readFile (.text r.file)))
        |>.ap (.ok r.search) |>.ap (.ok r.replace) |>.ap (.ok r.isRegex) |>.ap (.ok r.isStrict)) :=
      rfl
    rw [sections, file]
    rfl

end PatchRule

namespace PatchSettings

theorem lookup?_listEntry_self (l : Text) (rules : List PatchRule) (t : Table) :
    lookup? l (Toml.listEntry l (rules.map PatchRule.table) ++ t) =
      if rules = [] then lookup? l t else some (.list (rules.map fun r => .table r.table)) := by
  cases rules <;> simp [Toml.listEntry, lookup?, Function.comp_def]

theorem lookup?_listEntry_other {l l' : Text} (h : l ≠ l') (ts : List Table) :
    lookup? l' (Toml.listEntry l ts) = none := by
  rw [Toml.listEntry]
  split <;> simp [lookup?, h]

/-- A list of patches is read again if every patch is, and only then. -/
theorem field_rules {t : Table} {name : Text} {rules : List PatchRule}
    (h : lookup? name t =
      if rules = [] then none else some (.list (rules.map fun r => .table r.table))) :
    field t name [] (list (section? PatchRule.read)) = .ok rules ↔
      ∀ r ∈ rules, PatchRule.read r.table = .ok r := by
  have members : list (section? PatchRule.read) (.list (rules.map fun r => .table r.table)) =
      .ok rules ↔ ∀ r ∈ rules, PatchRule.read r.table = .ok r := each_map_eq_ok_iff 0
  rw [field, h]
  by_cases empty : rules = []
  · subst empty
    exact iff_of_true rfl (by simp)
  · rw [if_neg empty, ← members]
    exact ⟨ok_of_under, congrArg (under (.field name))⟩

theorem exists_of_mem_field {t : Table} {name : Text} {rules : List PatchRule}
    (h : field t name [] (list (section? PatchRule.read)) = .ok rules) :
    ∀ r ∈ rules, ∃ t, PatchRule.read t = .ok r := by
  intro r hr
  unfold field at h
  split at h
  · obtain rfl := Except.ok.inj h
    cases hr
  · rename_i v _
    have members := ok_of_under h
    cases v with
    | list vs =>
      obtain ⟨v, hv⟩ := exists_of_mem_each members hr
      cases v with
      | table t => exact ⟨t, hv⟩
      | _ => cases hv
    | _ => cases members

/-- The patches of a section that has been read have been read themselves. -/
theorem exists_of_mem {t : Table} {p : PatchSettings} (h : read t = .ok p) :
    ∀ r ∈ p.source ++ p.declaration, ∃ t, PatchRule.read t = .ok r := by
  obtain ⟨f₁, a₂, hf₁, h₂, rfl⟩ := ap_eq_ok_iff.1 h
  obtain ⟨f₀, a₁, hf₀, h₁, rfl⟩ := ap_eq_ok_iff.1 hf₁
  obtain rfl := Except.ok.inj hf₀
  exact List.forall_mem_append.2 ⟨exists_of_mem_field h₁, exists_of_mem_field h₂⟩

theorem read_table_eq_ok_iff (p : PatchSettings) : read p.table = .ok p ↔
    ∀ r ∈ p.source ++ p.declaration, PatchRule.read r.table = .ok r := by
  obtain ⟨source, declaration⟩ := p
  have first : lookup? "source".toList (table ⟨source, declaration⟩) =
      if source = [] then none else some (.list (source.map fun r => .table r.table)) := by
    rw [table, lookup?_listEntry_self, lookup?_listEntry_other (by decide)]
  have second : lookup? "declaration".toList (table ⟨source, declaration⟩) =
      if declaration = [] then none
      else some (.list (declaration.map fun r => .table r.table)) := by
    rw [table, lookup?_append, lookup?_listEntry_other (by decide), Option.none_or,
      ← List.append_nil (Toml.listEntry "declaration" _), lookup?_listEntry_self]
    rfl
  rw [List.forall_mem_append, ← field_rules first, ← field_rules second]
  constructor
  · intro h
    obtain ⟨f₁, a₂, hf₁, h₂, e⟩ := ap_eq_ok_iff.1 h
    obtain ⟨f₀, a₁, hf₀, h₁, rfl⟩ := ap_eq_ok_iff.1 hf₁
    obtain rfl := Except.ok.inj hf₀
    obtain ⟨rfl, rfl⟩ := mk.inj e
    exact ⟨h₁, h₂⟩
  · rintro ⟨h₁, h₂⟩
    exact ap_eq_ok_iff.2 ⟨_, _, ap_eq_ok_iff.2 ⟨_, _, rfl, h₁, rfl⟩, h₂, rfl⟩

/-- **The section about patches is read again** if there are no blanks at the ends of the files of
its patches, and only then. -/
theorem read_table_iff {t : Table} {p : PatchSettings} (h : read t = .ok p) :
    read p.table = .ok p ↔ ∀ r ∈ p.source ++ p.declaration, Text.IsTight isBlank r.file := by
  rw [read_table_eq_ok_iff]
  refine forall_congr' fun r => forall_congr' fun hr => ?_
  obtain ⟨t', ht⟩ := exists_of_mem h r hr
  exact PatchRule.read_table_iff ht

end PatchSettings

end Modulize
