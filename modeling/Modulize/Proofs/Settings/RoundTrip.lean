import Modulize.Proofs.Settings.Sections
import Modulize.Settings.Defaults

/-!
# Written settings are loaded again

Settings are valid (`Settings.IsValid`) if they have been read, but for their paths, which may be
given as such. A file over nothing and under nothing is read as it is (`Settings.load_nil_iff`), and
the table of valid settings gives the same settings exactly if no path and no file of a patch has
blanks at its ends (`Settings.read_table_iff`). Settings that have been read may have such blanks:
they come to the end when a slash is taken away that stood before or behind them.
-/

namespace Modulize

namespace Settings

open Checked

/-! ## Layers -/

section

variable {t : Table} {g : Table}

theorem overlayEntries_of_nodup {below above : Table} (h : ((below ++ above).map Prod.fst).Nodup) :
    Value.overlayEntries below above = below ++ above := by
  induction above generalizing below with
  | nil => rw [Value.overlayEntries, List.append_nil]
  | cons e above ih =>
    obtain ⟨k, v⟩ := e
    have new := not_mem_of_nodup h
    rw [Value.overlayEntries, lookup?_eq_none new]
    simp only [assign_eq_append new]
    rw [ih (by simpa using h)]
    simp

theorem groupsKey_not_mem_filter (t : Table) :
    groupsKey ∉ (t.filter (·.1 ≠ groupsKey)).map Prod.fst := by
  intro mem
  obtain ⟨e, he, same⟩ := List.mem_map.1 mem
  simpa [same] using (List.mem_filter.1 he).2

/-- A layer over nothing: the groups of files move to the end. -/
theorem addLayer_nil (distinct : (t.map Prod.fst).Nodup)
    (groups : lookup? groupsKey t = some (.table g)) :
    addLayer [] t = .ok (t.filter (·.1 ≠ groupsKey) ++ [(groupsKey, .table g)]) := by
  have rest : Value.overlayEntries [] (t.filter (·.1 ≠ groupsKey)) =
      t.filter (·.1 ≠ groupsKey) :=
    overlayEntries_of_nodup (distinct.sublist (List.filter_sublist.map Prod.fst))
  rw [addLayer, rest, groups]
  simp only [Value.asTable, assign_eq_append (groupsKey_not_mem_filter t)]

/-- The settings only depend on what stands under each key. -/
theorem read_congr {t' : Table} (h : ∀ k, lookup? k t = lookup? k t') : read t = read t' := by
  simp only [read, field, h]

/-- **A settings file over nothing and under nothing** is read as it is. -/
theorem load_nil_iff (distinct : (t.map Prod.fst).Nodup)
    (groups : lookup? groupsKey t = some (.table g)) {s : Settings} :
    load [] t [] = .ok s ↔ read t = .ok s := by
  have same : read (t.filter (·.1 ≠ groupsKey) ++ [(groupsKey, .table g)]) = read t := by
    refine read_congr fun k => ?_
    by_cases other : k = groupsKey
    · subst other
      rw [groups]
      exact lookup?_append_last (groupsKey_not_mem_filter t) _
    · rw [lookup?_append, lookup?_filter_ne other]
      simp [lookup?, Ne.symm other]
  have layers : stack [] t [] = .ok (t.filter (·.1 ≠ groupsKey) ++ [(groupsKey, .table g)]) := by
    rw [stack, addLayer_nil distinct groups]
    rfl
  rw [load, layers, ← same]
  generalize t.filter (·.1 ≠ groupsKey) ++ [(groupsKey, Value.table g)] = u
  cases e : read u <;> simp [bind, Except.bind, e]

end

/-! ## Valid settings -/

/-- The paths of the settings. -/
def paths (s : Settings) : List Path :=
  s.inputDir.toList ++ s.outputDir.toList ++ s.logDir.toList ++ s.selection.namespacesFile.toList

/-- The patches of the settings. -/
def rules (s : Settings) : List PatchRule := s.patches.source ++ s.patches.declaration

/-- The settings with other paths. -/
def withPaths (s : Settings) (input output log namespaces : Option Path) : Settings :=
  { s with
    inputDir := input, outputDir := output, logDir := log,
    selection := { s.selection with namespacesFile := namespaces } }

/-- The settings have been read, but for their paths, each of which has been read by itself. -/
structure IsValid (s : Settings) : Prop where
  read : ∃ t r, Settings.read t = .ok r ∧
    s = r.withPaths s.inputDir s.outputDir s.logDir s.selection.namespacesFile
  paths : ∀ p ∈ s.paths, ∃ t, p = Path.parse t

/-- There are no blanks at the ends of paths and of the files of patches. -/
structure IsTight (s : Settings) : Prop where
  paths : ∀ p ∈ s.paths, p.IsTight
  rules : ∀ r ∈ s.rules, Text.IsTight isBlank r.file

/-- What there is in a table of settings. -/
theorem lookup?_table (s : Settings) :
    lookup? "input_dir".toList s.table = s.inputDir.map (fun p => .text p.toText) ∧
    lookup? "output_dir".toList s.table = s.outputDir.map (fun p => .text p.toText) ∧
    lookup? "log_level".toList s.table = some (.text s.logLevel) ∧
    lookup? "log_dir".toList s.table = s.logDir.map (fun p => .text p.toText) ∧
    lookup? "reader".toList s.table = some (.table s.reader.table) ∧
    lookup? "selection".toList s.table = some (.table s.selection.table) ∧
    lookup? "rewrite".toList s.table = some (.table s.recast.table) ∧
    lookup? "cycle_groups".toList s.table = some (.table (groupTable s.cycleGroups)) ∧
    lookup? "patches".toList s.table = some (.table s.patches.table) ∧
    lookup? "verify".toList s.table = some (.table [("command", .texts s.verifyCommand)]) := by
  obtain ⟨input, output, level, log, reader, selection, recast, groups, patches, verify⟩ := s
  cases input <;> cases output <;> cases log <;>
    exact ⟨rfl, rfl, rfl, rfl, rfl, rfl, rfl, rfl, rfl, rfl⟩

/-- Every field of the settings has been read from the table. -/
structure HasRead (t : Table) (s : Settings) : Prop where
  inputDir : field t "input_dir" none path = .ok s.inputDir
  outputDir : field t "output_dir" none path = .ok s.outputDir
  logLevel : field t "log_level" "INFO".toList (fun v => (trimmedText v).map Text.toCapitals) =
    .ok s.logLevel
  logDir : field t "log_dir" none path = .ok s.logDir
  reader : field t "reader" {} (section? ReaderSettings.read) = .ok s.reader
  selection : field t "selection" {} (section? SelectionSettings.read) = .ok s.selection
  recast : field t "rewrite" {} (section? RecastSettings.read) = .ok s.recast
  groups : field t "cycle_groups" [] Checked.cycleGroups = .ok s.cycleGroups
  patches : field t "patches" {} (section? PatchSettings.read) = .ok s.patches
  verify : field t "verify" [] (section? verifySection) = .ok s.verifyCommand

/-- **Settings are read field by field.** -/
theorem read_eq_ok_iff {t : Table} {s : Settings} : read t = .ok s ↔ HasRead t s := by
  constructor
  · intro h
    obtain ⟨f₉, a₁₀, hf₉, h₁₀, rfl⟩ := ap_eq_ok_iff.1 h
    obtain ⟨f₈, a₉, hf₈, h₉, rfl⟩ := ap_eq_ok_iff.1 hf₉
    obtain ⟨f₇, a₈, hf₇, h₈, rfl⟩ := ap_eq_ok_iff.1 hf₈
    obtain ⟨f₆, a₇, hf₆, h₇, rfl⟩ := ap_eq_ok_iff.1 hf₇
    obtain ⟨f₅, a₆, hf₅, h₆, rfl⟩ := ap_eq_ok_iff.1 hf₆
    obtain ⟨f₄, a₅, hf₄, h₅, rfl⟩ := ap_eq_ok_iff.1 hf₅
    obtain ⟨f₃, a₄, hf₃, h₄, rfl⟩ := ap_eq_ok_iff.1 hf₄
    obtain ⟨f₂, a₃, hf₂, h₃, rfl⟩ := ap_eq_ok_iff.1 hf₃
    obtain ⟨f₁, a₂, hf₁, h₂, rfl⟩ := ap_eq_ok_iff.1 hf₂
    obtain ⟨f₀, a₁, hf₀, h₁, rfl⟩ := ap_eq_ok_iff.1 hf₁
    obtain rfl := Except.ok.inj hf₀
    exact ⟨h₁, h₂, h₃, h₄, h₅, h₆, h₇, h₈, h₉, h₁₀⟩
  · rintro ⟨h₁, h₂, h₃, h₄, h₅, h₆, h₇, h₈, h₉, h₁₀⟩
    rw [read, h₁, h₂, h₃, h₄, h₅, h₆, h₇, h₈, h₉, h₁₀]
    rfl

theorem forall_mem_paths {s : Settings} {P : Path → Prop} : (∀ p ∈ s.paths, P p) ↔
    (∀ p ∈ s.inputDir, P p) ∧ (∀ p ∈ s.outputDir, P p) ∧ (∀ p ∈ s.logDir, P p) ∧
      ∀ p ∈ s.selection.namespacesFile, P p := by
  simp only [paths, List.forall_mem_append, Option.mem_toList, and_assoc]
  exact Iff.rfl

/-- **Valid settings are read from their table** exactly if there are no blanks at the ends of paths
and of the files of patches. -/
theorem read_table_iff {s : Settings} (valid : s.IsValid) : read s.table = .ok s ↔ s.IsTight := by
  obtain ⟨t, r, h, same⟩ := valid.read
  have known := read_eq_ok_iff.1 h
  obtain ⟨i, o, level, l, reader, selection, recast, groups, patches, verify⟩ := lookup?_table s
  obtain ⟨readInput, readOutput, readLog, readNamespaces⟩ := forall_mem_paths.1 fun p hp =>
    show p.IsRead from (valid.paths p hp).elim fun t e => e ▸ Path.isRead_parse t
  -- the sections with paths and files
  obtain ⟨selectionTable, hselection⟩ := exists_of_field known.selection rfl
  have selectionIff := SelectionSettings.read_table_iff hselection
    (congrArg Settings.selection same :) readNamespaces
  obtain ⟨patchTable, hpatches⟩ := exists_of_field known.patches rfl
  have samePatches : s.patches = r.patches := (congrArg Settings.patches same :)
  have patchIff := PatchSettings.read_table_iff (samePatches ▸ hpatches)
  constructor
  · intro again
    have again := read_eq_ok_iff.1 again
    refine ⟨forall_mem_paths.2 ⟨?_, ?_, ?_, ?_⟩, ?_⟩
    · exact (field_path_iff i readInput).1 again.inputDir
    · exact (field_path_iff o readOutput).1 again.outputDir
    · exact (field_path_iff l readLog).1 again.logDir
    · exact selectionIff.1 ((field_eq_ok_iff selection).1 again.selection)
    · exact patchIff.1 ((field_eq_ok_iff patches).1 again.patches)
  · intro tight
    obtain ⟨tightInput, tightOutput, tightLog, tightNamespaces⟩ := forall_mem_paths.1 tight.paths
    obtain ⟨readerTable, hreader⟩ := exists_of_field known.reader rfl
    obtain ⟨recastTable, hrecast⟩ := exists_of_field known.recast rfl
    obtain ⟨verifyTable, hverify⟩ := exists_of_field known.verify rfl
    have sameReader : s.reader = r.reader := (congrArg Settings.reader same :)
    have sameRecast : s.recast = r.recast := (congrArg Settings.recast same :)
    have sameLevel : s.logLevel = r.logLevel := (congrArg logLevel same :)
    have sameGroups : s.cycleGroups = r.cycleGroups := (congrArg cycleGroups same :)
    have sameVerify : s.verifyCommand = r.verifyCommand := (congrArg verifyCommand same :)
    have again : verifySection [("command", .texts s.verifyCommand)] = .ok s.verifyCommand := by
      rw [verifySection, field_eq_ok_iff rfl, sameVerify]
      exact keeps_of_field keeps_list rfl hverify
    exact read_eq_ok_iff.2
      { inputDir := (field_path_iff i readInput).2 tightInput
        outputDir := (field_path_iff o readOutput).2 tightOutput
        logLevel := (field_eq_ok_iff level).2
          (sameLevel ▸ keeps_of_field keeps_level rfl known.logLevel)
        logDir := (field_path_iff l readLog).2 tightLog
        reader := (field_eq_ok_iff reader).2 (sameReader ▸ ReaderSettings.read_table hreader)
        selection := (field_eq_ok_iff selection).2 (selectionIff.2 tightNamespaces)
        recast := (field_eq_ok_iff recast).2 (sameRecast ▸ RecastSettings.read_table hrecast)
        groups := (field_eq_ok_iff groups).2
          (sameGroups ▸ keeps_of_field keeps_cycleGroups rfl known.groups)
        patches := (field_eq_ok_iff patches).2 (patchIff.2 tight.rules)
        verify := (field_eq_ok_iff verify).2 again }

/-! ## Loading what has been written -/

/-- The settings that are loaded from the file that settings are written to, over nothing and under
nothing. -/
def reload (commentary : Bool) (s : Settings) : Except Failure Settings := do
  let file ← Toml.read (s.write commentary)
  load [] file []

theorem nodup_table (s : Settings) : (s.table.map Prod.fst).Nodup := by
  have keys : (s.table.map Prod.fst).Sublist
      ["input_dir", "output_dir", "log_level", "log_dir", "reader", "selection", "rewrite",
        "cycle_groups", "patches", "verify"] := by
    rw [table, List.map_append]
    exact (sublist_topTable s).append (.refl _)
  exact keys.nodup (by decide)

theorem reload_eq_ok_iff {s s' : Settings} (distinct : (s.cycleGroups.map Prod.fst).Nodup)
    (commentary : Bool) : reload commentary s = .ok s' ↔ read s.table = .ok s' := by
  obtain ⟨-, -, -, -, -, -, -, groups, -⟩ := lookup?_table s
  rw [reload, read_write distinct]
  exact load_nil_iff (nodup_table s) groups

theorem isValid_of_read {t : Table} {s : Settings} (h : read t = .ok s) : s.IsValid := by
  have known := read_eq_ok_iff.1 h
  obtain ⟨selectionTable, hselection⟩ := exists_of_field known.selection rfl
  exact ⟨⟨t, s, h, rfl⟩, forall_mem_paths.2
    ⟨exists_parse_of_field known.inputDir, exists_parse_of_field known.outputDir,
      exists_parse_of_field known.logDir, SelectionSettings.exists_parse_of_read hselection⟩⟩

/-- **Written settings are loaded again.** With or without commentary, the file of valid settings
gives the same settings if no path and no file of a patch has blanks at its ends, and only then. -/
theorem reload_iff {s : Settings} (valid : s.IsValid) (commentary : Bool) :
    reload commentary s = .ok s ↔ s.IsTight := by
  obtain ⟨t, r, h, same⟩ := valid.read
  have groups := keeps_of_field keeps_cycleGroups rfl (read_eq_ok_iff.1 h).groups
  have sameGroups : s.cycleGroups = r.cycleGroups := (congrArg cycleGroups same :)
  have distinct := (isTidyGroups_of_cycleGroups groups).nodup
  rw [← sameGroups] at distinct
  exact (reload_eq_ok_iff distinct commentary).trans (read_table_iff valid)

/-- Settings with paths, a group of files and patches. -/
theorem reload_iff_patched :
    let s : Settings :=
      { inputDir := some ⟨.here, ["src"]⟩
        outputDir := some ⟨.root, ["tmp", "out"]⟩
        cycleGroups := [("lib/pair.js", ["lib/a.js", "lib/b.js"])]
        patches :=
          { source := [⟨"lib/a.js", "x(\\d)", "y\\1", true, false⟩]
            declaration := [⟨"lib/a", "any", [], false, true⟩] }
        verifyCommand := ["tsc", "-p"] }
    s.IsValid ∧ s.IsTight ∧ reload true s = .ok s := by
  intro s
  have read : Settings.read
      [("input_dir", .text "src"), ("output_dir", .text "/tmp/out/"),
       ("cycle_groups", .table [("lib/pair.js", .texts ["lib/a.js", " lib/b.js", "lib/a.js"])]),
       ("patches", .table
         [("source", .list [.table [("file", .text "/lib/a.js"), ("search", .text "x(\\d)"),
            ("replace", .text "y\\1"), ("regex", .flag true)]]),
          ("declaration", .list [.table [("file", .text "lib/a"), ("search", .text "any"),
            ("strict", .flag true)]])]),
       ("verify", .table [("command", .texts ["tsc", "-p"])])] = .ok s := by rfl
  have valid : s.IsValid := isValid_of_read read
  have tight : s.IsTight := ⟨by decide, by decide⟩
  exact ⟨valid, tight, (reload_iff valid true).2 tight⟩

/-- The file of a patch may begin with a blank when it has been read, since the slash in front of it
is taken away after the blanks. It has lost the blank when the settings are loaded again. -/
theorem reload_loses_blank :
    let s : Settings := { patches := { source := [⟨" a.js", "x", [], false, false⟩] } }
    read [("patches", .table [("source", .list [.table [("file", .text "/ a.js"),
      ("search", .text "x")]])])] = .ok s ∧ reload false s ≠ .ok s := by
  intro s
  have read : Settings.read [("patches", .table [("source", .list [.table
      [("file", .text "/ a.js"), ("search", .text "x")]])])] = .ok s := by rfl
  refine ⟨read, fun same => ?_⟩
  have again := (reload_eq_ok_iff (by decide) false).1 same
  have tight := (read_table_iff (isValid_of_read read)).1 again
  exact absurd (tight.rules ⟨" a.js", "x", [], false, false⟩ (by decide)) (by decide)

end Settings

end Modulize
