import Modulize.Proofs.Toml.Sections
import Modulize.Proofs.Toml.Written
import Modulize.Settings.Document

/-!
# What written settings say

`Settings.table` is the table that a written settings file describes, with or without commentary:
`read_write` reads it off the text. All that is asked of the settings is that no group of files has
the target of another.
-/

namespace Modulize

open Toml

/-! ## The tables of the sections -/

/-- A list of texts as a value. -/
def Value.texts (ts : List Text) : Value := .list (ts.map .text)

/-- The entry for a path, when there is one. -/
def pathEntries (key : Text) (p : Option Path) : Table :=
  p.toList.map fun p => (key, .text p.toText)

/-- The table of the section about reading. -/
def ReaderSettings.table (r : ReaderSettings) : Table :=
  [("extensions", .texts r.extensions), ("exclude_patterns", .texts r.excludePatterns),
   ("test_patterns", .texts r.testPatterns), ("test_only_marker", .text r.testOnlyMarker),
   ("implicit_root_require", .flag r.impliesRoot), ("root_files", .texts r.rootFiles),
   ("respect_gitignore", .flag r.respectsIgnoreFiles)]

/-- The table of the section about selecting. -/
def SelectionSettings.table (s : SelectionSettings) : Table :=
  pathEntries "required_namespaces_file" s.namespacesFile ++
    ([("include_tests", .flag s.includeTests), ("test_suffix", .text s.testSuffix)] : Table)

/-- The table of the section about recasting. -/
def RecastSettings.table (r : RecastSettings) : Table :=
  [("root_namespace", .text r.root), ("max_alias_attempts", .number r.maxAliasAttempts),
   ("reserved_names", .texts r.reservedNames), ("root_allowlist", .texts r.rootAllowlist)]

/-- The table of a patch. -/
def PatchRule.table (r : PatchRule) : Table :=
  [("file", .text r.file), ("search", .text r.search), ("replace", .text r.replace),
   ("regex", .flag r.isRegex), ("strict", .flag r.isStrict)]

/-- The table of the section about patches. -/
def PatchSettings.table (p : PatchSettings) : Table :=
  listEntry "source" (p.source.map PatchRule.table) ++
    listEntry "declaration" (p.declaration.map PatchRule.table)

namespace Settings

/-- The table of the groups of files. -/
def groupTable (groups : List (Text × List Text)) : Table :=
  groups.map fun (target, members) => (target, .texts members)

/-- The entries that stand in no section. -/
def topTable (s : Settings) : Table :=
  pathEntries "input_dir" s.inputDir ++ pathEntries "output_dir" s.outputDir ++
    ([("log_level", .text s.logLevel)] : Table) ++ pathEntries "log_dir" s.logDir

/-- The table that a settings file for given settings describes. -/
def table (s : Settings) : Table :=
  s.topTable ++
    ([("reader", .table s.reader.table), ("selection", .table s.selection.table),
      ("rewrite", .table s.recast.table), ("cycle_groups", .table (groupTable s.cycleGroups)),
      ("patches", .table s.patches.table),
      ("verify", .table [("command", .texts s.verifyCommand)])] : Table)

end Settings

/-! ## Their keys -/

theorem sublist_pathEntries (key : Text) (p : Option Path) :
    ((pathEntries key p).map Prod.fst).Sublist [key] := by
  cases p <;> simp [pathEntries]

theorem ReaderSettings.nodup_table (r : ReaderSettings) : (r.table.map Prod.fst).Nodup :=
  show ((ReaderSettings.table {}).map Prod.fst).Nodup by decide

theorem SelectionSettings.nodup_table (s : SelectionSettings) : (s.table.map Prod.fst).Nodup := by
  have keys : (s.table.map Prod.fst).Sublist
      ["required_namespaces_file", "include_tests", "test_suffix"] := by
    simp only [table, List.map_append]
    exact (sublist_pathEntries _ _).append (.refl _)
  exact keys.nodup (by decide)

theorem RecastSettings.nodup_table (r : RecastSettings) : (r.table.map Prod.fst).Nodup :=
  show ((RecastSettings.table {}).map Prod.fst).Nodup by decide

theorem PatchRule.nodup_table (r : PatchRule) : (r.table.map Prod.fst).Nodup :=
  show ((PatchRule.table ⟨[], [], [], false, false⟩).map Prod.fst).Nodup by decide

theorem PatchRule.isWhole_table (r : PatchRule) : ∀ e ∈ r.table, isWhole e.2 = false := by
  simp [table, isWhole]

namespace Settings

theorem sublist_topTable (s : Settings) :
    (s.topTable.map Prod.fst).Sublist ["input_dir", "output_dir", "log_level", "log_dir"] := by
  simp only [topTable, List.map_append]
  exact (((sublist_pathEntries _ _).append (sublist_pathEntries _ _)).append (.refl _)).append
    (sublist_pathEntries _ _)

theorem isWhole_topTable (s : Settings) : ∀ e ∈ s.topTable, isWhole e.2 = false := by
  have path (key : Text) (p : Option Path) : ∀ e ∈ pathEntries key p, isWhole e.2 = false := by
    cases p <;> simp [pathEntries, isWhole]
  simp only [topTable, List.forall_mem_append]
  exact ⟨⟨⟨path _ _, path _ _⟩, by simp [isWhole]⟩, path _ _⟩

end Settings

/-! ## The statements -/

namespace Toml

theorem statements_append (ls ls' : List Line) :
    statements (ls ++ ls') = statements ls ++ statements ls' := List.filterMap_append

theorem statements_flatMap {α : Type} (f : α → List Line) (l : List α) :
    statements (l.flatMap f) = l.flatMap fun a => statements (f a) := List.filterMap_flatMap ..

theorem statements_blank (ls : List Line) : statements (.blank :: ls) = statements ls := rfl

end Toml

namespace Settings

theorem statements_pathEntry (key : Text) (p : Option Path) :
    statements (pathEntry key p) = entriesOf (pathEntries key p) := by
  cases p <;> rfl

theorem statements_topLines (s : Settings) : statements s.topLines = entriesOf s.topTable := by
  simp only [topLines, topTable, statements_append, statements_pathEntry, entriesOf,
    List.map_append]
  rfl

theorem statements_readerLines (r : ReaderSettings) :
    statements (readerLines r) = sectionOf "reader" r.table := rfl

theorem statements_selectionLines (commentary : Bool) (s : SelectionSettings) :
    statements (selectionLines commentary s) = sectionOf "selection" s.table := by
  cases commentary <;>
    simp only [selectionLines, SelectionSettings.table, statements_append, statements_pathEntry,
      entriesOf, List.map_append, sectionOf] <;>
    rfl

theorem statements_recastLines (r : RecastSettings) :
    statements (recastLines r) = sectionOf "rewrite" r.table := rfl

theorem statements_groupLines (groups : List (Text × List Text)) :
    statements (groupLines groups) = sectionOf "cycle_groups" (groupTable groups) := by
  have entries : (groups.map fun (target, members) =>
      Line.entry target (.texts members)).filterMap Line.statement? =
      entriesOf (groupTable groups) := by
    rw [entriesOf, groupTable, List.filterMap_map, List.map_map, ← List.filterMap_eq_map]
    rfl
  exact congrArg (Statement.header ["cycle_groups"] :: ·) entries

theorem statements_patchLines (list : Text) (rules : List PatchRule) :
    (rules.map (patchLines list)).flatMap statements =
      membersOf "patches" list (rules.map PatchRule.table) := by
  simp only [membersOf, List.flatMap_map]
  rfl

theorem statements_verifyLines (command : List Text) :
    statements (verifyLines command) = sectionOf "verify" [("command", .texts command)] := rfl

/-- The statements about patches. -/
def patchStatements (p : PatchSettings) : List Statement :=
  if p.source = [] ∧ p.declaration = [] then sectionOf "patches" []
  else membersOf "patches" "source" (p.source.map PatchRule.table) ++
    membersOf "patches" "declaration" (p.declaration.map PatchRule.table)

theorem statements_patchSections (commentary : Bool) (p : PatchSettings) :
    (patchSections commentary p).flatMap statements = patchStatements p := by
  rw [patchStatements]
  split
  · rename_i none
    obtain ⟨source, declaration⟩ := p
    obtain ⟨rfl, rfl⟩ := none
    cases commentary <;> rfl
  · rename_i some
    have sections : patchSections commentary p =
        p.source.map (patchLines "source") ++ p.declaration.map (patchLines "declaration") := by
      rw [patchSections]
      split
      · rename_i empty
        simp only [List.append_eq_nil_iff, List.map_eq_nil_iff] at empty
        exact absurd empty some
      · rfl
    rw [sections, List.flatMap_append, statements_patchLines, statements_patchLines]

/-- **The statements of a settings file**, section by section; commentary adds none. -/
theorem statements_document (commentary : Bool) (s : Settings) :
    statements (s.document commentary) = entriesOf s.topTable ++
      (sectionOf "reader" s.reader.table ++ (sectionOf "selection" s.selection.table ++
        (sectionOf "rewrite" s.recast.table ++
          (sectionOf "cycle_groups" (groupTable s.cycleGroups) ++
            (patchStatements s.patches ++
              sectionOf "verify" [("command", .texts s.verifyCommand)]))))) := by
  have opening : statements (if commentary then openingComments else []) = [] := by
    cases commentary <;> rfl
  simp only [document, statements_append, opening, List.nil_append, statements_topLines,
    statements_flatMap, List.flatMap_append, statements_patchSections, List.flatMap_cons,
    List.flatMap_nil, statements_blank, statements_readerLines, statements_selectionLines,
    statements_recastLines, statements_groupLines, statements_verifyLines, List.append_assoc,
    List.append_nil]

/-! ## What they say -/

theorem foldlM_patchStatements {r : Reading} {names : List Text} (p : PatchSettings)
    (between : IsBetween r names) (new : "patches".toList ∉ names) :
    ∃ r', (patchStatements p).foldlM Reading.step r = some r' ∧
      r'.table = r.table ++ [("patches".toList, .table p.table)] ∧
      IsBetween r' ("patches".toList :: names) := by
  rw [patchStatements]
  split
  · rename_i none
    have empty : p.table = [] := by
      rw [PatchSettings.table, none.1, none.2]
      rfl
    rw [empty]
    exact foldlM_sectionOf [] between new List.nodup_nil
  · rename_i some
    have rules : ∀ es ∈ p.source.map PatchRule.table ++ p.declaration.map PatchRule.table,
        ∃ rule : PatchRule, es = rule.table := by
      intro es he
      rw [← List.map_append] at he
      obtain ⟨rule, -, rfl⟩ := List.mem_map.1 he
      exact ⟨rule, rfl⟩
    refine foldlM_lists between new (by decide) ?_ ?_ ?_
    · simpa only [List.map_eq_nil_iff] using some
    · intro es he
      obtain ⟨rule, rfl⟩ := rules es he
      exact rule.nodup_table
    · intro es he
      obtain ⟨rule, rfl⟩ := rules es he
      exact rule.isWhole_table

/-- **What written settings say** when no group of files has the target of another. -/
theorem meaning?_document {s : Settings} (distinct : (s.cycleGroups.map Prod.fst).Nodup)
    (commentary : Bool) : meaning? (statements (s.document commentary)) = some s.table := by
  have keys := sublist_topTable s
  obtain ⟨r₀, run₀, table₀, between₀⟩ := foldlM_start (keys.nodup (by decide)) (isWhole_topTable s)
  obtain ⟨r₁, run₁, table₁, between₁⟩ := foldlM_sectionOf s.reader.table (h := "reader")
    (between₀.mono keys.subset) (by decide) s.reader.nodup_table
  obtain ⟨r₂, run₂, table₂, between₂⟩ := foldlM_sectionOf s.selection.table
    (h := "selection") between₁ (by decide) s.selection.nodup_table
  obtain ⟨r₃, run₃, table₃, between₃⟩ := foldlM_sectionOf s.recast.table
    (h := "rewrite") between₂ (by decide) s.recast.nodup_table
  obtain ⟨r₄, run₄, table₄, between₄⟩ := foldlM_sectionOf (groupTable s.cycleGroups)
    (h := "cycle_groups") between₃ (by decide)
    (by simpa [groupTable, Function.comp_def] using distinct)
  obtain ⟨r₅, run₅, table₅, between₅⟩ := foldlM_patchStatements s.patches between₄ (by decide)
  obtain ⟨r₆, run₆, table₆, between₆⟩ := foldlM_sectionOf
    [("command", .texts s.verifyCommand)] (h := "verify") between₅ (by decide) (by simp)
  have run : (statements (s.document commentary)).foldlM Reading.step Reading.start = some r₆ := by
    simp only [statements_document, List.foldlM_append, run₀, run₁, run₂, run₃, run₄, run₅, run₆,
      Option.bind_eq_bind, Option.bind_some]
  rw [meaning?, run, Option.map_some, table₆, table₅, table₄, table₃, table₂, table₁, table₀]
  simp [table]

/-- The lines can be written: no header is without a key, and the comments are on one line. -/
theorem isPlain_document (s : Settings) (commentary : Bool) :
    ∀ l ∈ s.document commentary, l.IsPlain := by
  have path (key : Text) (p : Option Path) : ∀ l ∈ pathEntry key p, l.IsPlain := by
    cases p <;> simp [pathEntry, Line.IsPlain]
  have top : ∀ l ∈ s.topLines, l.IsPlain := by
    simp only [topLines, List.forall_mem_append]
    exact ⟨⟨⟨path _ _, path _ _⟩, by simp [Line.IsPlain]⟩, path _ _⟩
  have reader : ∀ l ∈ readerLines s.reader, l.IsPlain := by simp [readerLines, Line.IsPlain]
  have selection : ∀ l ∈ selectionLines commentary s.selection, l.IsPlain := by
    simp only [selectionLines, List.forall_mem_append]
    refine ⟨⟨⟨by simp [Line.IsPlain], ?_⟩, path _ _⟩, by simp [Line.IsPlain]⟩
    cases commentary <;> decide
  have recast : ∀ l ∈ recastLines s.recast, l.IsPlain := by simp [recastLines, Line.IsPlain]
  have groups : ∀ l ∈ groupLines s.cycleGroups, l.IsPlain :=
    List.forall_mem_cons.2 ⟨List.cons_ne_nil _ _, List.forall_mem_map.2 fun _ _ => trivial⟩
  have rule (list : Text) (r : PatchRule) : ∀ l ∈ patchLines list r, l.IsPlain := by
    simp [patchLines, Line.IsPlain]
  have patches : ∀ ls ∈ patchSections commentary s.patches, ∀ l ∈ ls, l.IsPlain := by
    rw [patchSections]
    split
    · cases commentary <;> decide
    · simp only [List.forall_mem_append, List.forall_mem_map]
      exact ⟨fun r _ => rule _ r, fun r _ => rule _ r⟩
  have verify : ∀ l ∈ verifyLines s.verifyCommand, l.IsPlain := by simp [verifyLines, Line.IsPlain]
  have opening : ∀ l ∈ (if commentary then openingComments else []), l.IsPlain := by
    cases commentary <;> decide
  have blank {ls : List Line} (h : ∀ l ∈ ls, l.IsPlain) : ∀ l ∈ Line.blank :: ls, l.IsPlain :=
    List.forall_mem_cons.2 ⟨trivial, h⟩
  have first : ∀ ls ∈ [readerLines s.reader, selectionLines commentary s.selection,
      recastLines s.recast, groupLines s.cycleGroups], ∀ l ∈ Line.blank :: ls, l.IsPlain :=
    List.forall_mem_cons.2 ⟨blank reader, List.forall_mem_cons.2 ⟨blank selection,
      List.forall_mem_cons.2 ⟨blank recast, List.forall_mem_singleton.2 (blank groups)⟩⟩⟩
  simp only [document, List.forall_mem_append, List.forall_mem_flatMap]
  exact ⟨⟨opening, top⟩, ⟨first, fun ls hls => blank (patches ls hls)⟩,
    List.forall_mem_singleton.2 (blank verify)⟩

/-- **A written settings file is read back** as the table of the settings. -/
theorem read_write {s : Settings} (distinct : (s.cycleGroups.map Prod.fst).Nodup)
    (commentary : Bool) : Toml.read (s.write commentary) = .ok s.table :=
  Toml.read_write (s.isPlain_document commentary) (meaning?_document distinct commentary)

end Settings

end Modulize
