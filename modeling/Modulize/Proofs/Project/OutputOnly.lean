import Modulize.Proofs.Project.Confined
import Modulize.Settings.Defaults

/-!
# A conversion writes below its output folder

A run finds its two folders without a change, and they lie apart (`runOn_folders`); its stages are
confined to the output folder (`confined_of_folders`). So it leaves the input folder as it was
(`run_confined`), as long as the groups of files to be merged have paths below the output folder.
Nothing else holds them there: a member that leads out of the output folder is removed from where it
is (`run_removes_input`).
-/

namespace Modulize

open Modulize.Path (IsResolved IsBelow)

namespace Settings

/-- The input folder, from the root of all files. -/
def inputRoot? (s : Settings) (fs : FileStore) : Option Path :=
  s.inputDir.bind fun p => (fs.resolve p).toOption

/-- The output folder, from the root of all files. -/
def outputRoot? (s : Settings) (fs : FileStore) : Option Path :=
  s.outputDir.bind fun p => (fs.resolve p).toOption

end Settings

namespace Conversion

open Session

variable {source output : Path} (s : Settings)

theorem confined_recastTree (resolved : output.IsResolved) :
    Confined output (recastTree s output) fun _ => True := by
  unfold recastTree
  refine confined_bind (confined_readTree _ resolved) fun g hg => ?_
  refine confined_bind (confined_ofResult fun _ _ => trivial) fun _ _ => ?_
  exact confined_recastFiles resolved g s.recast hg.files

theorem confined_selectFrom (hsource : source.IsResolved) :
    Confined output (selectFrom s source) fun selected =>
      ∀ files, selected = some files → ∀ p ∈ files, IsBelow source p := by
  unfold selectFrom
  split
  · exact confined_pure fun _ none => nomatch none
  · rename_i file named
    refine confined_bind (confined_readTree _ hsource) fun g hg => ?_
    unfold selectIn
    rw [named]
    dsimp only
    refine confined_bind (confined_look (P := fun _ => True) fun _ _ => trivial)
      fun isThere _ => ?_
    split
    · refine confined_bind (confined_namesListedIn file) fun names _ => ?_
      refine confined_bind (confined_pure (P := (· = g)) rfl) fun g' same => ?_
      subst same
      refine confined_map (confined_select hg names _) fun found below files same => ?_
      exact Option.some.inj same ▸ below
    · exact confined_throw _

theorem confined_copyInput (resolved : output.IsResolved) (hsource : source.IsResolved)
    {selected : Option (List Path)}
    (below : ∀ files, selected = some files → ∀ p ∈ files, IsBelow source p) :
    Confined output (copyInput source output selected) fun _ => True := by
  unfold copyInput
  refine confined_bind (confined_clear resolved) fun _ _ => ?_
  split
  · exact confined_discard (confined_copyTree resolved hsource)
  · rename_i files
    refine confined_discard (confined_copyFiles resolved source fun p hp => ?_)
    exact ((below files rfl p hp).isResolved hsource).names

theorem isWithin_of_above {p base : Path} (anchor : p.anchor = base.anchor)
    (h : base.names <+: p.names) : p.isWithin base = true := by
  rw [Path.isWithin, Path.relativeTo?, if_pos ⟨anchor, List.isPrefixOf_iff_prefix.2 h⟩]
  rfl

theorem runOn_inputFolder (w : World) :
    ∃ found, (inputFolder s).runOn w = (found, w) ∧
      ∀ source, found = .ok source → s.inputRoot? w.files = some source := by
  unfold inputFolder Settings.inputRoot?
  cases s.inputDir with
  | none => exact ⟨.error _, rfl, fun _ => nofun⟩
  | some p =>
    simp only [runOn_bind, runOn_read, Option.bind_some]
    cases w.files.resolve p with
    | error f => exact ⟨.error f, rfl, fun _ => nofun⟩
    | ok source =>
      simp only [runOn_look]
      split
      · exact ⟨.ok source, rfl, fun _ same => congrArg some (Except.ok.inj same)⟩
      · exact ⟨.error _, rfl, fun _ => nofun⟩

/-- The folders are found without a change, and lie apart. -/
theorem runOn_folders (w : World) :
    ∃ found, (folders s).runOn w = (found, w) ∧ ∀ source output, found = .ok (source, output) →
      s.inputRoot? w.files = some source ∧ s.outputRoot? w.files = some output ∧
        ¬ output.isWithin source ∧ ¬ source.isWithin output := by
  unfold folders outputFolder Settings.outputRoot?
  obtain ⟨found, run, input⟩ := runOn_inputFolder s w
  simp only [runOn_bind, run]
  cases found with
  | error f => exact ⟨.error f, rfl, fun _ _ => nofun⟩
  | ok source =>
    cases s.outputDir with
    | none => exact ⟨.error _, rfl, fun _ _ => nofun⟩
    | some p =>
      simp only [runOn_pure, runOn_read, Option.bind_some]
      cases w.files.resolve p with
      | error f => exact ⟨.error f, rfl, fun _ _ => nofun⟩
      | ok output =>
        dsimp only
        split
        · exact ⟨.error _, rfl, fun _ _ => nofun⟩
        · rename_i outside
          split
          · exact ⟨.error _, rfl, fun _ _ => nofun⟩
          · rename_i around
            refine ⟨.ok (source, output), rfl, fun _ _ same => ?_⟩
            obtain ⟨rfl, rfl⟩ := Prod.mk.inj (Except.ok.inj same)
            exact ⟨input source rfl, rfl, outside, around⟩

/-- Once the folders have been found, a run without a check is confined to the output folder. -/
theorem confined_of_folders {w : World} (hlog : w.logFile = none) (plain : w.files.Plain)
    (resolved : output.IsResolved) (hsource : source.IsResolved)
    (below : ∀ group ∈ s.cycleGroups, GroupLeadsBelow output group)
    (found : (folders s).runOn w = (.ok (source, output), w)) :
    FileStore.Confined output w.files ((run s false).runOn w).2.files := by
  rw [run, runOn_bind, found]
  refine Confined.files (P := fun _ => True) ?_ hlog plain
  refine confined_bind (confined_emit _) fun _ _ => ?_
  refine confined_bind (confined_selectFrom s hsource) fun selected hselected => ?_
  refine confined_bind (confined_copyInput resolved hsource hselected) fun _ _ => ?_
  refine confined_bind (confined_discard (confined_patchTree resolved _)) fun _ _ => ?_
  refine confined_bind (confined_mergeGroups _ below) fun merged _ => ?_
  refine confined_bind (confined_sources _ resolved) fun paths hpaths => ?_
  refine confined_bind (confined_convertClasses resolved _ hpaths) fun classes _ => ?_
  refine confined_bind (confined_recastTree s resolved) fun outcomes _ => ?_
  refine confined_bind (P := fun _ => True) (confined_pure trivial) fun checked _ => ?_
  exact confined_report _ trivial

theorem isResolved_of_root {fs : FileStore} {dir : Option Path} {root : Path}
    (h : (dir.bind fun p => (fs.resolve p).toOption) = some root) : root.IsResolved := by
  obtain ⟨p, -, h⟩ := Option.bind_eq_some_iff.1 h
  cases resolved : fs.resolve p with
  | error f =>
    rw [resolved] at h
    cases h
  | ok q =>
    rw [resolved] at h
    obtain rfl := Option.some.inj h
    exact FileStore.isResolved_of_resolve resolved

/-- **A run writes below its output folder only.** If the paths of the groups of files lead there,
then a run without a check, whether it succeeds or fails, leaves every file outside the output
folder as it was, and so every file of the input folder. -/
theorem run_confined {w : World} (hlog : w.logFile = none) (plain : w.files.Plain)
    (below : ∀ output ∈ s.outputRoot? w.files, ∀ group ∈ s.cycleGroups,
      GroupLeadsBelow output group) :
    (∀ names, (∀ output ∈ s.outputRoot? w.files, ¬ output.names <+: names) →
      w.files.SameFile ((run s false).runOn w).2.files names) ∧
    ∀ source ∈ s.inputRoot? w.files, ∀ names, source.names <+: names →
      w.files.SameFile ((run s false).runOn w).2.files names := by
  obtain ⟨found, run, apart⟩ := runOn_folders s w
  cases found with
  | error f =>
    have nothing : ((Conversion.run s false).runOn w).2 = w := by
      rw [Conversion.run, runOn_bind, run]
    rw [nothing]
    exact ⟨fun _ _ _ => Iff.rfl, fun _ _ _ _ _ => Iff.rfl⟩
  | ok folders =>
    obtain ⟨source, output⟩ := folders
    obtain ⟨input, out, outside, around⟩ := apart source output rfl
    have resolved := isResolved_of_root out
    have hsource := isResolved_of_root input
    have confined := confined_of_folders s hlog plain resolved hsource (below output out) run
    refine ⟨fun names far => confined.outside names (far output out), fun source' h names hn => ?_⟩
    obtain rfl : source = source' := Option.some.inj (input.symm.trans h)
    refine confined.outside names fun inside => ?_
    -- two folders above one file lie within each other
    have anchors : output.anchor = source.anchor := resolved.anchor.trans hsource.anchor.symm
    rcases List.prefix_or_prefix_of_prefix inside hn with within | within
    · exact around (isWithin_of_above anchors.symm within)
    · exact outside (isWithin_of_above anchors within)

/-- Settings with a group of one file. -/
def groupSettings (member : Text) : Settings where
  inputDir := some ⟨.root, ["src"]⟩
  outputDir := some ⟨.root, ["out"]⟩
  cycleGroups := [("b.js", [member])]

/-- An input folder with one file. -/
def groupTree : FileStore where
  entries :=
    [(["src".toList], .folder),
     (["src".toList, "a.js".toList], .file (.text "var x = 1;\n"))]
  here := []

theorem plain_groupTree : groupTree.Plain where
  names := by decide
  links := by simp [groupTree]

theorem run_confined_group :
    groupTree.Plain ∧
      (∀ output ∈ (groupSettings "a.js").outputRoot? groupTree,
        ∀ group ∈ (groupSettings "a.js").cycleGroups, GroupLeadsBelow output group) ∧
      ((run (groupSettings "a.js") false).runOn (.start groupTree)).2.files.entry?
        ["out", "b.js"] = some (.file (.text "var x = 1;\n")) ∧
      ((run (groupSettings "a.js") false).runOn (.start groupTree)).2.files.entry?
        ["src", "a.js"] = some (.file (.text "var x = 1;\n")) := by
  have below : ∀ output ∈ (groupSettings "a.js").outputRoot? groupTree,
      ∀ group ∈ (groupSettings "a.js").cycleGroups, GroupLeadsBelow output group := by
    have root : (groupSettings "a.js").outputRoot? groupTree = some ⟨.root, ["out"]⟩ := by rfl
    intro output found group hgroup m hm
    obtain rfl := Option.some.inj (root.symm.trans found)
    obtain rfl := List.mem_singleton.1 hgroup
    rcases List.mem_pair.1 hm with rfl | rfl
    · exact ⟨by rfl, by decide⟩
    · exact ⟨by rfl, by decide⟩
  obtain ⟨-, input⟩ := run_confined (groupSettings "a.js") (w := .start groupTree) rfl
    plain_groupTree below
  have source : (groupSettings "a.js").inputRoot? groupTree = some ⟨.root, ["src"]⟩ := by rfl
  have within : ["src".toList] <+: ["src".toList, "a.js".toList] :=
    List.prefix_append ["src".toList] ["a.js".toList]
  have kept := input _ source ["src", "a.js"] within (.text "var x = 1;\n")
  exact ⟨plain_groupTree, below, by decide +kernel, kept.2 (by rfl)⟩

/-- The same settings as they are written. -/
def groupTable (member : Text) : Table :=
  [("input_dir", .text "/src"), ("output_dir", .text "/out"),
   ("cycle_groups", .table [("b.js", .list [.text member])])]

/-- A member of a group that leads out of the output folder is removed from the input folder. -/
theorem run_removes_input :
    Settings.load [] (groupTable "../src/a.js") [] = .ok (groupSettings "../src/a.js") ∧
      groupTree.Plain ∧
      groupTree.entry? ["src", "a.js"] = some (.file (.text "var x = 1;\n")) ∧
      ((run (groupSettings "../src/a.js") false).runOn (.start groupTree)).2.files.entry?
        ["src", "a.js"] = none :=
  ⟨by rfl, plain_groupTree, by rfl, by decide +kernel⟩

end Conversion

end Modulize
