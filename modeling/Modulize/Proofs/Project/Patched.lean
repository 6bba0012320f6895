import Modulize.Project.Patching
import Modulize.Proofs.Files.Searched
import Modulize.Proofs.Patch.Rules
import Modulize.Proofs.Project.Recasting

/-!
# A tree is patched file by file

The files that rules can be meant for are those below the root whose names end with the extension
(`IsCandidate`). A run goes through them in order and puts into the place of each the text that the
rules which are meant for it make of its own (`runOn_patchFiles`); it completes exactly if every
strict rule is meant for one of them and finds something in each that it is meant for
(`IsFulfilled`). Then the files hold what has been made of them, everything else is unchanged, and
the files whose texts have changed are listed in order (`PatchedFrom`).

The main statement is `patchTree_composes`. It needs an extension without wildcards: with brackets
in it, a file whose name ends with the extension may not be found (`patchTree_misses_file`).
-/

namespace Modulize

open FileStore (IsSearchable write_of_contentAt)
open Recast (rewrite LeadApart)

namespace FileStore

/-- All the files below the folder `top` are texts, and a search can go through them. -/
structure IsPatchable (fs : FileStore) (root : Path) (top : List Text) : Prop extends
    fs.IsSearchable root top where
  texts : ∀ rel c, fs.entry? (top ++ rel) = some (.file c) → ∃ t, c = .text t

/-- A file that rules can be meant for: its way `rel` from the root, and its text as it is read. -/
structure IsCandidate (fs : FileStore) (extension : Text) (root : Path) (top rel : List Text)
    (t : Text) : Prop where
  file : ∃ c, fs.entry? (top ++ rel) = some (.file c)
  ends : extension <:+ rel.getLast?.getD []
  source : fs.sourceAt ⟨root.anchor, root.names ++ rel⟩ = .ok t

end FileStore

namespace PatchRule

/-- The path of a file below the root, as rules read it. -/
def pathTo (rel : List Text) : Text := Path.toText ⟨.here, rel⟩

/-- What the rules make of a file below the root. -/
def made (extension : Text) (rules : List PatchRule) (rel : List Text) (t : Text) : Text :=
  textAfter extension (pathTo rel) rules t

/-- Every strict rule is meant for one of the files at least, and finds something in each that it is
meant for, in what the rules before it have left of the text. -/
structure IsFulfilled (fs : FileStore) (extension : Text) (root : Path) (top : List Text)
    (rules : List PatchRule) : Prop where
  meant : ∀ r ∈ rules, r.isStrict = true → ∃ rel t, fs.IsCandidate extension root top rel t ∧
    r.targets (pathTo rel) extension = true
  found : ∀ before r later, rules = before ++ r :: later → r.isStrict = true →
    ∀ rel t, fs.IsCandidate extension root top rel t → r.targets (pathTo rel) extension = true →
      r.Finds (made extension before rel t)

/-- Each file holds what the rules that are meant for it make of its text in `fs`, nothing else has
changed, and the files with new texts are listed in order. -/
structure PatchedFrom (fs : FileStore) (extension : Text) (root : Path) (top : List Text)
    (rules : List PatchRule) (changed : List Path) (fs' : FileStore) : Prop where
  texts : ∀ rel t, fs.IsCandidate extension root top rel t →
    fs'.entry? (top ++ rel) =
      if made extension rules rel t = t then fs.entry? (top ++ rel)
      else some (.file (.text (made extension rules rel t)))
  others : ∀ names, (∀ rel t, fs.IsCandidate extension root top rel t →
    (∃ r ∈ rules, r.targets (pathTo rel) extension = true) → names ≠ top ++ rel) →
      fs'.entry? names = fs.entry? names
  listed : ∀ p, p ∈ changed ↔ ∃ rel t, fs.IsCandidate extension root top rel t ∧
    made extension rules rel t ≠ t ∧ p = ⟨root.anchor, root.names ++ rel⟩
  ordered : changed.Pairwise fun p q => p.precedes q = true ∧ p ≠ q

variable {fs fs' : FileStore} {extension : Text} {rules : List PatchRule} {root p : Path}
  {top rel : List Text} {t relative : Text} {x : Path × Text}

theorem mem_untargeted_iff {r : PatchRule} {paths : List Text} :
    r ∈ untargeted extension rules paths ↔
      r ∈ rules ∧ ∀ path ∈ paths, ¬ r.targets path extension = true := by
  simp only [untargeted, List.mem_filter, List.any_eq_true, decide_eq_true_eq, not_and, not_exists]
  exact and_congr_right fun mem => ⟨fun none path hpath => none mem path hpath, fun none _ => none⟩

/-- A file gets a new text only if a rule is meant for it. -/
theorem exists_targets_of_made_ne (other : made extension rules rel t ≠ t) :
    ∃ r ∈ rules, r.targets (pathTo rel) extension = true := by
  by_contra none
  have applied : applyAll extension (pathTo rel) rules t = ([], .ok t) :=
    applyAll_of_none (fun some => none (List.any_eq_true.1 some)) t
  exact other (eq_textAfter_of_applyAll (congrArg Prod.snd applied)).symm

/-! ## The new text of a file -/

/-- The text that is to be written to a file, given by its path and its path below the root. -/
def newText? (extension : Text) (rules : List PatchRule) (fs : FileStore) (x : Path × Text) :
    Except Failure (Option Text) :=
  if rules.any (·.targets x.2 extension) then do
    let t ← fs.sourceAt x.1
    let t' ← (applyAll extension x.2 rules t).2
    pure (if t' = t then none else some t')
  else pure none

/-- The place and the new text of a file that is written to. -/
def patching? (extension : Text) (rules : List PatchRule) (fs : FileStore) (x : Path × Text) :
    Option (List Text × Text) :=
  match fs.locate x.1, newText? extension rules fs x with
  | .ok names, .ok (some t) => some (names, t)
  | _, _ => none

theorem newText?_congr (h : fs'.sourceAt x.1 = fs.sourceAt x.1) :
    newText? extension rules fs' x = newText? extension rules fs x := by
  rw [newText?, h, newText?]

theorem newText?_eq_some (h : newText? extension rules fs x = .ok (some t)) :
    ∃ t₀, fs.sourceAt x.1 = .ok t₀ ∧ (applyAll extension x.2 rules t₀).2 = .ok t ∧ t ≠ t₀ := by
  unfold newText? at h
  split at h
  · obtain ⟨t₀, source, h⟩ := bind_eq_ok h
    obtain ⟨t', result, h⟩ := bind_eq_ok h
    have same := Except.ok.inj h
    split at same
    · cases same
    · rename_i other
      obtain rfl := Option.some.inj same
      exact ⟨t₀, source, result, other⟩
  · cases h

/-- A file that is written to is there. -/
theorem exists_entry_of_newText? (h : newText? extension rules fs x = .ok (some t)) :
    ∃ names c, fs.locate x.1 = .ok names ∧ fs.entry? names = some (.file c) := by
  obtain ⟨t₀, source, -⟩ := newText?_eq_some h
  obtain ⟨c, content⟩ := FileStore.exists_contentAt_of_sourceAt source
  obtain ⟨names, located, entry⟩ := FileStore.exists_of_contentAt content
  exact ⟨names, c, located, entry⟩

theorem patching?_eq_some {names : List Text}
    (h : patching? extension rules fs x = some (names, t)) :
    fs.locate x.1 = .ok names ∧ newText? extension rules fs x = .ok (some t) := by
  unfold patching? at h
  split at h
  · rename_i located made
    obtain ⟨rfl, rfl⟩ := Prod.mk.inj (Option.some.inj h)
    exact ⟨located, made⟩
  · cases h

/-- Only files are written to. -/
theorem exists_entry_of_patching? {y : List Text × Text}
    (h : patching? extension rules fs x = some y) : ∃ c, fs.entry? y.1 = some (.file c) := by
  obtain ⟨located, made⟩ := patching?_eq_some (t := y.2) h
  obtain ⟨names, c, located', entry⟩ := exists_entry_of_newText? made
  obtain rfl := Except.ok.inj (located.symm.trans located')
  exact ⟨c, entry⟩

theorem newText?_of_source (extension : Text) (rules : List PatchRule)
    (source : fs.sourceAt x.1 = .ok t) :
    newText? extension rules fs x =
      (applyAll extension x.2 rules t).2.map fun t' => if t' = t then none else some t' := by
  unfold newText?
  split
  · rw [source]
    cases applied : (applyAll extension x.2 rules t).2 <;>
      simp [bind, Except.bind, pure, Except.pure, applied, Except.map]
  · rename_i none
    rw [applyAll_of_none none]
    simp [Except.map, pure, Except.pure]

/-- There is no failure over a file exactly if each strict rule that is meant for it finds
something. -/
theorem exists_newText?_iff (readable : ∀ r ∈ rules, r.IsReadable)
    (source : fs.sourceAt x.1 = .ok t) :
    (∃ new, newText? extension rules fs x = .ok new) ↔
      ∀ before r later, rules = before ++ r :: later → r.isStrict = true →
        r.targets x.2 extension = true → r.Finds (textAfter extension x.2 before t) := by
  rw [← exists_applyAll_iff readable, newText?_of_source extension rules source]
  cases (applyAll extension x.2 rules t).2 <;> simp [Except.map]

/-- The new text of a file is what the rules make of it, if that is another text. -/
theorem newText?_eq_ok (source : fs.sourceAt x.1 = .ok t) {new : Option Text}
    (h : newText? extension rules fs x = .ok new) :
    new = if textAfter extension x.2 rules t = t then none
      else some (textAfter extension x.2 rules t) := by
  rw [newText?_of_source extension rules source] at h
  obtain ⟨t', result, rfl⟩ := map_eq_ok h
  rw [eq_textAfter_of_applyAll result]

theorem patching?_of_source {names : List Text} (located : fs.locate x.1 = .ok names)
    (source : fs.sourceAt x.1 = .ok t) {new : Option Text}
    (h : newText? extension rules fs x = .ok new) :
    patching? extension rules fs x =
      if textAfter extension x.2 rules t = t then none
      else some (names, textAfter extension x.2 rules t) := by
  have new := newText?_eq_ok source h
  rw [patching?, located, h]
  by_cases same : textAfter extension x.2 rules t = t
  · simp only [new, if_pos same]
  · simp only [new, if_neg same]

/-- Nothing is written to a file without a new text. -/
theorem patching?_of_not_some {result : Except Failure (Option Text)}
    (made : newText? extension rules fs x = result) (none : ∀ t, result ≠ .ok (some t)) :
    patching? extension rules fs x = Option.none := by
  rw [Option.eq_none_iff_forall_ne_some]
  rintro ⟨names, t⟩ found
  exact none t (made.symm.trans (patching?_eq_some found).2)

theorem rewrite_of_not_some {result : Except Failure (Option Text)}
    (made : newText? extension rules fs x = result) (none : ∀ t, result ≠ .ok (some t)) :
    rewrite fs (patching? extension rules fs x).toList = fs := by
  rw [patching?_of_not_some made none]
  rfl

end PatchRule

/-! ## Runs over files -/

namespace Session

open PatchRule

variable {fs fs' : FileStore} {extension : Text} {rules : List PatchRule} {root p : Path}
  {top rel : List Text} {t relative : Text} {x : Path × Text} {files : List (Path × Text)}
  {w : World}

theorem runOn_ofResult {α : Type} (result : Except Failure α) (w : World) :
    (ofResult result).runOn w = (result, w) := rfl

/-- Patching a file puts its new text in its place. -/
theorem runOn_patchFile (extension : Text) (rules : List PatchRule) (x : Path × Text)
    (hlog : w.logFile = none) :
    ∃ w', (patchFile extension rules x.1 x.2).runOn w =
        ((newText? extension rules w.files x).map Option.isSome, w') ∧ w'.logFile = none ∧
      w'.files = rewrite w.files (patching? extension rules w.files x).toList := by
  by_cases meant : rules.any (·.targets x.2 extension) = true
  · rw [patchFile, if_pos meant, runOn_bind, runOn_read]
    cases source : w.files.sourceAt x.1 with
    | error f =>
      have made : newText? extension rules w.files x = .error f := by
        rw [newText?, if_pos meant, source]
        rfl
      exact ⟨w, by rw [made]; rfl, hlog, (rewrite_of_not_some made nofun).symm⟩
    | ok t =>
      obtain ⟨w₁, reported, quiet⟩ := runOn_emitAll (applyAll extension x.2 rules t).1 hlog
      dsimp only
      rw [runOn_bind, reported]
      dsimp only
      rw [runOn_bind, runOn_ofResult]
      have made := newText?_of_source extension rules source
      cases applied : (applyAll extension x.2 rules t).2 with
      | error f =>
        rw [applied] at made
        exact ⟨w₁, by rw [made]; rfl, quiet.logFile,
          quiet.files.trans (rewrite_of_not_some made nofun).symm⟩
      | ok t' =>
        rw [applied] at made
        dsimp only
        by_cases same : t' = t
        · have made : newText? extension rules w.files x = .ok none := by
            rw [made, Except.map, if_pos same]
          exact ⟨w₁, by rw [made, if_pos same]; rfl, quiet.logFile,
            quiet.files.trans (rewrite_of_not_some made nofun).symm⟩
        · have made : newText? extension rules w.files x = .ok (some t') := by
            rw [made, Except.map, if_neg same]
          obtain ⟨names, c, located, entry⟩ := exists_entry_of_newText? made
          have written := write_of_contentAt located entry (.text t')
          have change := runOn_change (·.write x.1 (.text t')) w₁
          rw [quiet.files, written] at change
          refine ⟨w₁.withFiles (w.files.put names (.file (.text t'))), ?_,
            World.withFiles_logFile quiet.logFile _, ?_⟩
          · rw [if_neg same, runOn_bind, change, made]
            rfl
          · rw [patching?, located, made]
            rfl
  · have made : newText? extension rules w.files x = .ok none := by
      rw [newText?, if_neg meant]
      rfl
    exact ⟨w, by rw [patchFile, if_neg meant, made]; rfl, hlog,
      (rewrite_of_not_some made nofun).symm⟩

/-- A file that leads to another place is not touched when a file is patched. -/
theorem untouched_of_rewrite {y : Path × Text}
    (apart : ∀ names, fs.locate x.1 = .ok names → fs.locate y.1 ≠ .ok names) :
    (rewrite fs (patching? extension rules fs x).toList).sourceAt y.1 = fs.sourceAt y.1 ∧
      (rewrite fs (patching? extension rules fs x).toList).locate y.1 = fs.locate y.1 := by
  have shape : fs.SameShape (rewrite fs (patching? extension rules fs x).toList) :=
    Recast.sameShape_rewrite fun y hy => exists_entry_of_patching? (Option.mem_toList.1 hy)
  refine ⟨FileStore.sourceAt_congr (FileStore.contentAt_congr shape fun names located => ?_),
    FileStore.locate_congr shape y.1⟩
  refine Recast.entry?_rewrite_of_not_mem fun mem => ?_
  obtain ⟨z, hz, rfl⟩ := List.mem_map.1 mem
  obtain ⟨located', -⟩ := patching?_eq_some (t := z.2) (Option.mem_toList.1 hz)
  exact apart z.1 located' located

/-- What a run over files comes to: it completes if there is no failure over any of them, and has
then written the new texts, each made of the text that the file had in `fs`. -/
structure PatchesAll (extension : Text) (rules : List PatchRule) (fs : FileStore)
    (files : List (Path × Text)) (result : Except Failure (List Path)) (fs' : FileStore) :
    Prop where
  completes : (∃ changed, result = .ok changed) ↔
    ∀ x ∈ files, ∃ new, newText? extension rules fs x = .ok new
  changed : ∀ changed, result = .ok changed →
    changed = (files.filter fun x => (patching? extension rules fs x).isSome).map Prod.fst
  written : ∀ changed, result = .ok changed →
    fs' = rewrite fs (files.filterMap (patching? extension rules fs))

theorem isSome_patching? {new : Option Text} (h : newText? extension rules fs x = .ok new) :
    (patching? extension rules fs x).isSome = new.isSome := by
  cases new with
  | none =>
    rw [patching?_of_not_some h nofun]
    rfl
  | some t =>
    obtain ⟨names, c, located, -⟩ := exists_entry_of_newText? h
    rw [patching?, located, h]
    rfl

/-- A file and a run over other files make a run over all of them. -/
theorem PatchesAll.cons {result : Except Failure (List Path)} {fs'' : FileStore} {new : Option Text}
    (made : newText? extension rules fs x = .ok new)
    (first : fs' = rewrite fs (patching? extension rules fs x).toList)
    (same : ∀ y ∈ files, newText? extension rules fs' y = newText? extension rules fs y ∧
      patching? extension rules fs' y = patching? extension rules fs y)
    (all : PatchesAll extension rules fs' files result fs'') :
    PatchesAll extension rules fs (x :: files)
      (result.map fun changed => if new.isSome then x.1 :: changed else changed) fs'' := by
  refine ⟨?_, fun changed h => ?_, fun changed h => ?_⟩
  · have rest : (∃ changed, result = .ok changed) ↔
        ∀ y ∈ files, ∃ new, newText? extension rules fs y = .ok new := by
      rw [all.completes]
      exact forall₂_congr fun y hy => by rw [(same y hy).1]
    rw [List.forall_mem_cons, and_iff_right ⟨new, made⟩, ← rest]
    cases result <;> simp [Except.map]
  · obtain ⟨others, completed, rfl⟩ := map_eq_ok h
    rw [all.changed others completed, List.filter_cons, isSome_patching? made]
    have later : files.filter (fun y => (patching? extension rules fs' y).isSome) =
        files.filter fun y => (patching? extension rules fs y).isSome :=
      List.filter_congr fun y hy => by rw [(same y hy).2]
    rw [later]
    split <;> rfl
  · obtain ⟨others, completed, rfl⟩ := map_eq_ok h
    rw [all.written others completed, List.filterMap_congr fun y hy => (same y hy).2, first]
    cases found : patching? extension rules fs x with
    | none => rw [List.filterMap_cons_none found]; rfl
    | some y => rw [List.filterMap_cons_some found]; rfl

/-- **A run over files** that lead to different places patches each of them by itself. -/
theorem runOn_patchFiles (extension : Text) (rules : List PatchRule)
    (apart : LeadApart w.files (files.map Prod.fst)) (hlog : w.logFile = none) :
    ∃ result w', (patchFiles extension rules files).runOn w = (result, w') ∧ w'.logFile = none ∧
      PatchesAll extension rules w.files files result w'.files := by
  induction files generalizing w with
  | nil =>
    refine ⟨.ok [], w, rfl, hlog, by simp, ?_, fun _ _ => rfl⟩
    rintro changed same
    exact (Except.ok.inj same).symm
  | cons x files ih =>
    obtain ⟨first, later⟩ := List.pairwise_cons.1 apart
    obtain ⟨w₁, run, hlog₁, hfiles₁⟩ := runOn_patchFile extension rules x hlog
    -- the files behind `x` are as they were before it
    have untouched (y : Path × Text) (hy : y ∈ files) :
        w₁.files.sourceAt y.1 = w.files.sourceAt y.1 ∧
          w₁.files.locate y.1 = w.files.locate y.1 := by
      rw [hfiles₁]
      exact untouched_of_rewrite (first y.1 (List.mem_map_of_mem hy))
    have same (y : Path × Text) (hy : y ∈ files) :
        newText? extension rules w₁.files y = newText? extension rules w.files y ∧
          patching? extension rules w₁.files y = patching? extension rules w.files y := by
      have newTexts : newText? extension rules w₁.files y = newText? extension rules w.files y :=
        newText?_congr (untouched y hy).1
      exact ⟨newTexts, by rw [patching?, (untouched y hy).2, newTexts, patching?]⟩
    have apart₁ : LeadApart w₁.files (files.map Prod.fst) := by
      refine List.pairwise_map.2 ((List.pairwise_map.1 later).imp_of_mem fun {y z} hy hz h => ?_)
      rwa [(untouched y hy).2, (untouched z hz).2]
    obtain ⟨result, w', run', hlog', all⟩ := ih apart₁ hlog₁
    rw [patchFiles, runOn_bind, run]
    cases made : newText? extension rules w.files x with
    | error f =>
      refine ⟨.error f, w₁, rfl, hlog₁, ⟨fun ⟨_, same⟩ => (by cases same), fun fine => ?_⟩,
        nofun, nofun⟩
      obtain ⟨new, made'⟩ := fine _ List.mem_cons_self
      cases made.symm.trans made'
    | ok new =>
      refine ⟨_, w', ?_, hlog', all.cons made hfiles₁ same⟩
      simp only [Except.map, runOn_bind, run']
      cases result <;> rfl

/-- Reporting fails exactly if one of the rules is strict. -/
theorem runOn_reportUntargeted (rs : List PatchRule) (hlog : w.logFile = none) :
    ∃ result w', (reportUntargeted rs).runOn w = (result, w') ∧ w.Quiet w' ∧
      (result = .ok () ↔ ∀ r ∈ rs, ¬ r.isStrict = true) := by
  induction rs generalizing w with
  | nil => exact ⟨.ok (), w, rfl, .refl hlog, by simp⟩
  | cons r rs ih =>
    rw [reportUntargeted, List.forall_mem_cons]
    by_cases strict : r.isStrict = true
    · exact ⟨.error (.patchFileMissing r.file), w, by rw [if_pos strict]; rfl, .refl hlog,
        by simp [strict]⟩
    · have quiet := World.quiet_note hlog r.untargetedEvent
      obtain ⟨result, w', run, quiet', fine⟩ := ih quiet.logFile
      refine ⟨result, w', ?_, quiet.trans quiet', by simp [strict, fine]⟩
      rw [if_neg strict, runOn_bind, runOn_emit]
      exact run

/-! ## The files of a tree -/

/-- Every file below the folder has a text that is read. -/
theorem exists_source (patchable : fs.IsPatchable root top)
    (file : ∃ c, fs.entry? (top ++ rel) = some (.file c)) :
    ∃ t, fs.sourceAt ⟨root.anchor, root.names ++ rel⟩ = .ok t := by
  obtain ⟨c, entry⟩ := file
  obtain ⟨t, rfl⟩ := patchable.texts rel c entry
  have located : fs.locate ⟨root.anchor, root.names ++ rel⟩ = .ok (top ++ rel) :=
    patchable.locate (by rw [entry]; rfl)
  have content := FileStore.contentAt_of_entry located entry
  exact ⟨_, by rw [FileStore.sourceAt, FileStore.textAt, FileStore.rawTextAt, content]; rfl⟩

theorem relativeTo?_append (root : Path) (rel : List Text) :
    Path.relativeTo? ⟨root.anchor, root.names ++ rel⟩ root = some ⟨.here, rel⟩ := by
  rw [Path.relativeTo?, if_pos ⟨rfl, by simp⟩, List.drop_left]

theorem located_of_candidate (patchable : fs.IsPatchable root top)
    (candidate : fs.IsCandidate extension root top rel t) :
    fs.locate ⟨root.anchor, root.names ++ rel⟩ = .ok (top ++ rel) := by
  obtain ⟨c, entry⟩ := candidate.file
  exact patchable.locate (by rw [entry]; rfl)

/-- The files that rules can be meant for come each once and in order. -/
theorem exists_patchCandidates (patchable : fs.IsPatchable root top)
    (plain : Glob.IsPlainEnding extension) :
    ∃ files, patchCandidates extension root fs = .ok files ∧
      (files.map Prod.fst).Pairwise (fun p q => p.precedes q = true ∧ p ≠ q) ∧
        ∀ x, x ∈ files ↔ ∃ rel t, x = (⟨root.anchor, root.names ++ rel⟩, pathTo rel) ∧
          fs.IsCandidate extension root top rel t := by
  obtain ⟨found, search, ordered, mem⟩ := patchable.exists_globBelow plain
  refine ⟨_, by rw [patchCandidates, search]; rfl, ?_, fun x => ?_⟩
  · refine List.pairwise_map.2 (List.Pairwise.filterMap _ (fun p q before x hx y hy => ?_)
      (ordered.filter _))
    obtain ⟨_, -, rfl⟩ := Option.map_eq_some_iff.1 hx
    obtain ⟨_, -, rfl⟩ := Option.map_eq_some_iff.1 hy
    exact before
  · rw [List.mem_filterMap]
    constructor
    · rintro ⟨p, hp, paired⟩
      obtain ⟨hp, isFile⟩ := List.mem_filter.1 hp
      obtain ⟨rel, -, rfl, there, ends⟩ := (mem p).1 hp
      rw [relativeTo?_append] at paired
      have file := (patchable.isFile_iff there).1 isFile
      obtain ⟨t, source⟩ := exists_source patchable file
      exact ⟨rel, t, (Option.some.inj paired).symm, file, ends, source⟩
    · rintro ⟨rel, t, rfl, candidate⟩
      have there : (fs.entry? (top ++ rel)).isSome := by
        obtain ⟨c, entry⟩ := candidate.file
        rw [entry]
        rfl
      have below : rel ≠ [] := by
        rintro rfl
        obtain ⟨c, entry⟩ := candidate.file
        rw [List.append_nil, patchable.folder] at entry
        cases entry
      refine ⟨_, List.mem_filter.2 ⟨(mem _).2 ⟨rel, below, rfl, there, candidate.ends⟩,
        (patchable.isFile_iff there).2 candidate.file⟩, ?_⟩
      rw [relativeTo?_append]
      rfl

/-- The files lead to different places. -/
theorem leadApart_candidates (patchable : fs.IsPatchable root top)
    (ordered : (files.map Prod.fst).Pairwise fun p q => p.precedes q = true ∧ p ≠ q)
    (mem : ∀ x ∈ files, ∃ rel t, x = (⟨root.anchor, root.names ++ rel⟩, pathTo rel) ∧
      fs.IsCandidate extension root top rel t) : LeadApart fs (files.map Prod.fst) := by
  refine List.pairwise_map.2 ((List.pairwise_map.1 ordered).imp_of_mem
    fun {x y} hx hy before names toX toY => before.2 ?_)
  obtain ⟨rel, t, rfl, candidate⟩ := mem x hx
  obtain ⟨rel', t', rfl, candidate'⟩ := mem y hy
  rw [located_of_candidate patchable candidate] at toX
  rw [located_of_candidate patchable candidate'] at toY
  have same := (Except.ok.inj toX).trans (Except.ok.inj toY).symm
  rw [List.append_cancel_left same]

/-! ## Runs over a tree -/

/-- A run over a tree completes if it does over its files and no strict rule is meant for none. -/
theorem runOn_patchTree (some : rules ≠ [])
    (candidates : patchCandidates extension root w.files = .ok files)
    (apart : LeadApart w.files (files.map Prod.fst)) (hlog : w.logFile = none) :
    ∃ result w', (patchTree extension rules root).runOn w = (result, w') ∧
      ((∃ changed, result = .ok changed) ↔
        (∀ x ∈ files, ∃ new, newText? extension rules w.files x = .ok new) ∧
          ∀ r ∈ untargeted extension rules (files.map Prod.snd), ¬ r.isStrict = true) ∧
      ∀ changed, result = .ok changed →
        changed = (files.filter fun x =>
          (patching? extension rules w.files x).isSome).map Prod.fst ∧
        w'.files = rewrite w.files (files.filterMap (patching? extension rules w.files)) := by
  obtain ⟨result₁, w₁, run₁, hlog₁, all⟩ := runOn_patchFiles extension rules apart hlog
  obtain ⟨result₂, w₂, run₂, quiet, fine⟩ :=
    runOn_reportUntargeted (untargeted extension rules (files.map Prod.snd)) hlog₁
  have whole : patchTree extension rules root = (do
      let candidates ← Session.read (patchCandidates extension root)
      let changed ← patchFiles extension rules candidates
      reportUntargeted (untargeted extension rules (candidates.map Prod.snd))
      emit (patchedEvent changed.length)
      pure changed) := by
    rw [patchTree, if_neg (by simpa using some)]
  rw [whole, runOn_bind, runOn_read, candidates]
  dsimp only
  rw [runOn_bind, run₁, ← all.completes, ← fine]
  cases result₁ with
  | error f => exact ⟨.error f, w₁, rfl, by simp, nofun⟩
  | ok changed =>
    dsimp only
    rw [runOn_bind, run₂]
    cases result₂ with
    | error f => exact ⟨.error f, w₂, rfl, by simp, nofun⟩
    | ok _ =>
      have reported := World.quiet_note quiet.logFile (patchedEvent changed.length)
      refine ⟨.ok changed, _, rfl, by simp, ?_⟩
      rintro _ ⟨⟩
      refine ⟨all.changed changed rfl, ?_⟩
      rw [← all.written changed rfl]
      exact reported.files.trans quiet.files

section Tree

variable (patchable : fs.IsPatchable root top) (readable : ∀ r ∈ rules, r.IsReadable)
  (mem : ∀ x, x ∈ files ↔ ∃ rel t, x = (⟨root.anchor, root.names ++ rel⟩, pathTo rel) ∧
    fs.IsCandidate extension root top rel t)

include readable mem in
/-- There is no failure over any file and over any rule exactly if all strict rules are
fulfilled. -/
theorem isFulfilled_iff : IsFulfilled fs extension root top rules ↔
    (∀ x ∈ files, ∃ new, newText? extension rules fs x = .ok new) ∧
      ∀ r ∈ untargeted extension rules (files.map Prod.snd), ¬ r.isStrict = true := by
  constructor
  · rintro ⟨meant, found⟩
    refine ⟨fun x hx => ?_, fun r hr strict => ?_⟩
    · obtain ⟨rel, t, rfl, candidate⟩ := (mem x).1 hx
      refine (exists_newText?_iff readable candidate.source).2 ?_
      exact fun before r later split strict targets =>
        found before r later split strict rel t candidate targets
    · obtain ⟨hr, none⟩ := mem_untargeted_iff.1 hr
      obtain ⟨rel, t, candidate, targets⟩ := meant r hr strict
      exact none _ (List.mem_map_of_mem ((mem _).2 ⟨rel, t, rfl, candidate⟩)) targets
  · rintro ⟨fine, targeted⟩
    refine ⟨fun r hr strict => ?_, ?_⟩
    · by_contra none
      refine targeted r (mem_untargeted_iff.2 ⟨hr, fun path hpath targets => none ?_⟩) strict
      obtain ⟨x, hx, rfl⟩ := List.mem_map.1 hpath
      obtain ⟨rel, t, rfl, candidate⟩ := (mem x).1 hx
      exact ⟨rel, t, candidate, targets⟩
    · intro before r later split strict rel t candidate targets
      have new := fine _ ((mem _).2 ⟨rel, t, rfl, candidate⟩)
      exact (exists_newText?_iff readable candidate.source).1 new before r later split strict
        targets

include patchable mem in
/-- What is written, and where. -/
theorem mem_patchings_iff (fine : ∀ x ∈ files, ∃ new, newText? extension rules fs x = .ok new)
    (y : List Text × Text) : y ∈ files.filterMap (patching? extension rules fs) ↔
      ∃ rel t, fs.IsCandidate extension root top rel t ∧ made extension rules rel t ≠ t ∧
        y = (top ++ rel, made extension rules rel t) := by
  have patching {rel : List Text} {t : Text}
      (candidate : fs.IsCandidate extension root top rel t) :
      patching? extension rules fs (⟨root.anchor, root.names ++ rel⟩, pathTo rel) =
        if made extension rules rel t = t then none
        else some (top ++ rel, made extension rules rel t) := by
    obtain ⟨new, h⟩ := fine _ ((mem _).2 ⟨rel, t, rfl, candidate⟩)
    exact patching?_of_source (located_of_candidate patchable candidate) candidate.source h
  rw [List.mem_filterMap]
  constructor
  · rintro ⟨x, hx, found⟩
    obtain ⟨rel, t, rfl, candidate⟩ := (mem x).1 hx
    rw [patching candidate] at found
    split at found
    · cases found
    · rename_i other
      exact ⟨rel, t, candidate, other, (Option.some.inj found).symm⟩
  · rintro ⟨rel, t, candidate, other, rfl⟩
    exact ⟨_, (mem _).2 ⟨rel, t, rfl, candidate⟩, by rw [patching candidate, if_neg other]⟩

include patchable mem in
/-- The files that something is written to. -/
theorem mem_patched_iff (fine : ∀ x ∈ files, ∃ new, newText? extension rules fs x = .ok new) :
    p ∈ (files.filter fun x => (patching? extension rules fs x).isSome).map Prod.fst ↔
      ∃ rel t, fs.IsCandidate extension root top rel t ∧ made extension rules rel t ≠ t ∧
        p = ⟨root.anchor, root.names ++ rel⟩ := by
  rw [List.mem_map]
  constructor
  · rintro ⟨x, hx, rfl⟩
    obtain ⟨hx, isWritten⟩ := List.mem_filter.1 hx
    obtain ⟨y, found⟩ := Option.isSome_iff_exists.1 isWritten
    obtain ⟨rel, t, candidate, other, rfl⟩ :=
      (mem_patchings_iff patchable mem fine y).1 (List.mem_filterMap.2 ⟨x, hx, found⟩)
    obtain ⟨rel', t', rfl, candidate'⟩ := (mem x).1 hx
    obtain ⟨toX, -⟩ := patching?_eq_some found
    rw [located_of_candidate patchable candidate'] at toX
    exact ⟨rel, t, candidate, other, by rw [List.append_cancel_left (Except.ok.inj toX)]⟩
  · rintro ⟨rel, t, candidate, other, rfl⟩
    have hx := (mem _).2 ⟨rel, t, rfl, candidate⟩
    obtain ⟨new, h⟩ := fine _ hx
    have found := patching?_of_source (located_of_candidate patchable candidate)
      candidate.source h
    refine ⟨_, List.mem_filter.2 ⟨hx, ?_⟩, rfl⟩
    rw [found]
    exact (if_neg other).symm ▸ rfl

include patchable mem in
/-- Writing the new texts patches the tree. -/
theorem patchedFrom_rewrite
    (ordered : (files.map Prod.fst).Pairwise fun p q => p.precedes q = true ∧ p ≠ q)
    (fine : ∀ x ∈ files, ∃ new, newText? extension rules fs x = .ok new) :
    PatchedFrom fs extension root top rules
      ((files.filter fun x => (patching? extension rules fs x).isSome).map Prod.fst)
      (rewrite fs (files.filterMap (patching? extension rules fs))) := by
  have apart := leadApart_candidates patchable ordered fun x hx => (mem x).1 hx
  have hold : Recast.HoldFiles fs (files.filterMap (patching? extension rules fs)) := by
    intro y hy
    obtain ⟨x, -, found⟩ := List.mem_filterMap.1 hy
    exact exists_entry_of_patching? found
  have nodup : ((files.filterMap (patching? extension rules fs)).map Prod.fst).Nodup := by
    refine List.pairwise_map.2 (List.Pairwise.filterMap _ (fun x y differ a ha b hb same => ?_)
      (List.pairwise_map.1 apart))
    obtain ⟨toX, -⟩ := patching?_eq_some (t := a.2) ha
    obtain ⟨toY, -⟩ := patching?_eq_some (t := b.2) hb
    exact differ a.1 toX (same ▸ toY)
  have written := mem_patchings_iff patchable mem fine
  refine ⟨fun rel t candidate => ?_, fun names elsewhere => ?_,
    fun p => mem_patched_iff patchable mem fine, ?_⟩
  · split
    · rename_i same
      refine Recast.entry?_rewrite_of_not_mem fun there => ?_
      obtain ⟨y, hy, place⟩ := List.mem_map.1 there
      obtain ⟨rel', t', candidate', other, rfl⟩ := (written y).1 hy
      obtain rfl := List.append_cancel_left place
      obtain rfl := Except.ok.inj (candidate.source.symm.trans candidate'.source)
      exact other same
    · rename_i other
      exact Recast.entry?_rewrite_of_mem hold nodup ((written _).2 ⟨rel, t, candidate, other, rfl⟩)
  · refine Recast.entry?_rewrite_of_not_mem fun there => ?_
    obtain ⟨y, hy, rfl⟩ := List.mem_map.1 there
    obtain ⟨rel, t, candidate, other, rfl⟩ := (written y).1 hy
    exact elsewhere rel t candidate (exists_targets_of_made_ne other) rfl
  · exact List.pairwise_map.2 ((List.pairwise_map.1 ordered).filter _)

end Tree

/-- A folder with two files, one of them in a folder of its own, and a link to it. -/
def menuTree : FileStore where
  entries :=
    [(["r".toList], .folder),
     (["r".toList, "a.js".toList], .file (.text "x1\n")),
     (["r".toList, "ui".toList], .folder),
     (["r".toList, "ui".toList, "menu.js".toList], .file (.text "x22 x\n")),
     (["s".toList], .link ⟨.here, ["r".toList]⟩)]
  here := []

def menuRules : List PatchRule :=
  [{ file := "ui/menu", search := "x(2+)", replace := "\\1y", isRegex := true, isStrict := true },
   { file := "menu.js", search := "2y", replace := "x", isStrict := true },
   { file := "a.js", search := "y", replace := "z" }]

theorem isPatchable_menuTree : menuTree.IsPatchable ⟨.here, ["s".toList]⟩ ["r".toList] where
  tree := .of_take (by decide) (by decide) (by decide)
  unlinked := by
    intro rel target link
    have mem := mem_of_lookup? ((FileStore.entry?_of_ne_nil (by simp)).symm.trans link)
    simp [menuTree] at mem
  located := by rfl
  folder := by rfl
  texts := by
    intro rel c file
    have mem := mem_of_lookup? ((FileStore.entry?_of_ne_nil (by simp)).symm.trans file)
    simp only [menuTree, List.mem_cons, Prod.mk.injEq, reduceCtorEq, and_false, Entry.file.injEq,
      or_false, false_or, List.not_mem_nil] at mem
    rcases mem with ⟨-, rfl⟩ | ⟨-, rfl⟩
    · exact ⟨_, rfl⟩
    · exact ⟨_, rfl⟩

theorem isReadable_menuRules : ∀ r ∈ menuRules, r.IsReadable := by
  intro r hr
  simp only [menuRules, List.mem_cons, List.not_mem_nil, or_false] at hr
  rcases hr with rfl | rfl | rfl
  · exact fun _ => ⟨_, _, rfl, rfl⟩
  · exact nofun
  · exact nofun

/-- A file whose name ends with brackets. -/
def bracketTree : FileStore where
  entries := [(["a.[x]".toList], .file (.text "x\n"))]
  here := []

def bracketRule : PatchRule := { file := "a", search := "x", replace := "y", isStrict := true }

theorem eq_of_file_bracketTree {rel : List Text} {c : Content}
    (file : bracketTree.entry? ([] ++ rel) = some (.file c)) :
    rel = ["a.[x]".toList] ∧ c = .text "x\n" := by
  rw [List.nil_append] at file
  have some := FileStore.ne_nil_of_file file
  have mem := mem_of_lookup? ((FileStore.entry?_of_ne_nil some).symm.trans file)
  simpa [bracketTree] using mem

theorem isPatchable_bracketTree : bracketTree.IsPatchable .top [] where
  tree := .of_take (by decide) (by decide) (by decide)
  unlinked := by
    intro rel target link
    have some : rel ≠ [] := by
      rintro rfl
      cases link
    have mem := mem_of_lookup? ((FileStore.entry?_of_ne_nil some).symm.trans link)
    simp [bracketTree] at mem
  located := by rfl
  folder := by rfl
  texts := fun _ _ file => ⟨_, (eq_of_file_bracketTree file).2⟩

end Session

end Modulize
