import Modulize.Project.Merging
import Modulize.Proofs.Files.Removed
import Modulize.Proofs.Session

/-!
# Merging a group of files

The texts of a group are merged before anything is changed. Then the members are removed, the folder
of the target is made, and the merged text is written to it: what becomes of the tree is told by
`mergeOutcome` (`runOn_mergeGroup`) and by `IsMergedInto` (`isMergedInto_of_replaced`). If a member
cannot be read as text, or the texts cannot be merged, the tree stays as it is. Only the tree of
files can still refuse an operation later, and the members have been removed by that time.
-/

namespace Modulize

namespace FileStore

/-- The places of files. A link is its own place. -/
def placesOf (fs : FileStore) (files : List Path) : List (List Text) :=
  files.filterMap fun p => (fs.locateLink p).toOption

/-- The tree with a text in place of files: they are removed, and the text is written to the target,
whose folder is made. -/
def replaced (fs : FileStore) (files : List Path) (target : Path) (t : Text) :
    Except Failure FileStore := do
  (← (fs.without (fs.placesOf files)).makeFolders target.parent).write target (.text t)

/-- The target holds the text, the files are gone, and nothing else has changed but for folders that
have been made. -/
structure IsMergedInto (fs : FileStore) (files : List Path) (target : Path) (t : Text)
    (fs' : FileStore) : Prop where
  holds : fs'.contentAt target = .ok (.text t)
  gone : ∀ names ∈ fs.placesOf files, fs'.locate target ≠ .ok names →
    fs'.entry? names = none ∨ fs'.entry? names = some .folder
  others : ∀ names, names ∉ fs.placesOf files → fs'.locate target ≠ .ok names →
    fs'.entry? names = fs.entry? names ∨
      fs.entry? names = none ∧ fs'.entry? names = some .folder

variable {fs fs' : FileStore} {files : List Path} {target p : Path} {t : Text} {f : Failure}

theorem mem_placesOf_iff {names : List Text} :
    names ∈ fs.placesOf files ↔ ∃ p ∈ files, fs.locateLink p = .ok names := by
  rw [placesOf, List.mem_filterMap]
  refine exists_congr fun p => and_congr_right fun _ => ?_
  cases fs.locateLink p <;> simp [Except.toOption]

/-- A text in place of files. -/
theorem isMergedInto_of_replaced (h : fs.replaced files target t = .ok fs') :
    IsMergedInto fs files target t fs' := by
  obtain ⟨fs₂, made, written⟩ := bind_eq_ok h
  have grows := grows_makeFolders made
  obtain ⟨place, located, free, rfl⟩ := write_eq_ok written
  obtain ⟨q, located', found, content⟩ := contentAt_of_write written
  obtain rfl := Except.ok.inj (located.symm.trans located')
  have elsewhere {names : List Text}
      (other : locate (fs₂.put place (.file (.text t))) target ≠ .ok names) :
      entry? (fs₂.put place (.file (.text t))) names = fs₂.entry? names :=
    entry?_put_of_ne fun same => other (same ▸ found)
  refine ⟨content, fun names mem other => ?_, fun names mem other => ?_⟩
  · rw [elsewhere other]
    by_cases root : names = []
    · exact Or.inr (by rw [root]; rfl)
    · have removed : entry? (fs.without (fs.placesOf files)) names = none := by
        rw [entry?_without, if_pos ⟨mem, root⟩]
      rcases grows.entry names with same | ⟨-, folder⟩
      · exact Or.inl (same.trans removed)
      · exact Or.inr folder
  · rw [elsewhere other]
    have kept : entry? (fs.without (fs.placesOf files)) names = fs.entry? names :=
      entry?_without_of_not_mem mem
    rcases grows.entry names with same | ⟨free, folder⟩
    · exact Or.inl (same.trans kept)
    · exact Or.inr ⟨kept.symm.trans free, folder⟩

end FileStore

namespace Session

open FileStore

variable {fs : FileStore} {files done : List Path} {root group t : Text} {output : Path}
  {members : List Text} {w : World} {f : Failure}

/-! ## Merging texts -/

theorem bind_eq_error {α β ε : Type} {x : Except ε α} {k : α → Except ε β} {e : ε}
    (h : x >>= k = .error e) : x = .error e ∨ ∃ a, x = .ok a ∧ k a = .error e := by
  cases x with
  | error e' => exact Or.inl (congrArg Except.error (Except.error.inj h))
  | ok a => exact Or.inr ⟨a, rfl, h⟩

theorem exists_eq_ok {α ε : Type} {x : Except ε α} (h : x.isOk = true) : ∃ a, x = .ok a := by
  cases x with
  | error e => cases h
  | ok a => exact ⟨a, rfl⟩

theorem isConversion_of_readBinding {target : Option Text} {statement : Text}
    (h : Declaration.readBinding target statement = .error f) : f.isConversion = true := by
  unfold Declaration.readBinding at h
  split at h
  · cases h
  · dsimp only at h
    split at h
    · obtain rfl := Except.error.inj h
      rfl
    · unfold Declaration.readEntry at h
      split at h
      split at h
      · cases h
      · obtain rfl := Except.error.inj h
        rfl
  · cases h

/-- Merging texts fails with failures of the conversion only. -/
theorem isConversion_of_mergeTexts {texts : List Text}
    (h : Declaration.mergeTexts root texts = .error f) : f.isConversion = true := by
  rcases bind_eq_error h with read | ⟨required, -, merged⟩
  · obtain ⟨-, m, -, -, -, -, failed⟩ := mapM_eq_error read
    rcases bind_eq_error failed with binding | ⟨binding, -, required⟩
    · exact isConversion_of_readBinding binding
    · cases required
  · cases merged

/-- A file that is there is read, unless it is no text. -/
theorem eq_undecodable_of_sourceAt {p : Path} (isFile : fs.isFile p = true)
    (h : fs.sourceAt p = .error f) : f = .undecodable := by
  obtain ⟨c, content⟩ : ∃ c, fs.contentAt p = .ok c := by
    obtain ⟨names, c, located, file⟩ := exists_file_of_isFile isFile
    exact ⟨c, contentAt_of_entry located file⟩
  unfold sourceAt textAt rawTextAt at h
  rw [content] at h
  cases c with
  | text t => cases h
  | binary bytes => exact (Except.error.inj h).symm

/-- What can fail before anything is changed. -/
theorem failure_of_mergedText (there : ∀ p ∈ files, fs.isFile p = true)
    (h : mergedText root files fs = .error f) : f.isConversion = true ∨ f = .undecodable := by
  rcases bind_eq_error h with read | ⟨texts, -, failed⟩
  · obtain ⟨before, p, later, -, rfl, -, failed⟩ := mapM_eq_error read
    exact Or.inr (eq_undecodable_of_sourceAt (there p (by simp)) failed)
  · exact Or.inl (isConversion_of_mergeTexts failed)

theorem not_isRefusal (kind : f.isConversion = true ∨ f = .undecodable) : ¬ IsRefusal f := by
  rintro ⟨problem, p, rfl⟩
  rcases kind with kind | kind <;> cases kind

/-- Only the tree of files can refuse to put a text in place of files. -/
theorem isRefusal_of_replaced {target : Path} (h : fs.replaced files target t = .error f) :
    IsRefusal f := by
  rcases bind_eq_error h with made | ⟨fs₂, -, written⟩
  · exact isRefusal_of_makeFolders made
  · exact isRefusal_of_write written

/-! ## Runs -/

/-- Files with different places are removed one after another. -/
theorem runOn_unlinks (there : ∀ p ∈ done ++ files, fs.isFile p = true)
    (apart : (fs.placesOf (done ++ files)).Nodup) (hfiles : w.files = fs.without (fs.placesOf done))
    (hlog : w.logFile = none) :
    ∃ w', (files.forM fun p => change (·.unlink p)).runOn w = (.ok (), w') ∧ w'.logFile = none ∧
      w'.files = fs.without (fs.placesOf (done ++ files)) := by
  induction files generalizing done w with
  | nil => exact ⟨w, rfl, hlog, by rw [hfiles, List.append_nil]⟩
  | cons p files ih =>
    obtain ⟨q, located, isEnd⟩ := exists_locateLink_of_isFile (there p (by simp))
    have step : fs.placesOf (done ++ [p]) = fs.placesOf done ++ [q] := by
      simp [placesOf, located, Except.toOption]
    have ends : ∀ l ∈ fs.placesOf done, fs.IsEnd l := by
      intro l mem
      obtain ⟨p', hp', located'⟩ := mem_placesOf_iff.1 mem
      obtain ⟨l', located'', isEnd'⟩ := exists_locateLink_of_isFile (there p' (by simp [hp']))
      exact Except.ok.inj (located'.symm.trans located'') ▸ isEnd'
    rw [List.append_cons] at there apart ⊢
    have other : q ∉ fs.placesOf done := by
      have first : (fs.placesOf (done ++ [p])).Nodup := by
        rw [placesOf, List.filterMap_append] at apart
        exact (List.nodup_append.1 apart).1
      rw [step] at first
      exact fun mem => (List.nodup_append.1 first).2.2 q mem q (by simp) rfl
    have unlinked := unlink_without ends located isEnd other
    rw [← hfiles, ← step] at unlinked
    have change := runOn_change (·.unlink p) w
    rw [unlinked] at change
    have hlog' := World.withFiles_logFile hlog (fs.without (fs.placesOf (done ++ [p])))
    obtain ⟨w', run, rest⟩ := ih there apart rfl hlog'
    refine ⟨w', ?_, rest⟩
    refine (runOn_bind (Session.change (·.unlink p))
      (fun _ => files.forM fun p => Session.change (·.unlink p)) w).trans ?_
    rw [change]
    exact run

/-- A text that is refused in place of files leaves them removed, and nothing else changed but for
folders that have been made. -/
theorem runOn_replaceFiles (target : Path) (t : Text)
    (there : ∀ p ∈ files, w.files.isFile p = true) (apart : (w.files.placesOf files).Nodup)
    (hlog : w.logFile = none) :
    ∃ w', (replaceFiles files target t).runOn w =
        ((w.files.replaced files target t).map fun _ => (), w') ∧ w'.logFile = none ∧
      match w.files.replaced files target t with
      | .ok fs' => w'.files = fs'
      | .error _ => (w.files.without (w.files.placesOf files)).Grows w'.files := by
  obtain ⟨w₁, run, hlog₁, hfiles₁⟩ : ∃ w',
      (files.forM fun p => change (·.unlink p)).runOn w = (.ok (), w') ∧ w'.logFile = none ∧
        w'.files = w.files.without (w.files.placesOf ([] ++ files)) :=
    runOn_unlinks there apart (without_nil w.files).symm hlog
  rw [List.nil_append] at hfiles₁
  rw [replaceFiles, runOn_bind, run]
  dsimp only
  rw [runOn_bind, runOn_change, hfiles₁]
  cases made : (w.files.without (w.files.placesOf files)).makeFolders target.parent with
  | error f =>
    have whole : w.files.replaced files target t = .error f := by
      rw [replaced, made]
      rfl
    rw [whole]
    exact ⟨w₁, rfl, hlog₁, hfiles₁ ▸ .refl w₁.files⟩
  | ok fs₂ =>
    have whole : w.files.replaced files target t = fs₂.write target (.text t) := by
      rw [replaced, made]
      rfl
    have hlog₂ := World.withFiles_logFile hlog₁ fs₂
    have files₂ : (w₁.withFiles fs₂).files = fs₂ := rfl
    dsimp only
    rw [whole, runOn_change, files₂]
    cases fs₂.write target (.text t) with
    | error f => exact ⟨_, rfl, hlog₂, grows_makeFolders made⟩
    | ok fs₃ => exact ⟨_, rfl, World.withFiles_logFile hlog₂ fs₃, rfl⟩

/-- The paths of the members of a group. -/
def memberPaths (output : Path) (members : List Text) : List Path :=
  members.map fun m => output.join (Path.parse m)

/-- What merging a group comes to: the group as it is reported, and the tree afterwards. A group
without members that are there is passed over. -/
def mergeOutcome (root : Text) (output : Path) (group : Text) (members : List Text)
    (fs : FileStore) : Except Failure (Option (MergedGroup × FileStore)) :=
  let files := memberPaths output members
  let there := files.filter fs.isFile
  let target := output.join (Path.parse group)
  if there = [] then .ok none
  else do
    let t ← mergedText root there fs
    let fs' ← fs.replaced there target t
    pure (some (⟨target, there, files.filter (! fs.isFile ·)⟩, fs'))

theorem mergeOutcome_of_merged (group : Text) {members : List Text}
    (some : (memberPaths output members).filter fs.isFile ≠ [])
    (merged : mergedText root ((memberPaths output members).filter fs.isFile) fs = .ok t) :
    mergeOutcome root output group members fs =
      (fs.replaced ((memberPaths output members).filter fs.isFile)
        (output.join (Path.parse group)) t).map fun fs' => Option.some
          (⟨output.join (Path.parse group), (memberPaths output members).filter fs.isFile,
            (memberPaths output members).filter (! fs.isFile ·)⟩, fs') := by
  unfold mergeOutcome
  dsimp only
  rw [if_neg some, merged]
  simp only [bind, Except.bind]
  cases fs.replaced ((memberPaths output members).filter fs.isFile)
    (output.join (Path.parse group)) t <;> rfl

/-- **Merging a group.** Only when the tree of files refuses an operation is it changed although
there is a failure: the members are gone by then. -/
theorem runOn_mergeGroup (root : Text) (output : Path) (group : Text) (members : List Text)
    (apart : (w.files.placesOf ((memberPaths output members).filter w.files.isFile)).Nodup)
    (hlog : w.logFile = none) :
    ∃ w', (mergeGroup root output group members).runOn w =
        ((mergeOutcome root output group members w.files).map (Option.map Prod.fst), w') ∧
      w'.logFile = none ∧
      match mergeOutcome root output group members w.files with
      | .ok none => w'.files = w.files
      | .ok (some (_, fs')) => w'.files = fs'
      | .error f =>
        (f.isConversion = true ∨ f = .undecodable) ∧ w'.files = w.files ∨
          IsRefusal f ∧ (w.files.without (w.files.placesOf
            ((memberPaths output members).filter w.files.isFile))).Grows w'.files := by
  have files : members.map (fun m => output.join (Path.parse m)) = memberPaths output members := rfl
  rw [mergeGroup, mergeOutcome]
  simp only [files]
  generalize memberPaths output members = files at apart
  obtain ⟨w₁, run, quiet⟩ := runOn_emitAll
    ((files.filter (! w.files.isFile ·)).map (memberMissingEvent group)) hlog
  rw [runOn_bind, runOn_look]
  dsimp only
  rw [runOn_bind, runOn_look]
  dsimp only
  rw [runOn_bind, run]
  dsimp only
  by_cases none : files.filter w.files.isFile = []
  · have passed := World.quiet_note quiet.logFile (groupSkippedEvent group)
    rw [none, if_pos rfl, if_pos List.isEmpty_nil]
    exact ⟨_, rfl, passed.logFile, passed.files.trans quiet.files⟩
  · have there : ∀ p ∈ files.filter w.files.isFile, w.files.isFile p = true := fun p hp =>
      (List.mem_filter.1 hp).2
    rw [if_neg none, if_neg (by simpa using none), runOn_bind, runOn_read, quiet.files]
    cases merged : mergedText root (files.filter w.files.isFile) w.files with
    | error f =>
      exact ⟨_, rfl, quiet.logFile, Or.inl ⟨failure_of_mergedText there merged, quiet.files⟩⟩
    | ok t =>
      rw [← quiet.files] at there apart
      obtain ⟨w₂, replace, hlog₂, hfiles₂⟩ :=
        runOn_replaceFiles (output.join (Path.parse group)) t there apart quiet.logFile
      rw [quiet.files] at replace hfiles₂
      dsimp only
      rw [runOn_bind, replace]
      cases placed : w.files.replaced (files.filter w.files.isFile)
        (output.join (Path.parse group)) t with
      | error f =>
        refine ⟨w₂, ?_, hlog₂, ?_⟩
        · simp only [bind, Except.bind, placed]
          rfl
        · simp only [bind, Except.bind, placed]
          rw [placed] at hfiles₂
          exact Or.inr ⟨isRefusal_of_replaced placed, hfiles₂⟩
      | ok fs' =>
        have told := World.quiet_note hlog₂
          (groupMergedEvent group (files.filter w.files.isFile))
        refine ⟨w₂.note _, ?_, told.logFile, ?_⟩
        · simp only [bind, Except.bind, placed]
          rfl
        · simp only [bind, Except.bind, placed]
          rw [placed] at hfiles₂
          exact told.files.trans hfiles₂

end Session

end Modulize
