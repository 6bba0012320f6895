import Modulize.Project.Conversion
import Modulize.Proofs.Files.Confined
import Modulize.Proofs.Graph.Subset
import Modulize.Proofs.Session

/-!
# Sessions that change files below a folder

A session is confined to a folder (`Confined`) when, on a tree without links and without a log file,
it changes only files below the folder, whether it succeeds or fails; what it gives is described
along with that, since a stage writes at the paths that the stages before it have found. The rules
(`confined_bind` and the others) take a session apart.

Every stage of a conversion is confined to its output folder: copying (`confined_copyFiles`),
patching (`confined_patchTree`), converting classes (`confined_convertClasses`), indexing, whose
graph knows files below the folder only (`confined_readTree`), and recasting them
(`confined_recastFiles`). Merging groups of files is so when their paths lead below the folder
(`confined_mergeGroups`).
-/

namespace Modulize

open FileStore (parentName)
open Modulize.Path (IsResolved IsBelow LeadsBelow)

/-- A group whose target and members lie below the output folder. -/
def GroupLeadsBelow (output : Path) (group : Text × List Text) : Prop :=
  ∀ m ∈ group.1 :: group.2, LeadsBelow output (output.join (Path.parse m))

/-! ## The files that a graph knows -/

namespace DependencyGraph

variable {P : Path → Prop} {g : DependencyGraph}

/-- All files that a graph knows are as described. -/
structure KnowsOnly (P : Path → Prop) (g : DependencyGraph) : Prop where
  owners : ∀ x ∈ g.owners, P x.2
  files : ∀ p ∈ g.files, P p

theorem knowsOnly_empty : KnowsOnly P .empty :=
  ⟨fun _ h => (List.not_mem_nil h).elim, fun _ h => (List.not_mem_nil h).elim⟩

theorem mem_enroll {p : Path} {ds : List Provide} {owners : List (Text × Path)} {x : Text × Path}
    (h : x ∈ (enroll p ds owners).1) : x ∈ owners ∨ x.2 = p := by
  induction ds generalizing owners with
  | nil => exact Or.inl h
  | cons d ds ih =>
    unfold enroll at h
    split at h
    · exact Or.inl h
    · rcases ih h with h | h
      · exact (List.mem_append.1 h).imp_right fun h => congrArg Prod.snd (List.mem_singleton.1 h)
      · exact Or.inr h

theorem KnowsOnly.addFile (h : KnowsOnly P g) {p : Path} (hp : P p) (ds : List Provide)
    (rs : List Require) : KnowsOnly P (g.addFile p ds rs).1 := by
  unfold DependencyGraph.addFile
  have enrolled : ∀ x ∈ (enroll p ds g.owners).1, P x.2 := fun x hx => by
    rcases mem_enroll hx with hx | hx
    · exact h.owners x hx
    · exact hx ▸ hp
  generalize enroll p ds g.owners = result at enrolled ⊢
  obtain ⟨owners, failure⟩ := result
  cases failure with
  | some f => exact ⟨enrolled, h.files⟩
  | none =>
    refine ⟨enrolled, fun q hq => ?_⟩
    obtain ⟨x, hx, rfl⟩ := List.mem_map.1 hq
    rcases mem_of_mem_assign hx with rfl | hx
    · exact hp
    · exact h.files _ (List.mem_map_of_mem hx)

/-- Selected files are files that the graph knows. -/
theorem KnowsOnly.of_closure (h : KnowsOnly P g) {names : List Text} {rule : SelectionRule}
    {s : Selecting} (selected : g.closure names rule = .ok s) : ∀ p ∈ s.selected, P p := by
  intro p hp
  have files : g.select names rule = .ok (Path.sort s.selected) := by
    rw [select, selected]
    rfl
  obtain ⟨-, -, -, -, -, taken, -⟩ := exists_of_select files
  obtain ⟨n, owner⟩ := ((taken p).1 ((mem_sortBy _).2 hp)).owned
  exact h.owners _ (mem_of_lookup? owner)

end DependencyGraph

namespace Session

/-! ## Confined sessions -/

section Rules

variable {α β : Type} {base : Path} {P : α → Prop} {Q : β → Prop}

/-- On every tree without links, and without a log file, a session changes only files below a
folder, whether it succeeds or fails, and a result that it gives is as described. -/
def Confined (base : Path) (s : Session α) (P : α → Prop) : Prop :=
  ∀ w, w.logFile = none → w.files.Plain →
    (s.runOn w).2.logFile = none ∧ FileStore.Confined base w.files (s.runOn w).2.files ∧
      ∀ a, (s.runOn w).1 = .ok a → P a

theorem confined_pure {a : α} (h : P a) : Confined base (pure a) P :=
  fun _ hlog plain => ⟨hlog, .refl plain, fun _ same => Except.ok.inj same ▸ h⟩

theorem confined_throw (f : Failure) : Confined base (throw f : Session α) P :=
  fun _ hlog plain => ⟨hlog, .refl plain, fun _ same => nomatch same⟩

theorem confined_bind {s : Session α} {k : α → Session β} (h : Confined base s P)
    (hk : ∀ a, P a → Confined base (k a) Q) : Confined base (s >>= k) Q := by
  intro w hlog plain
  obtain ⟨hlog', first, hP⟩ := h w hlog plain
  rw [runOn_bind]
  generalize s.runOn w = run at hlog' first hP
  obtain ⟨f | a, w'⟩ := run
  · exact ⟨hlog', first, fun _ same => nomatch same⟩
  · obtain ⟨hlog'', second, hQ⟩ := hk a (hP a rfl) w' hlog' first.plain
    exact ⟨hlog'', first.trans second, hQ⟩

theorem Confined.files {s : Session α} {w : World} (h : Confined base s P)
    (hlog : w.logFile = none) (plain : w.files.Plain) :
    FileStore.Confined base w.files (s.runOn w).2.files :=
  (h w hlog plain).2.1

theorem confined_look {f : FileStore → α} (h : ∀ fs : FileStore, fs.Plain → P (f fs)) :
    Confined base (look f) P :=
  fun w hlog plain => ⟨hlog, .refl plain, fun _ same => Except.ok.inj same ▸ h w.files plain⟩

theorem confined_read {f : FileStore → Except Failure α}
    (h : ∀ (fs : FileStore) a, fs.Plain → f fs = .ok a → P a) : Confined base (read f) P :=
  fun w hlog plain => ⟨hlog, .refl plain, fun a same => h w.files a plain same⟩

theorem confined_ofResult {x : Except Failure α} (h : ∀ a, x = .ok a → P a) :
    Confined base (ofResult x) P :=
  fun _ hlog plain => ⟨hlog, .refl plain, h⟩

theorem confined_emit (e : Log.Event) : Confined base (emit e) fun _ => True := by
  intro w hlog plain
  have quiet := World.quiet_note hlog e
  rw [runOn_emit]
  exact ⟨quiet.logFile, by rw [quiet.files]; exact .refl plain, fun _ _ => trivial⟩

/-- A report before a result. -/
theorem confined_report (e : Log.Event) {a : α} (h : P a) :
    Confined base (emit e >>= fun _ => pure a) P :=
  confined_bind (confined_emit e) fun _ _ => confined_pure h

theorem confined_emitAll (es : List Log.Event) : Confined base (emitAll es) fun _ => True := by
  intro w hlog plain
  obtain ⟨w', run, quiet⟩ := runOn_emitAll es hlog
  rw [run]
  exact ⟨quiet.logFile, by rw [quiet.files]; exact .refl plain, fun _ _ => trivial⟩

theorem confined_change {f : FileStore → Except Failure FileStore}
    (h : ∀ fs fs' : FileStore, fs.Plain → f fs = .ok fs' → FileStore.Confined base fs fs') :
    Confined base (change f) fun _ => True := by
  intro w hlog plain
  rw [runOn_change]
  cases changed : f w.files with
  | error e => exact ⟨hlog, .refl plain, fun _ _ => trivial⟩
  | ok files =>
    exact ⟨World.withFiles_logFile hlog files, h _ _ plain changed, fun _ _ => trivial⟩

theorem confined_attempt {s : Session α} (h : Confined base s P) :
    Confined base (attempt s) fun _ => True := by
  intro w hlog plain
  obtain ⟨hlog', confined, -⟩ := h w hlog plain
  exact ⟨hlog', confined, fun _ _ => trivial⟩

theorem confined_discard {s : Session α} (h : Confined base s P) :
    Confined base (discard s) fun _ => True :=
  confined_bind h fun _ _ => confined_pure trivial

theorem confined_map {f : α → β} {s : Session α} (h : Confined base s P)
    (hf : ∀ a, P a → Q (f a)) : Confined base (f <$> s) Q :=
  confined_bind h fun a ha => confined_pure (hf a ha)

theorem confined_mapM {f : α → Session β} {l : List α}
    (h : ∀ x ∈ l, Confined base (f x) fun _ => True) :
    Confined base (l.mapM f) fun _ => True := by
  induction l with
  | nil => exact confined_pure trivial
  | cons x l ih =>
    rw [List.mapM_cons]
    refine confined_bind (h x List.mem_cons_self) fun y _ => ?_
    refine confined_bind (ih fun z hz => h z (List.mem_cons_of_mem _ hz)) fun ys _ => ?_
    exact confined_pure trivial

theorem confined_forM {f : α → Session Unit} {l : List α}
    (h : ∀ x ∈ l, Confined base (f x) fun _ => True) :
    Confined base (l.forM f) fun _ => True := by
  induction l with
  | nil => exact confined_pure trivial
  | cons x l ih =>
    -- the loop over a list takes a step by definition
    change Confined base (f x >>= fun _ => l.forM f) _
    exact confined_bind (h x List.mem_cons_self) fun _ _ =>
      ih fun z hz => h z (List.mem_cons_of_mem _ hz)

end Rules

/-! ## Copying -/

section Stages

variable {source output p : Path} (resolved : output.IsResolved)

include resolved

theorem confined_copyFile (source : Path) (hp : parentName ∉ p.names) :
    Confined output (copyFile source output p) fun _ => True := by
  unfold copyFile
  split
  · exact confined_throw _
  · rename_i relative found
    have below : IsBelow output (output.join relative) := Path.isBelow_join_of_relativeTo? found hp
    dsimp only
    refine confined_bind (confined_change fun fs fs' plain made => ?_) fun _ _ => ?_
    · refine FileStore.confined_makeFolders plain ?_ made
      exact (below.isResolved resolved).isAbsolute
    refine confined_bind (confined_change fun fs fs' plain made => ?_) fun _ _ => ?_
    · exact FileStore.confined_copy plain resolved below (Path.name_ne_parentName hp) made
    exact confined_pure trivial

theorem confined_copyFiles (source : Path) {files : List Path}
    (h : ∀ p ∈ files, parentName ∉ p.names) :
    Confined output (copyFiles source output files) fun _ => True := by
  have sorted : ∀ p ∈ Path.sort files, Confined output (copyFile source output p) fun _ => True :=
    fun p hp => confined_copyFile resolved source (h p ((mem_sortBy _).1 hp))
  unfold copyFiles
  refine confined_bind (confined_mapM sorted) fun _ _ => ?_
  exact confined_report _ trivial

theorem confined_copyTree (hsource : source.IsResolved) :
    Confined output (copyTree source output) fun _ => True := by
  unfold copyTree
  refine confined_bind (confined_look (P := fun files => ∀ p ∈ files, parentName ∉ p.names)
    fun fs plain p hp => ?_) fun files h => ?_
  · exact ((plain.isBelow_of_mem_below (List.mem_filter.1 hp).1).isResolved hsource).names
  · exact confined_copyFiles resolved source h

theorem confined_clear : Confined output (clear output) fun _ => True :=
  confined_change fun _ _ plain cleared => FileStore.confined_clear plain resolved cleared

/-! ## Patching and converting classes -/

/-- A file below the folder may be written. -/
theorem confined_write (below : IsBelow output p) (t : Text) :
    Confined output (change (·.write p (.text t))) fun _ => True :=
  confined_change fun _ _ plain written =>
    FileStore.confined_write plain (below.leadsBelow resolved) written

theorem confined_patchFile (extension : Text) (rules : List PatchRule) (below : IsBelow output p)
    (relative : Text) : Confined output (patchFile extension rules p relative) fun _ => True := by
  unfold patchFile
  split
  · refine confined_bind (confined_read fun _ _ _ _ => trivial) fun t _ => ?_
    refine confined_bind (confined_emitAll _) fun _ _ => ?_
    refine confined_bind (confined_ofResult fun _ _ => trivial) fun t' _ => ?_
    split
    · exact confined_pure trivial
    · exact confined_bind (confined_write resolved below t') fun _ _ => confined_pure trivial
  · exact confined_pure trivial

theorem confined_patchFiles (extension : Text) (rules : List PatchRule)
    {candidates : List (Path × Text)} (below : ∀ x ∈ candidates, IsBelow output x.1) :
    Confined output (patchFiles extension rules candidates) fun _ => True := by
  induction candidates with
  | nil => exact confined_pure trivial
  | cons x candidates ih =>
    unfold patchFiles
    refine confined_bind (confined_patchFile resolved extension rules
      (below x List.mem_cons_self) x.2) fun _ _ => ?_
    refine confined_bind (ih fun y hy => below y (List.mem_cons_of_mem _ hy)) fun _ _ => ?_
    exact confined_pure trivial

omit resolved in
theorem confined_reportUntargeted (rules : List PatchRule) :
    Confined output (reportUntargeted rules) fun _ => True := by
  induction rules with
  | nil => exact confined_pure trivial
  | cons r rules ih =>
    unfold reportUntargeted
    split
    · exact confined_throw _
    · exact confined_bind (confined_emit _) fun _ _ => ih

omit resolved in
theorem isBelow_of_patchCandidates {fs : FileStore} (plain : fs.Plain)
    {candidates : List (Path × Text)}
    (h : patchCandidates Conversion.sourceExtension output fs = .ok candidates) :
    ∀ x ∈ candidates, IsBelow output x.1 := by
  obtain ⟨found, searched, h⟩ := bind_eq_ok h
  obtain rfl := Except.ok.inj h
  intro x hx
  obtain ⟨q, hq, candidate⟩ := List.mem_filterMap.1 hx
  obtain ⟨-, -, rfl⟩ := Option.map_eq_some_iff.1 candidate
  have read : Glob.read ('*' :: Conversion.sourceExtension) =
      .ok [.fitting (Glob.namePattern 0 ('*' :: Conversion.sourceExtension))] := by rfl
  exact plain.isBelow_of_globBelow read (by simp) searched (List.mem_filter.1 hq).1

theorem confined_patchTree (rules : List PatchRule) :
    Confined output (patchTree Conversion.sourceExtension rules output) fun _ => True := by
  unfold patchTree
  split
  · exact confined_pure trivial
  · refine confined_bind (confined_read fun _ _ plain => isBelow_of_patchCandidates plain)
      fun candidates below => ?_
    refine confined_bind (confined_patchFiles resolved _ rules below) fun _ _ => ?_
    refine confined_bind (confined_reportUntargeted _) fun _ _ => ?_
    exact confined_report _ trivial

theorem confined_convertClassesIn (root : Text) (below : IsBelow output p) :
    Confined output (convertClassesIn root p) fun _ => True := by
  unfold convertClassesIn
  refine confined_bind (confined_read fun _ _ _ _ => trivial) fun t _ => ?_
  refine confined_bind (confined_ofResult fun _ _ => trivial) fun t' _ => ?_
  split
  · exact confined_pure trivial
  · refine confined_bind (confined_write resolved below t') fun _ _ => ?_
    exact confined_report _ trivial

theorem confined_convertEachClass (root : Text) {files : List Path}
    (below : ∀ p ∈ files, IsBelow output p) :
    Confined output (convertEachClass root files) fun _ => True := by
  induction files with
  | nil => exact confined_pure trivial
  | cons p files ih =>
    unfold convertEachClass
    refine confined_bind (confined_convertClassesIn resolved root
      (below p List.mem_cons_self)) fun _ _ => ?_
    refine confined_bind (ih fun q hq => below q (List.mem_cons_of_mem _ hq)) fun _ _ => ?_
    exact confined_pure trivial

theorem confined_convertClasses (root : Text) {files : List Path}
    (below : ∀ p ∈ files, IsBelow output p) :
    Confined output (convertClasses root files) fun _ => True := by
  unfold convertClasses
  refine confined_bind (confined_convertEachClass resolved root below) fun _ _ => ?_
  exact confined_report _ trivial

/-! ## Recasting -/

theorem confined_recastFile (g : DependencyGraph) (settings : RecastSettings)
    (below : IsBelow output p) :
    Confined output (recastFile g settings p) fun _ => True := by
  unfold recastFile
  refine confined_bind (confined_read fun _ _ _ _ => trivial) fun t _ => ?_
  split
  · split
    · exact confined_report _ trivial
    · exact confined_throw _
  · exact confined_report _ trivial
  · refine confined_bind (confined_write resolved below _) fun _ _ => ?_
    exact confined_report _ trivial

theorem confined_recastFiles (g : DependencyGraph) (settings : RecastSettings) {files : List Path}
    (below : ∀ p ∈ files, IsBelow output p) :
    Confined output (recastFiles g settings files) fun _ => True := by
  unfold recastFiles
  refine confined_bind (confined_mapM fun p hp =>
    confined_recastFile resolved g settings (below p hp)) fun _ _ => ?_
  exact confined_report _ trivial

/-! ## Merging -/

omit resolved in
theorem confined_replaceFiles {files : List Path} {target : Path} (t : Text)
    (hfiles : ∀ p ∈ files, LeadsBelow output p) (htarget : LeadsBelow output target) :
    Confined output (replaceFiles files target t) fun _ => True := by
  unfold replaceFiles
  refine confined_bind (confined_forM fun p hp => confined_change fun _ _ plain =>
    FileStore.confined_unlink plain (hfiles p hp)) fun _ _ => ?_
  refine confined_bind (confined_change fun _ _ plain =>
    FileStore.confined_makeFolders plain htarget.absolute) fun _ _ => ?_
  exact confined_change fun _ _ plain => FileStore.confined_write plain htarget

omit resolved in
theorem confined_mergeGroup (root : Text) {group : Text × List Text}
    (below : GroupLeadsBelow output group) :
    Confined output (mergeGroup root output group.1 group.2) fun _ => True := by
  unfold mergeGroup
  refine confined_bind (confined_look (P := fun there => ∀ p ∈ there, LeadsBelow output p)
    fun fs _ p hp => ?_) fun there hthere => ?_
  · obtain ⟨m, hm, rfl⟩ := List.mem_map.1 (List.mem_filter.1 hp).1
    exact below m (List.mem_cons_of_mem _ hm)
  refine confined_bind (confined_look (P := fun _ => True) fun _ _ => trivial)
    fun missing _ => ?_
  refine confined_bind (confined_emitAll _) fun _ _ => ?_
  split
  · exact confined_report _ trivial
  · refine confined_bind (confined_read fun _ _ _ _ => trivial) fun t _ => ?_
    refine confined_bind (confined_replaceFiles t hthere (below _ List.mem_cons_self))
      fun _ _ => ?_
    exact confined_report _ trivial

omit resolved in
theorem confined_mergeGroups (root : Text) {groups : List (Text × List Text)}
    (below : ∀ group ∈ groups, GroupLeadsBelow output group) :
    Confined output (mergeGroups root output groups) fun _ => True := by
  induction groups with
  | nil => exact confined_pure trivial
  | cons group groups ih =>
    unfold mergeGroups
    refine confined_bind (confined_mergeGroup root
      (below group List.mem_cons_self)) fun _ _ => ?_
    refine confined_bind (ih fun other h => below other (List.mem_cons_of_mem _ h)) fun _ _ => ?_
    exact confined_pure trivial

end Stages

/-! ## Reading -/

section Reading

open DependencyGraph (KnowsOnly knowsOnly_empty)

variable {base root : Path} {P : Path → Prop} {g : DependencyGraph}

theorem confined_readDeclarations (rule : ReadRule) (p : Path) :
    Confined base (readDeclarations rule p) fun _ => True := by
  unfold readDeclarations
  refine confined_bind (confined_read fun _ _ _ _ => trivial) fun t _ => ?_
  refine confined_bind (confined_emitAll _) fun _ _ => ?_
  exact confined_ofResult fun _ _ => trivial

theorem confined_indexFile (rule : ReadRule) (hg : KnowsOnly P g) {p : Path} (hp : P p) :
    Confined base (indexFile rule g p) fun r => KnowsOnly P r.1 := by
  unfold indexFile
  refine confined_bind (confined_attempt (confined_readDeclarations rule p)) fun read _ => ?_
  match read with
  | .error f => exact confined_pure hg
  | .ok none => exact confined_pure hg
  | .ok (some d) =>
    have added := hg.addFile hp d.provides d.requires
    dsimp only
    generalize g.addFile p d.provides d.requires = result at added ⊢
    obtain ⟨g', failure⟩ := result
    dsimp only
    split
    · exact confined_report _ added
    · exact confined_pure added

theorem confined_indexFiles (rule : ReadRule) {files : List Path} (hg : KnowsOnly P g)
    (hfiles : ∀ p ∈ files, P p) :
    Confined base (indexFiles rule g files) fun r => KnowsOnly P r.1 := by
  induction files generalizing g with
  | nil => exact confined_pure hg
  | cons p files ih =>
    unfold indexFiles
    refine confined_bind (confined_indexFile rule hg (hfiles p List.mem_cons_self))
      fun r hr => ?_
    match r with
    | (g, some f) => exact confined_pure hr
    | (g, none) => exact ih hr fun q hq => hfiles q (List.mem_cons_of_mem _ hq)

theorem confined_lookSources (rule : ReadRule) (resolved : root.IsResolved) :
    Confined base (look (·.sources rule.walkRule root)) fun found =>
      ∀ p ∈ found.1, IsBelow root p :=
  confined_look fun _ plain _ hp => plain.isBelow_of_mem_sources _ resolved hp

theorem confined_sources (rule : ReadRule) (resolved : root.IsResolved) :
    Confined base (sources rule root) fun files => ∀ p ∈ files, IsBelow root p := by
  unfold sources
  refine confined_bind (confined_lookSources rule resolved) fun found below => ?_
  obtain ⟨paths, failure⟩ := found
  cases failure with
  | some f => exact confined_throw f
  | none => exact confined_pure below

theorem confined_indexTree (rule : ReadRule) (resolved : root.IsResolved) :
    Confined base (indexTree rule .empty root) fun r => KnowsOnly (IsBelow root) r.1 := by
  unfold indexTree
  refine confined_bind (confined_lookSources rule resolved) fun found below => ?_
  refine confined_bind (confined_indexFiles rule knowsOnly_empty below) fun r hr => ?_
  obtain ⟨g, failure⟩ := r
  dsimp only
  split
  · exact confined_pure hr
  · exact confined_report _ hr

/-- The graph of a folder knows files below it only. -/
theorem confined_readTree (rule : ReadRule) (resolved : root.IsResolved) :
    Confined base (readTree rule root) (KnowsOnly (IsBelow root)) := by
  unfold readTree
  refine confined_bind (confined_indexTree rule resolved) fun r hr => ?_
  match r with
  | (_, some f) => exact confined_throw f
  | (g, none) => exact confined_pure hr

theorem confined_namesListedIn (file : Path) :
    Confined base (namesListedIn file) fun _ => True := by
  unfold namesListedIn
  exact confined_bind (confined_read fun _ _ _ _ => trivial) fun _ _ => confined_pure trivial

theorem confined_select (hg : KnowsOnly P g) (names : List Text)
    (rule : DependencyGraph.SelectionRule) :
    Confined base (Session.select g names rule) fun files => ∀ p ∈ files, P p := by
  unfold Session.select
  refine confined_bind (confined_ofResult (P := fun s => ∀ p ∈ s.selected, P p)
    fun _ selected => hg.of_closure selected) fun s hs => ?_
  exact confined_report _ fun p hp => hs p ((mem_sortBy _).1 hp)

end Reading

end Session

end Modulize
