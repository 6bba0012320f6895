import Modulize.Project.Recasting
import Modulize.Proofs.Files.Store
import Modulize.Proofs.Session

/-!
# Files are recast one by one

What a run makes of a file depends on the text of that file alone, as it was before the run
(`verdict`): the run goes through its files, puts the new text of each one that is converted in its
place, and stops at the first failure (`runOn_recastFiles`). This needs that no two paths of the
list lead to the same place (`LeadApart`).

So each file holds its own recast text or what it held before (`RecastFrom`), the order of the list
does not matter, and a run that fails leaves the files before the failure recast
(`recastFiles_independent`). Two paths of one file, such as a way round through another folder, do
get in each other's way (`recastFiles_depends_on_order`).
-/

namespace Modulize

open Session

namespace Recast

/-- What recasting makes of a text of the file at a path: its status, and its new text when it is
converted. -/
def judge (g : DependencyGraph) (settings : RecastSettings) (p : Path) (t : Text) :
    Except Failure (RecastStatus × Option Text) :=
  match convertFile ⟨g, settings, p⟩ t with
  | .error f => if f.isAmbiguousExport then .ok (.skipped f.message, none) else .error f
  | .ok none => .ok (.skipped convertedBefore, none)
  | .ok (some t') => .ok (.converted, some t')

/-- What recasting makes of the file at a path. -/
def verdict (g : DependencyGraph) (settings : RecastSettings) (fs : FileStore) (p : Path) :
    Except Failure (RecastStatus × Option Text) :=
  fs.sourceAt p >>= judge g settings p

/-- The outcome for the file at a path. -/
def outcomeOf (g : DependencyGraph) (settings : RecastSettings) (fs : FileStore) (p : Path) :
    Except Failure RecastOutcome :=
  (verdict g settings fs p).map fun v => ⟨p, v.1⟩

/-- The place and the new text of a file that is converted. -/
def rewriting? (g : DependencyGraph) (settings : RecastSettings) (fs : FileStore) (p : Path) :
    Option (List Text × Text) :=
  match fs.locate p, verdict g settings fs p with
  | .ok names, .ok (_, some t) => some (names, t)
  | _, _ => none

/-- No two paths of a list lead to the same place. -/
def LeadApart (fs : FileStore) (files : List Path) : Prop :=
  files.Pairwise fun p q => ∀ names, fs.locate p = .ok names → fs.locate q ≠ .ok names

/-- Files have been recast, each from the text that `fs` has for it, and nothing else has
changed. -/
structure RecastFrom (g : DependencyGraph) (settings : RecastSettings) (fs : FileStore)
    (files : List Path) (outcomes : List RecastOutcome) (fs' : FileStore) : Prop where
  paths : outcomes.map (·.path) = files
  converted : ∀ o ∈ outcomes, o.status = .converted →
    ∃ t t', fs.sourceAt o.path = .ok t ∧ convertFile ⟨g, settings, o.path⟩ t = .ok (some t') ∧
      fs'.contentAt o.path = .ok (.text t')
  skipped : ∀ o ∈ outcomes, ∀ reason, o.status = .skipped reason →
    ∃ t, fs.sourceAt o.path = .ok t ∧
      (convertFile ⟨g, settings, o.path⟩ t = .ok none ∧ reason = convertedBefore ∨
        ∃ f, convertFile ⟨g, settings, o.path⟩ t = .error f ∧ f.isAmbiguousExport = true ∧
          reason = f.message) ∧
      fs'.contentAt o.path = fs.contentAt o.path
  others : ∀ names, (∀ o ∈ outcomes, o.status = .converted → fs.locate o.path ≠ .ok names) →
    fs'.entry? names = fs.entry? names

/-- The file at a path cannot be recast: it cannot be read, or its conversion fails other than over
unclear exports. -/
def Fails (g : DependencyGraph) (settings : RecastSettings) (fs : FileStore) (p : Path)
    (f : Failure) : Prop :=
  fs.sourceAt p = .error f ∨
    ∃ t, fs.sourceAt p = .ok t ∧ convertFile ⟨g, settings, p⟩ t = .error f ∧
      f.isAmbiguousExport = false

variable {g : DependencyGraph} {settings : RecastSettings} {fs fs' : FileStore} {p q : Path}
  {files before later : List Path} {w : World}

/-! ## The verdict on a file -/

theorem verdict_eq_ok {v : RecastStatus × Option Text} (h : verdict g settings fs p = .ok v) :
    ∃ t, fs.sourceAt p = .ok t ∧
      ((∃ f, convertFile ⟨g, settings, p⟩ t = .error f ∧ f.isAmbiguousExport = true ∧
          v = (.skipped f.message, none)) ∨
        (convertFile ⟨g, settings, p⟩ t = .ok none ∧ v = (.skipped convertedBefore, none)) ∨
        ∃ t', convertFile ⟨g, settings, p⟩ t = .ok (some t') ∧ v = (.converted, some t')) := by
  obtain ⟨t, source, h⟩ := bind_eq_ok h
  refine ⟨t, source, ?_⟩
  unfold judge at h
  split at h
  · rename_i f failed
    split at h
    · rename_i unclear
      exact Or.inl ⟨f, failed, unclear, (Except.ok.inj h).symm⟩
    · cases h
  · rename_i none
    exact Or.inr (Or.inl ⟨none, (Except.ok.inj h).symm⟩)
  · rename_i t' converted
    exact Or.inr (Or.inr ⟨t', converted, (Except.ok.inj h).symm⟩)

theorem of_verdict_converted {t? : Option Text}
    (h : verdict g settings fs p = .ok (.converted, t?)) :
    ∃ t t', fs.sourceAt p = .ok t ∧ convertFile ⟨g, settings, p⟩ t = .ok (some t') ∧
      t? = some t' := by
  obtain ⟨t, source, ⟨_, -, -, same⟩ | ⟨-, same⟩ | ⟨t', made, same⟩⟩ := verdict_eq_ok h
  · cases same
  · cases same
  · exact ⟨t, t', source, made, (Prod.mk.inj same).2⟩

theorem of_verdict_skipped {reason : Text} {t? : Option Text}
    (h : verdict g settings fs p = .ok (.skipped reason, t?)) :
    t? = none ∧ ∃ t, fs.sourceAt p = .ok t ∧
      (convertFile ⟨g, settings, p⟩ t = .ok none ∧ reason = convertedBefore ∨
        ∃ f, convertFile ⟨g, settings, p⟩ t = .error f ∧ f.isAmbiguousExport = true ∧
          reason = f.message) := by
  obtain ⟨t, source, ⟨f, failed, unclear, same⟩ | ⟨none, same⟩ | ⟨_, -, same⟩⟩ := verdict_eq_ok h
  · cases same
    exact ⟨rfl, t, source, Or.inr ⟨f, failed, unclear, rfl⟩⟩
  · cases same
    exact ⟨rfl, t, source, Or.inl ⟨none, rfl⟩⟩
  · cases same

theorem fails_of_verdict {f : Failure} (h : verdict g settings fs p = .error f) :
    Fails g settings fs p f := by
  unfold verdict at h
  cases source : fs.sourceAt p with
  | error f' =>
    rw [source] at h
    obtain rfl : f' = f := Except.error.inj h
    exact Or.inl source
  | ok t =>
    rw [source] at h
    refine Or.inr ⟨t, source, ?_⟩
    change judge g settings p t = _ at h
    unfold judge at h
    split at h
    · rename_i f' failed
      split at h
      · cases h
      · rename_i clear
        obtain rfl := Except.error.inj h
        exact ⟨failed, Bool.eq_false_iff.2 clear⟩
    · cases h
    · cases h

theorem verdict_congr (h : fs'.sourceAt p = fs.sourceAt p) :
    verdict g settings fs' p = verdict g settings fs p := by
  rw [verdict, h, verdict]

theorem rewriting?_eq_some {names : List Text} {t' : Text}
    (h : rewriting? g settings fs p = some (names, t')) :
    fs.locate p = .ok names ∧ ∃ status, verdict g settings fs p = .ok (status, some t') := by
  unfold rewriting? at h
  split at h
  · rename_i located judged
    obtain ⟨rfl, rfl⟩ := Prod.mk.inj (Option.some.inj h)
    exact ⟨located, _, judged⟩
  · cases h

theorem rewriting?_of_error {f : Failure} (h : verdict g settings fs p = .error f) :
    rewriting? g settings fs p = none := by
  rw [Option.eq_none_iff_forall_ne_some]
  rintro ⟨names, t⟩ found
  obtain ⟨-, status, judged⟩ := rewriting?_eq_some found
  cases h.symm.trans judged

theorem rewriting?_of_ok {names : List Text} {v : RecastStatus × Option Text}
    (located : fs.locate p = .ok names) (h : verdict g settings fs p = .ok v) :
    rewriting? g settings fs p = v.2.map fun t => (names, t) := by
  obtain ⟨status, text⟩ := v
  rw [rewriting?, located, h]
  cases text <;> rfl

/-! ## Writing texts in place of files -/

/-- Put texts into the places of files, one after another. -/
def rewrite (fs : FileStore) (texts : List (List Text × Text)) : FileStore :=
  texts.foldl (fun fs x => fs.put x.1 (.file (.text x.2))) fs

/-- All the places hold files. -/
def HoldFiles (fs : FileStore) (texts : List (List Text × Text)) : Prop :=
  ∀ x ∈ texts, ∃ c, fs.entry? x.1 = some (.file c)

theorem HoldFiles.put {texts : List (List Text × Text)} (h : HoldFiles fs texts)
    (names : List Text) (c : Content) : HoldFiles (fs.put names (.file c)) texts := by
  intro x hx
  rw [FileStore.entry?_put]
  split
  · exact ⟨c, rfl⟩
  · exact h x hx

theorem sameShape_rewrite {texts : List (List Text × Text)} (h : HoldFiles fs texts) :
    fs.SameShape (rewrite fs texts) := by
  induction texts generalizing fs with
  | nil => exact .refl fs
  | cons x texts ih =>
    obtain ⟨c, hc⟩ := h x List.mem_cons_self
    have rest : HoldFiles fs texts := fun y hy => h y (List.mem_cons_of_mem _ hy)
    exact (FileStore.sameShape_put hc _).trans (ih (rest.put _ _))

theorem entry?_rewrite_of_not_mem {texts : List (List Text × Text)} {names : List Text}
    (h : names ∉ texts.map Prod.fst) :
    FileStore.entry? (rewrite fs texts) names = fs.entry? names := by
  induction texts generalizing fs with
  | nil => rfl
  | cons x texts ih =>
    rw [List.map_cons, List.mem_cons, not_or] at h
    exact (ih h.2).trans (FileStore.entry?_put_of_ne h.1)

theorem entry?_rewrite_of_mem {texts : List (List Text × Text)} {x : List Text × Text}
    (h : HoldFiles fs texts) (nodup : (texts.map Prod.fst).Nodup) (hx : x ∈ texts) :
    FileStore.entry? (rewrite fs texts) x.1 = some (.file (.text x.2)) := by
  induction texts generalizing fs with
  | nil => cases hx
  | cons y texts ih =>
    obtain ⟨fresh, nodup⟩ := List.nodup_cons.1 nodup
    have rest : HoldFiles fs texts := fun z hz => h z (List.mem_cons_of_mem _ hz)
    rcases List.mem_cons.1 hx with rfl | hx
    · obtain ⟨c, hc⟩ := h x List.mem_cons_self
      refine (entry?_rewrite_of_not_mem fresh).trans ?_
      rw [FileStore.entry?_put, if_pos ⟨rfl, FileStore.ne_nil_of_file hc⟩]
    · exact ih (rest.put _ _) nodup hx

/-- The order in which texts are put into different places does not matter. -/
theorem rewrite_perm {texts texts' : List (List Text × Text)} (perm : texts.Perm texts')
    (h : HoldFiles fs texts) (nodup : (texts.map Prod.fst).Nodup) :
    rewrite fs texts' = rewrite fs texts := by
  induction perm generalizing fs with
  | nil => rfl
  | cons x perm ih =>
    have rest : HoldFiles fs _ := fun y hy => h y (List.mem_cons_of_mem _ hy)
    exact ih (rest.put _ _) (List.nodup_cons.1 nodup).2
  | swap x y l =>
    obtain ⟨c, hc⟩ := h x (List.mem_cons_of_mem _ List.mem_cons_self)
    obtain ⟨d, hd⟩ := h y List.mem_cons_self
    have other : x.1 ≠ y.1 := fun same =>
      (List.nodup_cons.1 nodup).1 (same ▸ List.mem_cons_self)
    have there {z : List Text} {c : Content} (hz : fs.entry? z = some (.file c)) :
        (lookup? z fs.entries).isSome := by
      rw [← FileStore.entry?_of_ne_nil (FileStore.ne_nil_of_file hz), hz]
      rfl
    have swapped : (fs.put x.1 (.file (.text x.2))).put y.1 (.file (.text y.2)) =
        (fs.put y.1 (.file (.text y.2))).put x.1 (.file (.text x.2)) := by
      simp only [FileStore.put, assign_comm other (there hc) (there hd)]
    exact congrArg (rewrite · l) swapped
  | trans first second ih ih' =>
    have h' : HoldFiles fs _ := fun x hx => h x (first.mem_iff.2 hx)
    exact (ih' h' ((first.map _).nodup_iff.1 nodup)).trans (ih h nodup)

/-! ## The rewritings of a list of files -/

theorem exists_entry_of_verdict {v : RecastStatus × Option Text}
    (h : verdict g settings fs p = .ok v) :
    ∃ names c, fs.locate p = .ok names ∧ fs.entry? names = some (.file c) := by
  obtain ⟨t, source, -⟩ := verdict_eq_ok h
  obtain ⟨c, read⟩ := FileStore.exists_contentAt_of_sourceAt source
  obtain ⟨names, located, entry⟩ := FileStore.exists_of_contentAt read
  exact ⟨names, c, located, entry⟩

theorem holdFiles_rewritings (g : DependencyGraph) (settings : RecastSettings) (fs : FileStore)
    (files : List Path) :
    HoldFiles fs (files.filterMap (rewriting? g settings fs)) := by
  intro x hx
  obtain ⟨p, -, found⟩ := List.mem_filterMap.1 hx
  obtain ⟨located, status, judged⟩ := rewriting?_eq_some found
  obtain ⟨names, c, located', entry⟩ := exists_entry_of_verdict judged
  obtain rfl := Except.ok.inj (located.symm.trans located')
  exact ⟨c, entry⟩

theorem sameShape_rewritings (g : DependencyGraph) (settings : RecastSettings) (fs : FileStore)
    (files : List Path) :
    fs.SameShape (rewrite fs (files.filterMap (rewriting? g settings fs))) :=
  sameShape_rewrite (holdFiles_rewritings g settings fs files)

theorem LeadApart.nodup_rewritings (apart : LeadApart fs files) :
    ((files.filterMap (rewriting? g settings fs)).map Prod.fst).Nodup := by
  rw [List.Nodup, List.pairwise_map]
  refine List.Pairwise.filterMap _ (fun p q elsewhere x hx y hy same => ?_) apart
  exact elsewhere x.1 (rewriting?_eq_some hx).1 (same ▸ (rewriting?_eq_some hy).1)

theorem LeadApart.perm {files' : List Path} (apart : LeadApart fs files)
    (perm : files'.Perm files) : LeadApart fs files' :=
  perm.symm.pairwise apart fun h names hq hp => h names hp hq

theorem LeadApart.eq_of_locate {names : List Text} (apart : LeadApart fs files) (hp : p ∈ files)
    (hq : q ∈ files) (toP : fs.locate p = .ok names) (toQ : fs.locate q = .ok names) : p = q := by
  rcases pairwise_cases apart hp hq with same | elsewhere | elsewhere
  · exact same
  · exact absurd toQ (elsewhere names toP)
  · exact absurd toP (elsewhere names toQ)

/-- A file of a list is not touched when the files before it are rewritten. -/
theorem LeadApart.sourceAt_rewrite (apart : LeadApart fs (before ++ p :: later)) :
    (rewrite fs (before.filterMap (rewriting? g settings fs))).sourceAt p = fs.sourceAt p := by
  have shape := sameShape_rewritings g settings fs before
  refine FileStore.sourceAt_congr (FileStore.contentAt_congr shape fun names located => ?_)
  refine entry?_rewrite_of_not_mem fun mem => ?_
  obtain ⟨x, hx, rfl⟩ := List.mem_map.1 mem
  obtain ⟨q, hq, found⟩ := List.mem_filterMap.1 hx
  exact (List.pairwise_append.1 apart).2.2 q hq p List.mem_cons_self x.1
    (rewriting?_eq_some found).1 located

theorem LeadApart.rewriting?_rewrite (apart : LeadApart fs (before ++ p :: later)) :
    rewriting? g settings (rewrite fs (before.filterMap (rewriting? g settings fs))) p =
      rewriting? g settings fs p := by
  have shape := sameShape_rewritings g settings fs before
  rw [rewriting?, FileStore.locate_congr shape, verdict_congr apart.sourceAt_rewrite, rewriting?]

/-! ## Outcomes -/

theorem outcomeOf_eq_ok {o : RecastOutcome} (h : outcomeOf g settings fs p = .ok o) :
    o.path = p ∧ ∃ t?, verdict g settings fs p = .ok (o.status, t?) := by
  unfold outcomeOf at h
  cases judged : verdict g settings fs p with
  | error f =>
    rw [judged] at h
    cases h
  | ok v =>
    rw [judged] at h
    obtain rfl := Except.ok.inj h
    exact ⟨rfl, v.2, rfl⟩

theorem verdict_of_outcomeOf {f : Failure} (h : outcomeOf g settings fs p = .error f) :
    verdict g settings fs p = .error f := by
  unfold outcomeOf at h
  cases judged : verdict g settings fs p with
  | ok v =>
    rw [judged] at h
    cases h
  | error f' =>
    rw [judged] at h
    exact congrArg _ (Except.error.inj h)

theorem map_path_of_mapM {outcomes : List RecastOutcome}
    (h : files.mapM (outcomeOf g settings fs) = .ok outcomes) : outcomes.map (·.path) = files := by
  induction files generalizing outcomes with
  | nil =>
    obtain rfl := Except.ok.inj h
    rfl
  | cons p files ih =>
    obtain ⟨o, os, first, rest, rfl⟩ := mapM_cons_eq_ok h
    rw [List.map_cons, ih rest, (outcomeOf_eq_ok first).1]

/-- Rewriting files that lead to different places recasts them from what they were. -/
theorem recastFrom_of_mapM {outcomes : List RecastOutcome} (apart : LeadApart fs files)
    (h : files.mapM (outcomeOf g settings fs) = .ok outcomes) :
    RecastFrom g settings fs files outcomes
      (rewrite fs (files.filterMap (rewriting? g settings fs))) := by
  have hold := holdFiles_rewritings g settings fs files
  have shape := sameShape_rewritings g settings fs files
  refine ⟨map_path_of_mapM h, fun o ho converted => ?_, fun o ho reason skipped => ?_,
    fun names elsewhere => ?_⟩
  · obtain ⟨p, hp, outcome⟩ := exists_of_mem_mapM h ho
    obtain ⟨rfl, t?, judged⟩ := outcomeOf_eq_ok outcome
    rw [converted] at judged
    obtain ⟨t, t', source, made, rfl⟩ := of_verdict_converted judged
    obtain ⟨names, c, located, -⟩ := exists_entry_of_verdict judged
    have found : rewriting? g settings fs o.path = some (names, t') :=
      rewriting?_of_ok located judged
    have written := entry?_rewrite_of_mem hold apart.nodup_rewritings
      (List.mem_filterMap.2 ⟨o.path, hp, found⟩)
    have located' := (FileStore.locate_congr shape o.path).trans located
    exact ⟨t, t', source, made, FileStore.contentAt_of_entry located' written⟩
  · obtain ⟨p, hp, outcome⟩ := exists_of_mem_mapM h ho
    obtain ⟨rfl, t?, judged⟩ := outcomeOf_eq_ok outcome
    rw [skipped] at judged
    obtain ⟨rfl, t, source, why⟩ := of_verdict_skipped judged
    refine ⟨t, source, why, FileStore.contentAt_congr shape fun names located => ?_⟩
    refine entry?_rewrite_of_not_mem fun mem => ?_
    obtain ⟨x, hx, rfl⟩ := List.mem_map.1 mem
    obtain ⟨q, hq, found⟩ := List.mem_filterMap.1 hx
    obtain ⟨located', status, judged'⟩ := rewriting?_eq_some found
    obtain rfl := apart.eq_of_locate hp hq located located'
    cases judged.symm.trans judged'
  · refine entry?_rewrite_of_not_mem fun mem => ?_
    obtain ⟨x, hx, rfl⟩ := List.mem_map.1 mem
    obtain ⟨q, hq, found⟩ := List.mem_filterMap.1 hx
    obtain ⟨located, status, judged⟩ := rewriting?_eq_some found
    obtain ⟨o, ho, outcome⟩ := exists_mem_of_mapM h hq
    obtain ⟨rfl, t?, judged'⟩ := outcomeOf_eq_ok outcome
    obtain ⟨same, rfl⟩ := Prod.mk.inj (Except.ok.inj (judged.symm.trans judged'))
    refine elsewhere o ho ?_ located
    cases hs : o.status with
    | converted => rfl
    | skipped reason =>
      rw [hs] at judged'
      cases (of_verdict_skipped judged').1

end Recast

/-! ## Runs -/

namespace Session

open Recast

variable {g : DependencyGraph} {settings : RecastSettings} {fs : FileStore} {p : Path}
  {files done : List Path} {w : World}

/-- Recasting a file gives its verdict, and puts its new text in its place. -/
theorem runOn_recastFile (g : DependencyGraph) (settings : RecastSettings) (p : Path)
    (hlog : w.logFile = none) :
    ∃ w', (recastFile g settings p).runOn w = (outcomeOf g settings w.files p, w') ∧
      w'.logFile = none ∧
      w'.files = rewrite w.files (rewriting? g settings w.files p).toList := by
  rw [recastFile, runOn_bind, runOn_read, outcomeOf]
  cases judged : verdict g settings w.files p with
  | error f =>
    rw [rewriting?_of_error judged]
    rcases fails_of_verdict judged with unread | ⟨t, source, failed, clear⟩
    · exact ⟨w, by rw [unread]; rfl, hlog, rfl⟩
    · refine ⟨w, ?_, hlog, rfl⟩
      simp only [source, failed, clear]
      rfl
  | ok v =>
    obtain ⟨t, source, cases⟩ := verdict_eq_ok judged
    obtain ⟨names, c, located, entry⟩ := exists_entry_of_verdict judged
    rw [rewriting?_of_ok located judged]
    rcases cases with ⟨f, failed, unclear, rfl⟩ | ⟨before, rfl⟩ | ⟨t', converted, rfl⟩
    · refine ⟨w.note (exportUnclearEvent p f), ?_, (World.quiet_note hlog _).logFile,
        (World.quiet_note hlog _).files⟩
      simp only [source, failed, unclear]
      rfl
    · refine ⟨w.note (headerlessEvent p), ?_, (World.quiet_note hlog _).logFile,
        (World.quiet_note hlog _).files⟩
      simp only [source, before]
      rfl
    · have written := FileStore.write_of_contentAt located entry (.text t')
      have hlog' := World.withFiles_logFile hlog (w.files.put names (.file (.text t')))
      refine ⟨(w.withFiles (w.files.put names (.file (.text t')))).note (recastEvent p), ?_,
        (World.quiet_note hlog' _).logFile, (World.quiet_note hlog' _).files⟩
      simp only [source, converted, runOn_bind, runOn_change, written]
      rfl

/-- **A run** gives the verdicts on its files as they were at its beginning, up to the first
failure, and rewrites the files before that. -/
theorem runOn_mapM_recastFile (g : DependencyGraph) (settings : RecastSettings)
    (apart : LeadApart fs (done ++ files)) (hlog : w.logFile = none)
    (hfiles : w.files = rewrite fs (done.filterMap (rewriting? g settings fs))) :
    ∃ w', (files.mapM (recastFile g settings)).runOn w =
        (files.mapM (outcomeOf g settings fs), w') ∧ w'.logFile = none ∧
      w'.files = rewrite fs ((done ++ files.takeWhile fun p =>
        (outcomeOf g settings fs p).isOk).filterMap (rewriting? g settings fs)) := by
  -- the files that are done move on, so that the tree is always one that `fs` has been rewritten to
  induction files generalizing done w with
  | nil => exact ⟨w, rfl, hlog, by rw [hfiles]; simp⟩
  | cons p files ih =>
    obtain ⟨w₁, run, hlog₁, hfiles₁⟩ := runOn_recastFile g settings p hlog
    -- what `p` leads to has not been touched by the files before it
    rw [outcomeOf, hfiles, verdict_congr apart.sourceAt_rewrite, ← outcomeOf] at run
    rw [hfiles, apart.rewriting?_rewrite] at hfiles₁
    rw [List.mapM_cons, List.mapM_cons, runOn_bind, run, List.takeWhile_cons]
    cases judged : outcomeOf g settings fs p with
    | error f =>
      refine ⟨w₁, rfl, hlog₁, ?_⟩
      rw [hfiles₁, rewriting?_of_error (verdict_of_outcomeOf judged)]
      simp [Except.isOk, Except.toBool, rewrite]
    | ok o =>
      rw [List.append_cons] at apart
      obtain ⟨w', run', hlog', hfiles'⟩ := ih apart hlog₁ (by
        rw [hfiles₁, List.filterMap_append, rewrite, rewrite, rewrite, List.foldl_append]
        cases found : rewriting? g settings fs p <;> simp [found])
      refine ⟨w', ?_, hlog', ?_⟩
      · simp only [runOn_bind, run']
        cases files.mapM (outcomeOf g settings fs) <;> rfl
      · rw [hfiles', List.append_assoc]
        simp [Except.isOk, Except.toBool]

theorem runOn_recastFiles (g : DependencyGraph) (settings : RecastSettings)
    (apart : LeadApart w.files files) (hlog : w.logFile = none) :
    ∃ w', (recastFiles g settings files).runOn w =
        (files.mapM (outcomeOf g settings w.files), w') ∧
      w'.files = rewrite w.files ((files.takeWhile fun p =>
        (outcomeOf g settings w.files p).isOk).filterMap (rewriting? g settings w.files)) := by
  have whole : LeadApart w.files ([] ++ files) := apart
  obtain ⟨w', run, hlog', hfiles⟩ := runOn_mapM_recastFile g settings whole hlog rfl
  rw [recastFiles, runOn_bind, run]
  cases files.mapM (outcomeOf g settings w.files) with
  | error f => exact ⟨w', rfl, hfiles⟩
  | ok outcomes =>
    have quiet := World.quiet_note hlog' (recastCompleteEvent outcomes)
    exact ⟨w'.note (recastCompleteEvent outcomes), rfl, quiet.files.trans hfiles⟩

/-- **Recasting is independent and free of order.** If a run completes, the files that are
converted hold what has been made of their own texts, everything else is unchanged, and a run on the
same files in another order gives the same tree and the same outcomes. If it fails, it does so over
a file, and the tree is then what a run on the files before that one makes of it. -/
theorem recastFiles_independent (g : DependencyGraph) (settings : RecastSettings) {w : World}
    {files : List Path} (hlog : w.logFile = none) (apart : LeadApart w.files files) :
    match (recastFiles g settings files).runOn w with
    | (.ok outcomes, w') => RecastFrom g settings w.files files outcomes w'.files ∧
        ∀ files' : List Path, files'.Perm files → ∃ outcomes' w'',
          (recastFiles g settings files').runOn w = (.ok outcomes', w'') ∧
            outcomes'.Perm outcomes ∧ w''.files = w'.files
    | (.error f, w') => ∃ before p later outcomes, files = before ++ p :: later ∧
        RecastFrom g settings w.files before outcomes w'.files ∧ Fails g settings w.files p f := by
  obtain ⟨w', run, hfiles⟩ := runOn_recastFiles g settings apart hlog
  rw [run]
  cases judged : files.mapM (outcomeOf g settings w.files) with
  | error f =>
    obtain ⟨before, p, later, outcomes, rfl, done, failed⟩ := mapM_eq_error judged
    refine ⟨before, p, later, outcomes, rfl, ?_, fails_of_verdict (verdict_of_outcomeOf failed)⟩
    rw [takeWhile_isOk_append done _] at hfiles
    simp only [failed, List.takeWhile_cons] at hfiles
    rw [hfiles]
    have apart' : LeadApart w.files before := (List.pairwise_append.1 apart).1
    simpa [Except.isOk, Except.toBool] using recastFrom_of_mapM apart' done
  | ok outcomes =>
    rw [takeWhile_isOk_eq_self judged] at hfiles
    refine ⟨hfiles ▸ recastFrom_of_mapM apart judged, fun files' perm => ?_⟩
    obtain ⟨outcomes', judged', same⟩ := exists_mapM_perm perm judged
    obtain ⟨w'', run', hfiles'⟩ := runOn_recastFiles g settings (apart.perm perm) hlog
    refine ⟨outcomes', w'', judged' ▸ run', same, ?_⟩
    rw [hfiles', hfiles, takeWhile_isOk_eq_self judged']
    have hold := holdFiles_rewritings g settings w.files files
    exact rewrite_perm (perm.symm.filterMap _) hold apart.nodup_rewritings

/-- A definition, a file without exports, and a folder. -/
def definitionTree : FileStore where
  entries :=
    [(["a.js".toList], .file (.text "goog.define('a.X', 1);\n")),
     (["b.js".toList], .file (.text "var x = 1;\n")),
     (["d".toList], .folder)]
  here := []

def definitionPath : Path := ⟨.root, ["a.js".toList]⟩

def exportlessPath : Path := ⟨.root, ["b.js".toList]⟩

/-- The file of the definition, by way of the folder. -/
def roundaboutPath : Path := ⟨.root, ["d".toList, "..".toList, "a.js".toList]⟩

theorem recastFiles_independent_definition :
    LeadApart definitionTree [definitionPath, exportlessPath] ∧
      ∃ w', (recastFiles .empty {} [definitionPath, exportlessPath]).runOn (.start definitionTree) =
          (.ok [⟨definitionPath, .converted⟩,
            ⟨exportlessPath, .skipped "Could not infer exports for "⟩], w') ∧
        RecastFrom .empty {} definitionTree [definitionPath, exportlessPath]
          [⟨definitionPath, .converted⟩,
            ⟨exportlessPath, .skipped "Could not infer exports for "⟩] w'.files := by
  have apart : LeadApart definitionTree [definitionPath, exportlessPath] := by
    refine List.pairwise_pair.2 fun names first second => ?_
    have a : definitionTree.locate definitionPath = .ok ["a.js".toList] := by rfl
    have b : definitionTree.locate exportlessPath = .ok ["b.js".toList] := by rfl
    rw [← Except.ok.inj (a.symm.trans first)] at second
    have same := Except.ok.inj (b.symm.trans second)
    revert same
    decide
  have both := recastFiles_independent .empty {} (w := .start definitionTree) rfl apart
  have run : ((recastFiles .empty {} [definitionPath, exportlessPath]).runOn
      (.start definitionTree)).1 = .ok [⟨definitionPath, .converted⟩,
        ⟨exportlessPath, .skipped "Could not infer exports for "⟩] := by
    rfl
  rcases whole : (recastFiles .empty {} [definitionPath, exportlessPath]).runOn
    (.start definitionTree) with ⟨result, w'⟩
  rw [whole] at both run
  obtain rfl := run
  exact ⟨apart, w', rfl, both.1⟩

/-- Two paths of one file get in each other's way: the file that is recast first has no declarations
left when its other path comes up, so which of the two is converted depends on the order. -/
theorem recastFiles_depends_on_order :
    [definitionPath, roundaboutPath].Nodup ∧
      ((recastFiles .empty {} [definitionPath, roundaboutPath]).runOn
          (.start definitionTree)).1 = .ok [⟨definitionPath, .converted⟩,
        ⟨roundaboutPath, .skipped "Could not infer exports for "⟩] ∧
      ((recastFiles .empty {} [definitionPath, roundaboutPath]).runOn
          (.start definitionTree)).2.files.contentAt roundaboutPath =
        .ok (.text "const X = goog.define('a.X', 1);\n\nexport {X};\n") ∧
      ((recastFiles .empty {} [roundaboutPath, definitionPath]).runOn
          (.start definitionTree)).1 = .ok [⟨roundaboutPath, .converted⟩,
        ⟨definitionPath, .skipped "Could not infer exports for "⟩] := by
  refine ⟨by decide, ?_, ?_, ?_⟩ <;> rfl

end Session

end Modulize
