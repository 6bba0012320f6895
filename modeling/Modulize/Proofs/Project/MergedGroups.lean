import Modulize.Proofs.Files.Linkless
import Modulize.Proofs.Project.Merged

/-!
# Merging groups in any order

In a tree without links, putting a text in place of files has an effect on single places only
(`Placement.IsDone`): the target holds the text, what lies above it is folders, and the files are
gone. Groups whose places are different do not get in each other's way, so that the tree that a run
over groups comes to is known by what each of them makes of the tree at the beginning (`IsReached`),
in whatever order they come (`IsReached.entry?_congr`).
-/

namespace Modulize

namespace FileStore

variable {fs fs' fs₀ : FileStore} {target : Path} {q : List Text} {t : Text} {there : List Path}

/-- In a tree without links, files are where their names say. -/
theorem IsLinkless.placesOf_eq (linkless : fs.IsLinkless)
    (files : ∀ p ∈ there, fs.isFile p = true ∧ parentName ∉ fs.fullNames p) :
    fs.placesOf there = there.map fs.fullNames := by
  rw [placesOf, ← List.filterMap_eq_map]
  refine List.filterMap_congr fun p hp => ?_
  obtain ⟨isFile, plain⟩ := files p hp
  obtain ⟨q, located, -⟩ := exists_locateLink_of_isFile isFile
  obtain ⟨rfl, -⟩ := locateFrom_of_unlinked linkless.unlinked plain located
  rw [located]
  rfl

/-- A text in place of files: the place that it is written to, and those of the files. -/
structure Placement where
  target : List Text
  members : List (List Text)
  text : Text

/-- The text has been put in place of the files. -/
structure Placement.IsDone (g : Placement) (fs fs' : FileStore) : Prop where
  here : fs'.here = fs.here
  linkless : fs'.IsLinkless
  target : fs'.entry? g.target = some (.file (.text g.text))
  above : ∀ q, q <+: g.target → q ≠ g.target → fs'.entry? q = some .folder
  others : ∀ q, ¬ q <+: g.target →
    fs'.entry? q = if q ∈ g.members then none else fs.entry? q
  free : ∀ q, q <+: g.target → q ≠ g.target → ∀ c, fs.entry? q = some (.file c) → q ∈ g.members
  noFolder : fs.entry? g.target ≠ some .folder

/-- What follows from the places alone keeps the tree free of links. -/
theorem isLinkless_of_effect {g : Placement} (linkless : fs.IsLinkless)
    (plain : parentName ∉ g.target) (isFile : ∀ q ∈ g.members, ∃ c, fs.entry? q = some (.file c))
    (target : fs'.entry? g.target = some (.file (.text g.text)))
    (above : ∀ q, q <+: g.target → q ≠ g.target → fs'.entry? q = some .folder)
    (others : ∀ q, ¬ q <+: g.target →
      fs'.entry? q = if q ∈ g.members then none else fs.entry? q)
    (noFolder : fs.entry? g.target ≠ some .folder) : fs'.IsLinkless := by
  constructor
  · intro q found
    by_cases below : q <+: g.target
    · refine ⟨fun mem => plain (below.subset mem), fun way inside other => above way
        (inside.trans below) fun same => other ?_⟩
      exact inside.eq_of_length (Nat.le_antisymm inside.length_le (same ▸ below.length_le))
    · rw [others q below] at found
      split at found
      · cases found
      · obtain ⟨names, folders⟩ := linkless.down q found
        refine ⟨names, fun way inside other => ?_⟩
        have folder := folders way inside other
        rw [List.nil_append] at folder ⊢
        by_cases reach : way <+: g.target
        · exact above way reach fun same => noFolder (same ▸ folder)
        · rw [others way reach, if_neg, folder]
          intro mem
          obtain ⟨c, file⟩ := isFile way mem
          cases folder.symm.trans file
  · intro q link there
    by_cases below : q <+: g.target
    · by_cases same : q = g.target
      · rw [same, target] at there
        cases there
      · rw [above q below same] at there
        cases there
    · rw [others q below] at there
      split at there
      · cases there
      · exact linkless.unlinked q link there

/-- Files are gone, and there are folders on the way to a place that a text can be written to. -/
structure IsCleared (fs : FileStore) (members : List (List Text)) (place : List Text)
    (fs₂ : FileStore) : Prop where
  grows : (fs.without members).Grows fs₂
  above : ∀ q, q <+: place → q ≠ place → fs₂.entry? q = some .folder
  others : ∀ q, ¬ q <+: place → fs₂.entry? q = if q ∈ members then none else fs.entry? q
  free : fs₂.entry? place = none ∨ ∃ c, fs₂.entry? place = some (.file c)

variable {fs₂ : FileStore} {members : List (List Text)} {place : List Text}

/-- What a text in place of files comes to. -/
theorem exists_isCleared_of_replaced (linkless : fs.IsLinkless)
    (files : ∀ p ∈ there, fs.isFile p = true ∧ parentName ∉ fs.fullNames p)
    (plain : parentName ∉ fs.fullNames target) (h : fs.replaced there target t = .ok fs') :
    ∃ fs₂, IsCleared fs (there.map fs.fullNames) (fs.fullNames target) fs₂ ∧
      fs' = fs₂.put (fs.fullNames target) (.file (.text t)) := by
  rw [replaced, linkless.placesOf_eq files] at h
  generalize there.map fs.fullNames = members at h
  obtain ⟨fs₂, made, written⟩ := bind_eq_ok h
  have unlinked (q : List Text) (link : Path) :
      entry? (fs.without members) q ≠ some (.link link) := by
    rw [entry?_without]
    split
    · simp
    · exact linkless.unlinked q link
  have grows := grows_makeFolders made
  obtain ⟨place, located, free, rfl⟩ := write_eq_ok written
  have here : fs₂.fullNames target = fs.fullNames target := fullNames_congr grows.here target
  obtain ⟨rfl, down⟩ := locateFrom_of_unlinked (grows.unlinked unlinked) (here ▸ plain) located
  rw [here] at free down ⊢
  refine ⟨fs₂, ⟨grows, down.folders, fun q apart => ?_, free⟩, rfl⟩
  have way := fs.fullNames_parent_prefix target
  have some : q ≠ [] := fun none => apart (none ▸ List.nil_prefix)
  rw [entry?_makeFolders unlinked (fun mem => plain (way.subset mem)) made
    fun below => apart (below.trans way), entry?_without]
  simp [some]

/-- What has been cleared for a place was no folder there, and no file on the way to it. -/
theorem IsCleared.noFolder (cleared : IsCleared fs members place fs₂)
    (isFile : ∀ q ∈ members, ∃ c, fs.entry? q = some (.file c)) :
    fs.entry? place ≠ some .folder := by
  intro folder
  have stays : place ∉ members := by
    intro mem
    obtain ⟨c, file⟩ := isFile _ mem
    cases folder.symm.trans file
  have still : fs₂.entry? place = some .folder := by
    rcases cleared.grows.entry place with same | ⟨-, folder'⟩
    · exact same.trans ((entry?_without_of_not_mem stays).trans folder)
    · exact folder'
  rcases cleared.free with missing | ⟨c, file⟩
  · cases still.symm.trans missing
  · cases still.symm.trans file

theorem IsCleared.mem_of_file (cleared : IsCleared fs members place fs₂) {q : List Text}
    (below : q <+: place) (other : q ≠ place) {c : Content} (file : fs.entry? q = some (.file c)) :
    q ∈ members := by
  by_contra stays
  have kept : entry? (fs.without members) q = fs.entry? q := entry?_without_of_not_mem stays
  rcases cleared.grows.entry q with same | ⟨missing, -⟩
  · rw [kept, file, cleared.above q below other] at same
    cases same
  · rw [kept, file] at missing
    cases missing

/-- **Putting a text in place of files** has an effect on single places. -/
theorem isDone_of_replaced (linkless : fs.IsLinkless)
    (files : ∀ p ∈ there, fs.isFile p = true ∧ parentName ∉ fs.fullNames p)
    (plain : parentName ∉ fs.fullNames target) (h : fs.replaced there target t = .ok fs') :
    Placement.IsDone ⟨fs.fullNames target, there.map fs.fullNames, t⟩ fs fs' := by
  have isFile : ∀ q ∈ there.map fs.fullNames, ∃ c, fs.entry? q = some (.file c) := by
    intro q hq
    obtain ⟨p, hp, rfl⟩ := List.mem_map.1 hq
    exact (linkless.isFile_iff (files p hp).2).1 (files p hp).1
  obtain ⟨fs₂, cleared, rfl⟩ := exists_isCleared_of_replaced linkless files plain h
  have noFolder := cleared.noFolder isFile
  have some : fs.fullNames target ≠ [] := fun none => noFolder (by rw [none]; rfl)
  have elsewhere {q : List Text} (other : q ≠ fs.fullNames target) :
      entry? (fs₂.put (fs.fullNames target) (.file (.text t))) q = fs₂.entry? q :=
    entry?_put_of_ne other
  have holds : entry? (fs₂.put (fs.fullNames target) (.file (.text t))) (fs.fullNames target) =
      Option.some (.file (.text t)) := by
    rw [entry?_put, if_pos ⟨rfl, some⟩]
  have above : ∀ q, q <+: fs.fullNames target → q ≠ fs.fullNames target →
      entry? (fs₂.put (fs.fullNames target) (.file (.text t))) q = Option.some .folder :=
    fun q below other => (elsewhere other).trans (cleared.above q below other)
  have others : ∀ q, ¬ q <+: fs.fullNames target →
      entry? (fs₂.put (fs.fullNames target) (.file (.text t))) q =
        if q ∈ there.map fs.fullNames then none else fs.entry? q :=
    fun q apart => (elsewhere fun same => apart (same ▸ List.prefix_refl q)).trans
      (cleared.others q apart)
  exact ⟨cleared.grows.here, isLinkless_of_effect (g := ⟨_, _, _⟩) linkless plain isFile holds above
    others noFolder, holds, above, others,
    fun q below other _ file => cleared.mem_of_file below other file, noFolder⟩

/-! ## What a run comes to -/

/-- A tree that has been come to from `fs₀` by putting texts in place of files, all of them
different. In which order they have been put does not matter. -/
structure IsReached (fs₀ : FileStore) (done : List Placement) (fs : FileStore) : Prop where
  here : fs.here = fs₀.here
  linkless : fs.IsLinkless
  target : ∀ g ∈ done, fs.entry? g.target = some (.file (.text g.text))
  above : ∀ g ∈ done, ∀ q, q <+: g.target → q ≠ g.target → fs.entry? q = some .folder
  gone : ∀ g ∈ done, ∀ q ∈ g.members, (∀ h ∈ done, ¬ q <+: h.target) → fs.entry? q = none
  others : ∀ q, (∀ g ∈ done, ¬ q <+: g.target ∧ q ∉ g.members) → fs.entry? q = fs₀.entry? q
  free : ∀ g ∈ done, ∀ q, q <+: g.target → q ≠ g.target → ∀ c, fs₀.entry? q = some (.file c) →
    ∃ h ∈ done, q ∈ h.members

variable {before : List Placement} {g : Placement}

theorem isReached_nil (linkless : fs.IsLinkless) : IsReached fs [] fs :=
  ⟨rfl, linkless, nofun, nofun, nofun, fun _ _ => rfl, nofun⟩

/-- Where there was a file there is one still, unless it has been replaced. -/
theorem IsReached.exists_file (reached : IsReached fs₀ before fs) {c : Content}
    (file : fs₀.entry? q = some (.file c)) (stays : ∀ h ∈ before, q ∉ h.members) :
    ∃ c', fs.entry? q = some (.file c') := by
  by_cases far : ∀ h ∈ before, ¬ q <+: h.target
  · exact ⟨c, (reached.others q fun h hh => ⟨far h hh, stays h hh⟩).trans file⟩
  · push Not at far
    obtain ⟨h, hh, inside⟩ := far
    by_cases same : q = h.target
    · exact ⟨_, same ▸ reached.target h hh⟩
    · obtain ⟨k, hk, mem⟩ := reached.free h hh q inside same c file
      exact absurd mem (stays k hk)

/-- **One more text** in place of files, with other places than those before. -/
theorem IsReached.step (reached : IsReached fs₀ before fs) (isDone : g.IsDone fs fs')
    (isFile : ∀ q ∈ g.members, ∃ c, fs.entry? q = some (.file c))
    (apart : ∀ h ∈ before, h.target ≠ g.target ∧ h.target ∉ g.members) :
    IsReached fs₀ (before ++ [g]) fs' := by
  have all {P : Placement → Prop} :
      (∀ h ∈ before ++ [g], P h) ↔ (∀ h ∈ before, P h) ∧ P g := by
    simp [or_imp, forall_and]
  refine ⟨isDone.here.trans reached.here, isDone.linkless, all.2 ⟨fun h hh => ?_, isDone.target⟩,
    all.2 ⟨fun h hh q below other => ?_, isDone.above⟩, ?_, fun q far => ?_,
    all.2 ⟨fun h hh q below other c file => ?_, fun q below other c file => ?_⟩⟩
  · obtain ⟨different, stays⟩ := apart h hh
    have file := reached.target h hh
    have off : ¬ h.target <+: g.target := fun below =>
      stays (isDone.free _ below different _ file)
    rw [isDone.others _ off, if_neg stays, file]
  · have folder := reached.above h hh q below other
    by_cases inside : q <+: g.target
    · exact isDone.above q inside fun same => isDone.noFolder (same ▸ folder)
    · rw [isDone.others q inside, if_neg, folder]
      intro mem
      obtain ⟨c, file⟩ := isFile q mem
      cases folder.symm.trans file
  · intro h hh q mem off
    obtain ⟨off, far⟩ := all.1 off
    rw [isDone.others q far]
    split
    · rfl
    · rename_i stays
      rcases List.mem_append.1 hh with hh | hh
      · exact reached.gone h hh q mem off
      · obtain rfl := List.mem_singleton.1 hh
        exact absurd mem stays
  · obtain ⟨far, off, stays⟩ := all.1 far
    rw [isDone.others q off, if_neg stays, reached.others q far]
  · obtain ⟨k, hk, mem⟩ := reached.free h hh q below other c file
    exact ⟨k, List.mem_append_left _ hk, mem⟩
  · -- the file would still be there, and in the way of the folder
    by_contra none
    push Not at none
    obtain ⟨c', file'⟩ :=
      reached.exists_file file fun h hh => none h (List.mem_append_left _ hh)
    exact none g (by simp) (isDone.free q below other c' file')

/-- **The order does not matter.** -/
theorem IsReached.entry?_congr {done done' : List Placement} (reached : IsReached fs₀ done fs)
    (reached' : IsReached fs₀ done' fs') (same : ∀ g, g ∈ done' ↔ g ∈ done) (q : List Text) :
    fs'.entry? q = fs.entry? q := by
  by_cases way : ∃ g ∈ done, q <+: g.target
  · obtain ⟨g, hg, below⟩ := way
    by_cases last : q = g.target
    · rw [last, reached.target g hg, reached'.target g ((same g).2 hg)]
    · rw [reached.above g hg q below last, reached'.above g ((same g).2 hg) q below last]
  · push Not at way
    have way' : ∀ g ∈ done', ¬ q <+: g.target := fun g hg => way g ((same g).1 hg)
    by_cases member : ∃ g ∈ done, q ∈ g.members
    · obtain ⟨g, hg, mem⟩ := member
      rw [reached.gone g hg q mem way, reached'.gone g ((same g).2 hg) q mem way']
    · push Not at member
      rw [reached.others q fun g hg => ⟨way g hg, member g hg⟩,
        reached'.others q fun g hg => ⟨way' g hg, member g ((same g).1 hg)⟩]

/-- Files at other places than those of the texts are as they were. -/
theorem IsReached.isFile_eq (reached : IsReached fs₀ before fs) (linkless : fs₀.IsLinkless)
    {p : Path} (plain : parentName ∉ fs₀.fullNames p)
    (apart : ∀ h ∈ before, fs₀.fullNames p ≠ h.target ∧ fs₀.fullNames p ∉ h.members) :
    fs.isFile p = fs₀.isFile p ∧ (fs₀.isFile p = true → fs.sourceAt p = fs₀.sourceAt p) := by
  have here := fullNames_congr reached.here p
  have before? := reached.linkless.isFile_iff (here ▸ plain)
  have after? := linkless.isFile_iff plain
  rw [here] at before?
  by_cases way : ∃ h ∈ before, fs₀.fullNames p <+: h.target
  · -- a folder is there, and there has been no file
    obtain ⟨h, hh, below⟩ := way
    have folder := reached.above h hh _ below (apart h hh).1
    have never : ¬ fs₀.isFile p = true := by
      rw [after?]
      rintro ⟨c, file⟩
      obtain ⟨c', file'⟩ := reached.exists_file file fun k hk => (apart k hk).2
      cases folder.symm.trans file'
    have now : ¬ fs.isFile p = true := by
      rw [before?]
      rintro ⟨c, file⟩
      cases folder.symm.trans file
    exact ⟨(Bool.eq_false_iff.2 now).trans (Bool.eq_false_iff.2 never).symm,
      fun isFile => absurd isFile never⟩
  · push Not at way
    have same := reached.others _ fun h hh => ⟨way h hh, (apart h hh).2⟩
    rw [← same, ← before?] at after?
    refine ⟨Bool.eq_iff_iff.2 after?.symm, fun isFile => sourceAt_congr ?_⟩
    obtain ⟨names, c, located, file⟩ := exists_file_of_isFile isFile
    obtain ⟨rfl, -⟩ := locateFrom_of_unlinked linkless.unlinked plain located
    have down := reached.linkless.down (fs₀.fullNames p) (by rw [same, file]; rfl)
    have located' : fs.locate p = .ok (fs.fullNames p) :=
      locate_fullNames (here ▸ down) (reached.linkless.unlinked _)
    rw [contentAt_of_entry located file, contentAt_of_entry located' (by rw [here, same, file])]

end FileStore

namespace Session

open FileStore

/-- A group: its target and its members. -/
abbrev Group := Text × List Text

/-- The places of a target and members below a folder, as their names say. -/
def groupPlaces (fs : FileStore) (output : Path) (group : Group) : List (List Text) :=
  (group.1 :: group.2).map fun t => fs.fullNames (output.join (Path.parse t))

/-- Groups with different places, which are named without double dots. -/
structure AreApart (fs : FileStore) (output : Path) (groups : List Group) : Prop where
  plain : ∀ group ∈ groups, ∀ q ∈ groupPlaces fs output group, parentName ∉ q
  members : ∀ group ∈ groups, (groupPlaces fs output group).tail.Nodup
  groups : groups.Pairwise fun group other =>
    (groupPlaces fs output group).Disjoint (groupPlaces fs output other)

/-- The text that a group is merged into, and where it is put. -/
def placement? (root : Text) (output : Path) (fs : FileStore) (group : Group) : Option Placement :=
  let there := (memberPaths output group.2).filter fs.isFile
  if there = [] then none
  else match mergedText root there fs with
    | .ok t => some ⟨fs.fullNames (output.join (Path.parse group.1)), there.map fs.fullNames, t⟩
    | .error _ => none

variable {fs fs₀ : FileStore} {root : Text} {output : Path} {group other : Group}
  {groups before : List Group} {g : Placement} {w : World}

theorem mem_groupPlaces_of_placement? (h : placement? root output fs group = some g) :
    g.target ∈ groupPlaces fs output group ∧
      ∀ q ∈ g.members, q ∈ groupPlaces fs output group := by
  unfold placement? at h
  dsimp only at h
  split at h
  · cases h
  · split at h
    · obtain rfl := Option.some.inj h
      refine ⟨List.mem_map_of_mem List.mem_cons_self, fun q hq => ?_⟩
      obtain ⟨p, hp, rfl⟩ := List.mem_map.1 hq
      obtain ⟨m, hm, rfl⟩ := List.mem_map.1 (List.mem_filter.1 hp).1
      exact List.mem_map_of_mem (f := fun t => fs.fullNames (output.join (Path.parse t)))
        (List.mem_cons_of_mem _ hm)
    · cases h

theorem mem_groupPlaces_of_mem {p : Path} (hp : p ∈ memberPaths output group.2) :
    fs.fullNames p ∈ (groupPlaces fs output group).tail := by
  obtain ⟨m, hm, rfl⟩ := List.mem_map.1 hp
  exact List.mem_map_of_mem (f := fun t => fs.fullNames (output.join (Path.parse t))) hm

theorem mergedText_congr {fs' : FileStore} {there : List Path}
    (same : ∀ p ∈ there, fs'.sourceAt p = fs.sourceAt p) :
    mergedText root there fs' = mergedText root there fs := by
  have texts : there.mapM fs'.sourceAt = there.mapM fs.sourceAt := by
    induction there with
    | nil => rfl
    | cons p there ih =>
      rw [List.mapM_cons, List.mapM_cons, same p List.mem_cons_self,
        ih fun q hq => same q (List.mem_cons_of_mem _ hq)]
  rw [mergedText, mergedText, texts]

/-! ## Runs over groups -/

section Step

variable (reached : IsReached fs₀ (before.filterMap (placement? root output fs₀)) fs)
  (linkless : fs₀.IsLinkless) (plain : ∀ q ∈ groupPlaces fs₀ output group, parentName ∉ q)
  (apart : ∀ other ∈ before,
    (groupPlaces fs₀ output other).Disjoint (groupPlaces fs₀ output group))

include apart in
/-- Nothing at the places of a group is changed by groups with other places. -/
theorem untouched_of_disjoint {q : List Text} (hq : q ∈ groupPlaces fs₀ output group) :
    ∀ g ∈ before.filterMap (placement? root output fs₀), q ≠ g.target ∧ q ∉ g.members := by
  intro g hg
  obtain ⟨other, hother, found⟩ := List.mem_filterMap.1 hg
  obtain ⟨target, members⟩ := mem_groupPlaces_of_placement? found
  exact ⟨fun same => apart other hother (same ▸ target) hq,
    fun mem => apart other hother (members q mem) hq⟩

include reached linkless plain apart in
/-- The members of a group that are there, and their merged text, are those of the beginning. -/
theorem mergedText_of_reached :
    (memberPaths output group.2).filter fs.isFile =
        (memberPaths output group.2).filter fs₀.isFile ∧
      mergedText root ((memberPaths output group.2).filter fs₀.isFile) fs =
        mergedText root ((memberPaths output group.2).filter fs₀.isFile) fs₀ := by
  have same {p : Path} (hp : p ∈ memberPaths output group.2) :=
    have place : fs₀.fullNames p ∈ groupPlaces fs₀ output group :=
      List.mem_of_mem_tail (mem_groupPlaces_of_mem hp)
    reached.isFile_eq linkless (plain _ place) (untouched_of_disjoint apart place)
  refine ⟨List.filter_congr fun p hp => (same hp).1, mergedText_congr fun p hp => ?_⟩
  obtain ⟨hp, isFile⟩ := List.mem_filter.1 hp
  exact (same hp).2 isFile

include reached linkless plain apart in
/-- A group is merged from the texts that its members had at the beginning. -/
theorem isReached_mergeOutcome {outcome : Option (MergedGroup × FileStore)}
    (h : mergeOutcome root output group.1 group.2 fs = .ok outcome) :
    IsReached fs₀ ((before ++ [group]).filterMap (placement? root output fs₀))
      ((outcome.map Prod.snd).getD fs) := by
  obtain ⟨there, text⟩ := mergedText_of_reached reached linkless plain apart
  unfold mergeOutcome at h
  dsimp only at h
  rw [there] at h
  rw [List.filterMap_append]
  by_cases none : (memberPaths output group.2).filter fs₀.isFile = []
  · rw [if_pos none] at h
    obtain rfl := Except.ok.inj h
    have skipped : placement? root output fs₀ group = Option.none := by
      rw [placement?, if_pos none]
    simpa [skipped] using reached
  · rw [if_neg none, text] at h
    obtain ⟨t, merged, h⟩ := bind_eq_ok h
    obtain ⟨fs', placed, h⟩ := bind_eq_ok h
    obtain rfl := Except.ok.inj h
    have found : placement? root output fs₀ group =
        some ⟨fs₀.fullNames (output.join (Path.parse group.1)),
          ((memberPaths output group.2).filter fs₀.isFile).map fs₀.fullNames, t⟩ := by
      rw [placement?, if_neg none, merged]
    obtain ⟨target, members⟩ := mem_groupPlaces_of_placement? found
    have here : fs.fullNames = fs₀.fullNames := funext (fullNames_congr reached.here)
    have files : ∀ p ∈ (memberPaths output group.2).filter fs₀.isFile,
        fs.isFile p = true ∧ parentName ∉ fs.fullNames p := by
      intro p hp
      refine ⟨?_, here ▸ plain _ (members _ (List.mem_map_of_mem hp))⟩
      rw [← there] at hp
      exact (List.mem_filter.1 hp).2
    have isDone := isDone_of_replaced reached.linkless files (here ▸ plain _ target) placed
    rw [here] at isDone
    rw [List.filterMap_cons_some found, List.filterMap_nil]
    refine reached.step isDone (fun q hq => ?_) fun h hh => ?_
    · obtain ⟨p, hp, rfl⟩ := List.mem_map.1 hq
      obtain ⟨isFile, plainPath⟩ := files p hp
      exact here ▸ (reached.linkless.isFile_iff plainPath).1 isFile
    · obtain ⟨other, hother, found'⟩ := List.mem_filterMap.1 hh
      have far := (mem_groupPlaces_of_placement? found').1
      exact ⟨(untouched_of_disjoint apart target h hh).1.symm,
        fun mem => apart other hother far (members _ mem)⟩

end Step

/-- **A run over groups** that does not fail comes to a tree that each of them is merged in. -/
theorem isReached_mergeGroups {results : List MergedGroup} {w' : World} (linkless : fs₀.IsLinkless)
    (apart : AreApart fs₀ output (before ++ groups))
    (reached : IsReached fs₀ (before.filterMap (placement? root output fs₀)) w.files)
    (hlog : w.logFile = none)
    (run : (mergeGroups root output groups).runOn w = (.ok results, w')) :
    IsReached fs₀ ((before ++ groups).filterMap (placement? root output fs₀)) w'.files := by
  -- the groups that are done move on, so that all of them are merged in the tree of `w`
  induction groups generalizing before w results with
  | nil =>
    obtain ⟨-, rfl⟩ := Prod.mk.inj run
    rwa [List.append_nil]
  | cons group rest ih =>
    have here : w.files.fullNames = fs₀.fullNames := funext (fullNames_congr reached.here)
    have mem : group ∈ before ++ group :: rest := by simp
    have plain := apart.plain group mem
    have files : ∀ p ∈ (memberPaths output group.2).filter w.files.isFile,
        w.files.isFile p = true ∧ parentName ∉ w.files.fullNames p := by
      intro p hp
      obtain ⟨hp, isFile⟩ := List.mem_filter.1 hp
      exact ⟨isFile, here ▸ plain _ (List.mem_of_mem_tail (mem_groupPlaces_of_mem hp))⟩
    have nodup : (w.files.placesOf
        ((memberPaths output group.2).filter w.files.isFile)).Nodup := by
      rw [reached.linkless.placesOf_eq files, here]
      have whole : (memberPaths output group.2).map fs₀.fullNames =
          (groupPlaces fs₀ output group).tail := by
        simp [memberPaths, groupPlaces]
      exact (whole ▸ apart.members group mem).sublist (List.filter_sublist.map _)
    obtain ⟨w₁, run₁, hlog₁, files₁⟩ :=
      runOn_mergeGroup root output group.1 group.2 nodup hlog
    rw [mergeGroups, runOn_bind, run₁] at run
    cases outcome : mergeOutcome root output group.1 group.2 w.files with
    | error f =>
      rw [outcome] at run
      cases (Prod.mk.inj run).1
    | ok merged =>
      rw [outcome] at run files₁
      have step := isReached_mergeOutcome reached linkless plain (fun other hother =>
        (List.pairwise_append.1 apart.groups).2.2 other hother group List.mem_cons_self) outcome
      have files' : w₁.files = (merged.map Prod.snd).getD w.files := by
        rcases merged with _ | ⟨m, fs'⟩ <;> exact files₁
      rw [← files'] at step
      dsimp only [Except.map] at run
      rw [runOn_bind] at run
      cases others : (mergeGroups root output rest).runOn w₁ with
      | mk result w₂ =>
        rw [others] at run
        cases result with
        | error f => cases (Prod.mk.inj run).1
        | ok results₂ =>
          obtain ⟨-, rfl⟩ := Prod.mk.inj run
          rw [List.append_cons] at apart ⊢
          exact ih apart step hlog₁ others

theorem AreApart.perm {groups' : List Group} (apart : AreApart fs output groups)
    (perm : groups'.Perm groups) : AreApart fs output groups' where
  plain group hgroup := apart.plain group (perm.mem_iff.1 hgroup)
  members group hgroup := apart.members group (perm.mem_iff.1 hgroup)
  groups := perm.symm.pairwise apart.groups fun disjoint _ here there => disjoint there here

/-- Groups with different places come to the same tree in whatever order they are merged. -/
theorem entry?_mergeGroups_perm {groups' : List Group} {results results' : List MergedGroup}
    {w₁ w₂ : World} (linkless : w.files.IsLinkless) (apart : AreApart w.files output groups)
    (perm : groups'.Perm groups) (hlog : w.logFile = none)
    (run : (mergeGroups root output groups).runOn w = (.ok results, w₁))
    (run' : (mergeGroups root output groups').runOn w = (.ok results', w₂)) (q : List Text) :
    w₂.files.entry? q = w₁.files.entry? q := by
  have start : IsReached w.files ([].filterMap (placement? root output w.files)) w.files :=
    isReached_nil linkless
  have reached : IsReached w.files (([] ++ groups).filterMap (placement? root output w.files))
      w₁.files := isReached_mergeGroups linkless apart start hlog run
  have reached' : IsReached w.files (([] ++ groups').filterMap (placement? root output w.files))
      w₂.files := isReached_mergeGroups linkless (apart.perm perm) start hlog run'
  rw [List.nil_append] at reached reached'
  exact reached.entry?_congr reached' (fun g => (perm.filterMap _).mem_iff) q

/-- **Merging a group is all or nothing.** If its members cannot be read as texts or the texts
cannot be merged, or if none of them is there, the tree stays as it is. Otherwise the members give
way to their merged text, unless the tree of files refuses to make the folder of the target or to
write it: then they are gone, and nothing else has changed.

Groups with different places are merged in any order: if two runs do not fail, they come to the same
tree. -/
theorem mergeGroup_all_or_nothing (root : Text) (output : Path) (group : Text)
    (members : List Text) (hlog : w.logFile = none)
    (distinct : (w.files.placesOf ((memberPaths output members).filter w.files.isFile)).Nodup) :
    let there := (memberPaths output members).filter w.files.isFile
    let target := output.join (Path.parse group)
    (∀ f w', (mergeGroup root output group members).runOn w = (.error f, w') →
        f.isConversion = true ∨ f = .undecodable → w'.files = w.files) ∧
      (there = [] → ∃ w', (mergeGroup root output group members).runOn w = (.ok none, w') ∧
        w'.files = w.files) ∧
      (∀ t, there ≠ [] → mergedText root there w.files = .ok t →
        match w.files.replaced there target t with
        | .ok _ => ∃ w', (mergeGroup root output group members).runOn w =
            (.ok (some ⟨target, there, (memberPaths output members).filter
              (! w.files.isFile ·)⟩), w') ∧ IsMergedInto w.files there target t w'.files
        | .error f => ∃ w', (mergeGroup root output group members).runOn w = (.error f, w') ∧
            IsRefusal f ∧ (w.files.without (w.files.placesOf there)).Grows w'.files) ∧
      ∀ (groups groups' : List Group) results results' w₁ w₂, w.files.IsLinkless →
        AreApart w.files output groups → groups'.Perm groups →
        (mergeGroups root output groups).runOn w = (.ok results, w₁) →
        (mergeGroups root output groups').runOn w = (.ok results', w₂) →
        ∀ q, w₂.files.entry? q = w₁.files.entry? q := by
  intro there target
  obtain ⟨w₀, run, -, files⟩ := runOn_mergeGroup root output group members distinct hlog
  refine ⟨fun f w' run' kind => ?_, fun none => ?_, fun t some merged => ?_,
    fun _ _ _ _ _ _ linkless apart perm run run' =>
      entry?_mergeGroups_perm linkless apart perm hlog run run'⟩
  · obtain ⟨failed, rfl⟩ := Prod.mk.inj (run.symm.trans run')
    cases outcome : mergeOutcome root output group members w.files with
    | ok merged =>
      rw [outcome] at failed
      cases failed
    | error f' =>
      rw [outcome] at failed files
      obtain rfl : f' = f := Except.error.inj failed
      rcases files with ⟨-, unchanged⟩ | ⟨refused, -⟩
      · exact unchanged
      · exact absurd refused (not_isRefusal kind)
  · have outcome : mergeOutcome root output group members w.files = .ok Option.none := if_pos none
    rw [outcome] at run files
    exact ⟨w₀, run, files⟩
  · have outcome := mergeOutcome_of_merged group some merged
    cases placed : w.files.replaced there target t with
    | error f =>
      rw [placed] at outcome
      rw [outcome] at run files
      refine ⟨w₀, run, ?_⟩
      rcases files with ⟨kind, -⟩ | refused
      · exact absurd (isRefusal_of_replaced placed) (not_isRefusal kind)
      · exact refused
    | ok fs' =>
      rw [placed] at outcome
      rw [outcome] at run files
      obtain rfl : w₀.files = fs' := files
      exact ⟨w₀, run, isMergedInto_of_replaced placed⟩

/-- Two files that need each other, and another one. -/
def cycleTree : FileStore where
  entries :=
    [(["out".toList], .folder),
     (["out".toList, "a.js".toList], .file (.text "goog.provide('a');\ngoog.require('b');\n")),
     (["out".toList, "b.js".toList], .file (.text "goog.provide('b');\n")),
     (["out".toList, "c.js".toList], .file (.text "c\n"))]
  here := []

def cyclePath : Path := ⟨.root, ["out".toList]⟩

def cycleGroup : Group := ("n/ab.js", ["a.js".toList, "gone.js".toList, "b.js".toList])

def singleGroup : Group := ("c.js", ["c.js".toList])

def cycleFiles : List Path := ["a.js", "b.js"].map fun n => ⟨.root, ["out".toList, n.toList]⟩

def cycleText : Text := "goog.provide('a');\n\n\ngoog.provide('b');\n"

theorem isLinkless_cycleTree : cycleTree.IsLinkless :=
  (IsTree.of_take (by decide) (by decide) (by decide)).isLinkless (by simp [cycleTree])

theorem areApart_cycleTree : AreApart cycleTree cyclePath [cycleGroup, singleGroup] where
  plain := by decide +kernel
  members := by decide +kernel
  groups := by
    have disjoint : (groupPlaces cycleTree cyclePath cycleGroup).Disjoint
        (groupPlaces cycleTree cyclePath singleGroup) := by
      unfold List.Disjoint
      decide +kernel
    simpa using disjoint

/-- The two files give way to their text, and another group does not get in the way. -/
theorem mergeGroup_all_or_nothing_cycle :
    (cycleTree.placesOf cycleFiles).Nodup ∧ mergedText "goog" cycleFiles cycleTree = .ok cycleText ∧
      (∃ merged w', (mergeGroup "goog" cyclePath cycleGroup.1 cycleGroup.2).runOn
          (.start cycleTree) = (.ok (some merged), w') ∧
        merged.merged = cycleFiles ∧ IsMergedInto cycleTree cycleFiles
          (cyclePath.join (Path.parse cycleGroup.1)) cycleText w'.files) ∧
      cycleTree.IsLinkless ∧ AreApart cycleTree cyclePath [cycleGroup, singleGroup] ∧
      ∃ results results' w₁ w₂,
        (mergeGroups "goog" cyclePath [cycleGroup, singleGroup]).runOn (.start cycleTree) =
          (.ok results, w₁) ∧
        (mergeGroups "goog" cyclePath [singleGroup, cycleGroup]).runOn (.start cycleTree) =
          (.ok results', w₂) ∧
        ∀ q, w₂.files.entry? q = w₁.files.entry? q := by
  have there : (memberPaths cyclePath cycleGroup.2).filter (World.start cycleTree).files.isFile =
      cycleFiles := by decide +kernel
  have distinct : (cycleTree.placesOf cycleFiles).Nodup := by decide +kernel
  have text : mergedText "goog" cycleFiles cycleTree = .ok cycleText := by decide +kernel
  obtain ⟨fs', placed⟩ := exists_eq_ok (x := cycleTree.replaced cycleFiles
    (cyclePath.join (Path.parse cycleGroup.1)) cycleText) (by decide +kernel)
  obtain ⟨results, run⟩ := exists_eq_ok (x := ((mergeGroups "goog" cyclePath
    [cycleGroup, singleGroup]).runOn (.start cycleTree)).1) (by decide +kernel)
  obtain ⟨results', run'⟩ := exists_eq_ok (x := ((mergeGroups "goog" cyclePath
    [singleGroup, cycleGroup]).runOn (.start cycleTree)).1) (by decide +kernel)
  obtain ⟨-, -, replaces, agree⟩ := mergeGroup_all_or_nothing (w := .start cycleTree) "goog"
    cyclePath cycleGroup.1 cycleGroup.2 rfl (there.symm ▸ distinct)
  have merges := replaces cycleText (there.symm ▸ by decide) (there.symm ▸ text)
  rw [there, show (World.start cycleTree).files.replaced _ _ _ = _ from placed] at merges
  obtain ⟨w', merged, into⟩ := merges
  exact ⟨distinct, text, ⟨_, w', merged, rfl, into⟩, isLinkless_cycleTree, areApart_cycleTree,
    results, results', _, _, Prod.ext run rfl, Prod.ext run' rfl,
    agree _ _ results results' _ _ isLinkless_cycleTree areApart_cycleTree (.swap ..)
      (Prod.ext run rfl) (Prod.ext run' rfl)⟩

/-- A folder and files beside it. -/
def plainTree : FileStore where
  entries := [(["d".toList], .folder), (["a.js".toList], .file (.text "a\n")),
    (["b.js".toList], .file (.text "b\n")), (["c.js".toList], .file (.text "c\n"))]
  here := []

/-- A link that leads somewhere only when there is a folder `n`. -/
def linkedTree : FileStore where
  entries := (["l".toList], .link ⟨.here, ["n".toList, parentName]⟩) :: plainTree.entries
  here := []

def newGroup : Group := ("n/x.js", ["a.js".toList])

def dottedGroup : Group := ("y.js", ["n/../b.js".toList, "c.js".toList])

def linkedGroup : Group := ("y.js", ["l/b.js".toList, "c.js".toList])

/-- A file that is merged into the place of a folder is lost. Groups with different places come to
different trees if one of them makes a folder that another one goes through, by double dots or by a
link. -/
theorem mergeGroup_loses_members :
    (mergedText "goog" [⟨.root, ["a.js".toList]⟩] plainTree = .ok "a\n" ∧
        ((mergeGroup "goog" .top "d" ["a.js".toList]).runOn (.start plainTree)).1 =
          .error (.refused .isDirectory ⟨.root, ["d".toList]⟩) ∧
        ((mergeGroup "goog" .top "d" ["a.js".toList]).runOn (.start plainTree)).2.files.entry?
          ["a.js".toList] = none) ∧
      ∀ x ∈ [(plainTree, dottedGroup), (linkedTree, linkedGroup)],
        ([newGroup, x.2].flatMap (groupPlaces x.1 .top)).Nodup ∧
        ((mergeGroups "goog" .top [newGroup, x.2]).runOn (.start x.1)).1.isOk = true ∧
        ((mergeGroups "goog" .top [x.2, newGroup]).runOn (.start x.1)).1.isOk = true ∧
        ((mergeGroups "goog" .top [newGroup, x.2]).runOn (.start x.1)).2.files.entry?
          ["b.js".toList] = none ∧
        ((mergeGroups "goog" .top [x.2, newGroup]).runOn (.start x.1)).2.files.entry?
          ["b.js".toList] = some (.file (.text "b\n")) := by
  decide +kernel

end Session

end Modulize
