import Modulize.Files.Glob
import Modulize.Files.Traversal
import Modulize.Proofs.Files.Store

/-!
# Trees without links

In a tree without links (`Plain`) a path leads where its names say, with double dots folded away
(`locate_eq`), and a path that starts at the root is already resolved when no double dots are left
in it (`realPath_eq`).

What is found below a folder has a path below it, without double dots (`IsBelow`): the entries of
the folder (`ne_parentName_of_mem_list`), everything below it (`isBelow_of_mem_below`), what a
search leads to (`isBelow_of_mem_glob`), and its source files (`isBelow_of_mem_sources`).
-/

namespace Modulize

open FileStore (parentName)

/-! ## Folding double dots away -/

namespace Path

variable {done names : List Text}

/-- A double dot takes the name before it away; at the root it leads nowhere. -/
theorem foldNames_parent (h : parentName ∉ done) (names : List Text) :
    foldNames true done (parentName :: names) = foldNames true done.tail names := by
  cases done with
  | nil => rfl
  | cons d done =>
    have other : d ≠ ['.', '.'] := fun same => h (same ▸ List.mem_cons_self)
    simp [foldNames, parentName, other]

theorem foldNames_cons {n : Text} (h : n ≠ parentName) (done names : List Text) :
    foldNames true done (n :: names) = foldNames true (n :: done) names := by
  rw [foldNames.eq_def]
  exact if_neg h

theorem not_mem_foldNames (h : parentName ∉ done) : parentName ∉ foldNames true done names := by
  induction names generalizing done with
  | nil => simpa [foldNames] using h
  | cons n names ih =>
    by_cases up : n = parentName
    · rw [up, foldNames_parent h]
      exact ih fun mem => h (List.mem_of_mem_tail mem)
    · rw [foldNames_cons up]
      exact ih (by simp [h, Ne.symm up])

theorem foldNames_of_not_mem (h : parentName ∉ names) (done : List Text) :
    foldNames true done names = done.reverse ++ names := by
  induction names generalizing done with
  | nil => simp [foldNames]
  | cons n names ih =>
    rw [List.mem_cons, not_or] at h
    rw [foldNames_cons (Ne.symm h.1), ih h.2, List.reverse_cons, List.append_assoc]
    rfl

/-- A path from the root without double dots. -/
structure IsResolved (p : Path) : Prop where
  anchor : p.anchor = .root
  names : parentName ∉ p.names

/-- A path below a folder (or the folder itself), without double dots. -/
def IsBelow (base p : Path) : Prop := ∃ rel, parentName ∉ rel ∧ p = ⟨base.anchor, base.names ++ rel⟩

/-- A path from the root that leads to a place below a folder, or to the folder itself, when its
double dots are folded away. -/
structure LeadsBelow (base p : Path) : Prop where
  absolute : p.isAbsolute = true
  names : base.names <+: p.normalize.names

variable {base p q : Path} {n : Text}

theorem IsBelow.refl (p : Path) : IsBelow p p := ⟨[], List.not_mem_nil, by rw [List.append_nil]⟩

theorem IsBelow.child (h : IsBelow base p) (hn : n ≠ parentName) : IsBelow base (p.child n) := by
  obtain ⟨rel, plain, rfl⟩ := h
  exact ⟨rel ++ [n], by simp [plain, Ne.symm hn], by rw [Path.child, List.append_assoc]⟩

theorem IsBelow.trans (h : IsBelow base p) (h' : IsBelow p q) : IsBelow base q := by
  obtain ⟨rel, plain, rfl⟩ := h
  obtain ⟨rel', plain', rfl⟩ := h'
  exact ⟨rel ++ rel', by simp [plain, plain'], by rw [List.append_assoc]⟩

theorem IsBelow.isResolved (h : IsBelow base p) (resolved : base.IsResolved) : p.IsResolved := by
  obtain ⟨rel, plain, rfl⟩ := h
  exact ⟨resolved.anchor, by simp [resolved.names, plain]⟩

theorem IsResolved.isAbsolute (h : p.IsResolved) : p.isAbsolute = true := by
  simp [Path.isAbsolute, h.anchor]

theorem IsResolved.normalize (h : p.IsResolved) : p.normalize = p := by
  rw [Path.normalize, h.isAbsolute, foldNames_of_not_mem h.names]
  rfl

theorem IsBelow.leadsBelow (h : IsBelow base p) (resolved : base.IsResolved) :
    LeadsBelow base p := by
  have resolved' := h.isResolved resolved
  refine ⟨resolved'.isAbsolute, ?_⟩
  rw [resolved'.normalize]
  obtain ⟨rel, -, rfl⟩ := h
  exact List.prefix_append ..

theorem name_ne_parentName (h : parentName ∉ p.names) : p.name ≠ parentName := by
  unfold Path.name
  cases last : p.names.getLast? with
  | none => decide
  | some n =>
    rintro rfl
    exact h (List.mem_of_getLast? last)

/-- A file that is moved from one folder to another comes to lie below that. -/
theorem isBelow_join_of_relativeTo? {source relative : Path}
    (found : p.relativeTo? source = some relative) (h : parentName ∉ p.names) :
    IsBelow base (base.join relative) := by
  unfold relativeTo? at found
  split at found
  · obtain rfl := Option.some.inj found
    exact ⟨_, fun mem => h (List.mem_of_mem_drop mem), rfl⟩
  · cases found

end Path

/-! ## Where paths lead -/

namespace FileStore

open Modulize.Path (foldNames foldNames_parent foldNames_cons foldNames_of_not_mem not_mem_foldNames
  IsResolved IsBelow)

/-- A tree without links, in which no name is that of the folder above. -/
structure Plain (fs : FileStore) : Prop where
  names : ∀ x ∈ fs.entries, parentName ∉ x.1
  links : ∀ x ∈ fs.entries, ∀ target, x.2 ≠ .link target

variable {fs : FileStore} {done rest names : List Text} {p q base : Path}

theorem Plain.entry?_ne_link (plain : fs.Plain) (names : List Text) (target : Path) :
    fs.entry? names ≠ some (.link target) := by
  intro h
  by_cases root : names = []
  · rw [root, entry?_nil] at h
    cases h
  · rw [entry?_of_ne_nil root] at h
    exact plain.links _ (mem_of_lookup? h) target rfl

/-- Names are followed without jumps, and double dots fold away. -/
theorem Plain.advance (plain : fs.Plain) (throughLast : Bool) (h : parentName ∉ done)
    (rest : List Text) :
    (∃ problem, fs.advance throughLast done rest = .blocked problem) ∨
      fs.advance throughLast done rest = .arrived (foldNames true done.reverse rest) := by
  induction rest generalizing done with
  | nil => exact Or.inr (by simp [FileStore.advance, foldNames])
  | cons n rest ih =>
    have h' : parentName ∉ done.reverse := by simpa using h
    unfold FileStore.advance
    by_cases up : n = parentName
    · rw [if_pos up, up, foldNames_parent h', List.tail_reverse]
      exact ih fun mem => h (List.dropLast_subset _ mem)
    · have step : parentName ∉ done ++ [n] := by simp [h, Ne.symm up]
      have on := ih step
      rw [List.reverse_append, List.reverse_singleton, List.singleton_append] at on
      have last (e : rest = []) : foldNames true (n :: done.reverse) rest = done ++ [n] := by
        simp [e, foldNames]
      rw [if_neg up, foldNames_cons up]
      split
      · by_cases e : rest = []
        · exact Or.inr (by rw [if_pos e, last e])
        · exact Or.inl ⟨.missing, if_neg e⟩
      · exact on
      · by_cases e : rest = []
        · exact Or.inr (by rw [if_pos e, last e])
        · exact Or.inl ⟨.notDirectory, if_neg e⟩
      · rename_i found
        exact absurd found (plain.entry?_ne_link _ _)

theorem Plain.eq_of_locateFrom (plain : fs.Plain) {throughLast : Bool} {links : Nat}
    (h : fs.locateFrom throughLast links [] rest = .ok names) : names = foldNames true [] rest := by
  unfold locateFrom at h
  rcases plain.advance throughLast List.not_mem_nil rest with ⟨problem, blocked⟩ | arrived
  · rw [blocked] at h
    cases h
  · rw [arrived] at h
    exact (Except.ok.inj h).symm

theorem Plain.locate_eq (plain : fs.Plain) (absolute : p.isAbsolute = true)
    (h : fs.locate p = .ok names) : names = p.normalize.names := by
  rw [locate, fullNames, if_pos absolute] at h
  rw [Path.normalize, absolute]
  exact plain.eq_of_locateFrom h

theorem Plain.locateLink_eq (plain : fs.Plain) (absolute : p.isAbsolute = true)
    (h : fs.locateLink p = .ok names) : names = p.normalize.names := by
  rw [locateLink, fullNames, if_pos absolute] at h
  rw [Path.normalize, absolute]
  exact plain.eq_of_locateFrom h

theorem Plain.isLink (plain : fs.Plain) (p : Path) : fs.isLink p = false := by
  unfold FileStore.isLink
  repeat' split
  · rename_i found
    exact absurd found (plain.entry?_ne_link _ _)
  all_goals rfl

theorem isResolved_of_resolve (h : fs.resolve p = .ok q) : q.IsResolved := by
  have same : fs.realPath p = q := by
    rw [resolve] at h
    split at h
    · cases h
    · exact Except.ok.inj h
  subst same
  exact ⟨rfl, not_mem_foldNames List.not_mem_nil⟩

theorem Errand.names_map_enter (names : List Text) : Errand.names (names.map .enter) = names := by
  rw [Errand.names, List.filterMap_map]
  exact List.filterMap_some

theorem Plain.replaceLinks (plain : fs.Plain) (fuel : Nat) (seen : List (Path × Option Path))
    (start : Path) (h : parentName ∉ rest) :
    fs.replaceLinks fuel seen start (rest.map .enter) = ⟨start.anchor, start.names ++ rest⟩ := by
  induction rest generalizing fuel start with
  | nil => cases fuel <;> simp [FileStore.replaceLinks, Errand.names]
  | cons n rest ih =>
    rw [List.mem_cons, not_or] at h
    cases fuel with
    | zero => rw [FileStore.replaceLinks, Errand.names_map_enter]
    | succ fuel =>
      rw [List.map_cons, FileStore.replaceLinks, if_neg (Ne.symm h.1)]
      dsimp only
      have further := ih fuel (start.child n) h.2
      rw [Path.child, List.append_assoc, List.singleton_append] at further
      split
      all_goals first
        | exact further
        | rename_i found _
          exact absurd found (plain.entry?_ne_link _ _)

/-- A path from the root without double dots is what it resolves to. -/
theorem Plain.realPath_eq (plain : fs.Plain) (h : p.IsResolved) : fs.realPath p = p := by
  rw [realPath, if_pos h.isAbsolute]
  simp only [plain.replaceLinks _ _ _ h.names]
  exact IsResolved.normalize (p := ⟨.root, p.names⟩) ⟨rfl, h.names⟩ |>.trans
    (by rw [← h.anchor])

/-! ## What is found below a folder -/

theorem Plain.ne_parentName_of_mem_list (plain : fs.Plain) {n : Text} (h : n ∈ fs.list p) :
    n ≠ parentName := by
  unfold list at h
  split at h
  · rw [namesIn, sortTexts, mem_sortBy, List.mem_filterMap] at h
    obtain ⟨⟨full, e⟩, hx, found⟩ := h
    dsimp only at found
    split at found
    · rintro rfl
      exact plain.names _ hx (List.mem_of_getLast? found)
    · cases found
  · cases h

theorem Plain.isBelow_of_mem_below (plain : fs.Plain) (h : q ∈ fs.below p) : IsBelow p q := by
  unfold below at h
  split at h
  · split at h
    · rw [Path.sort, mem_sortBy, List.mem_filterMap] at h
      obtain ⟨⟨full, e⟩, hx, found⟩ := h
      dsimp only at found
      split at found
      · obtain rfl := Option.some.inj found
        exact ⟨_, fun mem => plain.names _ hx (List.mem_of_mem_drop mem), rfl⟩
      · cases found
    · cases h
  · cases h

theorem Plain.isBelow_of_mem_glob (plain : fs.Plain) {steps : List Glob.Step}
    (down : ∀ n, .named n ∈ steps → n ≠ parentName) (h : q ∈ fs.glob steps p) : IsBelow p q := by
  induction steps generalizing p with
  | nil =>
    obtain rfl := List.mem_singleton.1 h
    exact .refl q
  | cons step steps ih =>
    have down' : ∀ n, .named n ∈ steps → n ≠ parentName := fun n hn =>
      down n (List.mem_cons_of_mem _ hn)
    cases step with
    | stay =>
      obtain rfl := List.mem_singleton.1 h
      exact .refl q
    | folders =>
      obtain ⟨folder, hfolder, h⟩ := List.mem_flatMap.1 h
      refine .trans ?_ (ih down' h)
      rcases List.mem_cons.1 hfolder with rfl | hfolder
      · exact .refl folder
      · exact plain.isBelow_of_mem_below (List.mem_filter.1 hfolder).1
    | fitting pattern =>
      obtain ⟨c, hc, h⟩ := List.mem_flatMap.1 h
      obtain ⟨n, hn, rfl⟩ := List.mem_map.1 (List.mem_filter.1 hc).1
      have listed := plain.ne_parentName_of_mem_list (List.mem_filter.1 hn).1
      exact .trans (.child (.refl p) listed) (ih down' h)
    | named n =>
      simp only [glob] at h
      split at h
      · exact .trans (.child (.refl p) (down n List.mem_cons_self)) (ih down' h)
      · cases h

theorem Plain.isBelow_of_globBelow (plain : fs.Plain) {pattern : Text} {steps : List Glob.Step}
    {found : List Path} (read : Glob.read pattern = .ok steps)
    (down : ∀ n, .named n ∈ steps → n ≠ parentName) (h : fs.globBelow pattern p = .ok found)
    (hq : q ∈ found) : IsBelow p q := by
  rw [globBelow, read] at h
  obtain rfl := Except.ok.inj h
  split at hq
  · rw [Path.sort, mem_sortBy, mem_dedup] at hq
    refine plain.isBelow_of_mem_glob (fun n hn => down n ?_) hq
    exact (List.mem_cons.1 hn).resolve_left (by simp)
  · cases hq

/-! ## What a walk finds -/

theorem mem_paths_followedBy {first next : Found} (h : names ∈ (first.followedBy next).paths) :
    names ∈ first.paths ∨ names ∈ next.paths := by
  unfold Found.followedBy at h
  split at h
  · exact Or.inl h
  · exact List.mem_append.1 h

section Walk

variable (rule : WalkRule) {lists : List (List IgnoreRule)} {path : List Text}

theorem eq_of_mem_walk_file (h : names ∈ (FolderTree.file.walk rule lists path).paths) :
    names = path := by
  rw [FolderTree.walk] at h
  split at h
  · cases h
  · exact List.mem_singleton.1 h

/-- The walk through entries finds names of entries only, if the walks below these do. -/
theorem not_mem_walkEntries {entries : List (Text × FolderTree)} (hpath : parentName ∉ path)
    (each : ∀ x ∈ entries, x.1 ≠ parentName ∧ ∀ path, parentName ∉ path →
      ∀ names ∈ (x.2.walk rule lists path).paths, parentName ∉ names)
    (h : names ∈ (FolderTree.walkEntries rule lists path entries).paths) : parentName ∉ names := by
  induction entries with
  | nil => cases h
  | cons x entries ih =>
    obtain ⟨other, inner⟩ := each x List.mem_cons_self
    rw [FolderTree.walkEntries] at h
    rcases mem_paths_followedBy h with h | h
    · exact inner _ (by simp [hpath, Ne.symm other]) names h
    · exact ih (fun y hy => each y (List.mem_cons_of_mem _ hy)) h

theorem Plain.viewTo_eq (plain : fs.Plain) (followsLinks : Bool) (depth : Nat) (p : Path) :
    fs.viewTo followsLinks depth p =
      if fs.isFolder p then
        match depth with
        | 0 => .nothing
        | depth + 1 => .folder (fs.ignoreTextAt p)
            ((fs.list p).map fun n => (n, fs.viewTo followsLinks depth (p.child n)))
      else if fs.isFile p then .file
      else .nothing := by
  rw [viewTo.eq_def]
  simp only [plain.isLink]
  rfl

/-- By induction on the depth of the view. -/
theorem Plain.not_mem_walk_viewTo (plain : fs.Plain) (followsLinks : Bool) (depth : Nat)
    (hpath : parentName ∉ path)
    (h : names ∈ ((fs.viewTo followsLinks depth p).walk rule lists path).paths) :
    parentName ∉ names := by
  induction depth generalizing p path lists names with
  | zero =>
    rw [plain.viewTo_eq] at h
    split at h
    · cases h
    · split at h
      · exact eq_of_mem_walk_file rule h ▸ hpath
      · cases h
  | succ depth ih =>
    rw [plain.viewTo_eq] at h
    split at h
    · rw [FolderTree.walk] at h
      split at h
      · cases h
      · split at h
        · cases h
        · refine not_mem_walkEntries rule hpath (fun x hx => ?_) h
          obtain ⟨n, hn, rfl⟩ := List.mem_map.1 hx
          exact ⟨plain.ne_parentName_of_mem_list hn, fun _ hpath _ found => ih hpath found⟩
    · split at h
      · exact eq_of_mem_walk_file rule h ▸ hpath
      · cases h

theorem Plain.not_mem_walk (plain : fs.Plain) (h : names ∈ (fs.walk rule p).paths) :
    parentName ∉ names := by
  unfold walk at h
  split at h
  · rename_i ignoreText entries seen
    have each : ∀ x ∈ entries, x.1 ≠ parentName ∧
        ∃ depth q, x.2 = fs.viewTo rule.followsLinks depth q := by
      rw [view, plain.viewTo_eq] at seen
      split at seen
      · split at seen
        · cases seen
        · obtain ⟨-, rfl⟩ := FolderTree.folder.inj seen
          intro x hx
          obtain ⟨n, hn, rfl⟩ := List.mem_map.1 hx
          exact ⟨plain.ne_parentName_of_mem_list hn, _, _, rfl⟩
      · split at seen <;> cases seen
    dsimp only at h
    split at h
    · cases h
    · refine not_mem_walkEntries rule List.not_mem_nil (fun x hx => ?_) h
      obtain ⟨other, depth, q, view⟩ := each x hx
      refine ⟨other, fun path hpath names found => ?_⟩
      rw [view] at found
      exact plain.not_mem_walk_viewTo rule _ _ hpath found
  · cases h

theorem Plain.isBelow_of_mem_sources (plain : fs.Plain) (resolved : p.IsResolved)
    (h : q ∈ (fs.sources rule p).1) : IsBelow p q := by
  unfold sources at h
  split at h
  · cases h
  · split at h
    · cases h
    · obtain ⟨names, hnames, rfl⟩ := List.mem_map.1 h
      rw [plain.realPath_eq resolved] at hnames ⊢
      exact ⟨names, plain.not_mem_walk rule hnames, rfl⟩

end Walk

end FileStore

end Modulize
