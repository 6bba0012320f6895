import Modulize.Files.Glob
import Modulize.Proofs.Files.Tree
import Modulize.Proofs.Pattern.Ends
import Modulize.Proofs.Pattern.Lines
import Modulize.Proofs.Text

/-!
# What a search by an ending finds

A search for all names with an ending, from a folder with no links below it (`IsSearchable`), finds
the entries below the folder whose names end so, in order and each once
(`IsSearchable.exists_globBelow`). The ending must be one that a search takes for itself: no
wildcard may stand in it (`Glob.IsPlainEnding`).
-/

namespace Modulize

namespace Glob

open Pattern

/-- The ending has no character that means something else in a search. -/
def IsPlainEnding (ending : Text) : Prop := ∀ c ∈ ending, c ∉ ['*', '?', '[', '/']

variable {ending : Text}

/-- A name without wildcards stands for itself. -/
theorem ends_namePattern (plain : IsPlainEnding ending) (c : Cursor) :
    (∃ d, d ∈ (namePattern 0 ending).ends c) ↔ c.rest = ending := by
  induction ending generalizing c with
  | nil => simp [namePattern, mem_ends_place]
  | cons a ending ih =>
    obtain ⟨here, plain⟩ := List.forall_mem_cons.1 plain
    simp only [List.mem_cons, List.not_mem_nil, or_false, not_or] at here
    have head : namePattern 0 (a :: ending) = one (· == a) ++ namePattern 0 ending := by
      rw [namePattern.eq_def]
      grind
    rw [head]
    constructor
    · rintro ⟨d, hd⟩
      obtain ⟨e, he, hd⟩ := mem_ends_seq.1 hd
      obtain ⟨piece, rest, split, ⟨b, same, rfl⟩, rfl⟩ := (describes_one _ c e).1 he
      have whole := (ih plain _).1 ⟨d, hd⟩
      rw [Cursor.after_rest] at whole
      rw [split, whole, beq_iff_eq.1 same]
      rfl
    · intro whole
      obtain ⟨d, hd⟩ := (ih plain (c.after [a] ending)).2 (Cursor.after_rest ..)
      refine ⟨d, mem_ends_seq.2 ⟨c.after [a] ending, ?_, hd⟩⟩
      exact (describes_one _ c _).2 ⟨[a], ending, whole, ⟨a, by simp, rfl⟩, rfl⟩

/-- A star and an ending stand for the names that end so. -/
theorem fits_ending (plain : IsPlainEnding ending) (name : Text) :
    (namePattern 0 ('*' :: ending)).fits (.start name) = true ↔ ending <:+ name := by
  have head : namePattern 0 ('*' :: ending) = run (fun _ => true) ++ namePattern 0 ending := rfl
  have some : (namePattern 0 ('*' :: ending)).fits (.start name) = true ↔
      ∃ d, d ∈ (namePattern 0 ('*' :: ending)).ends (.start name) := by
    rw [fits_iff, Ne, List.eq_nil_iff_forall_not_mem]
    exact not_forall_not
  rw [some, head]
  constructor
  · rintro ⟨d, hd⟩
    obtain ⟨e, he, hd⟩ := mem_ends_seq.1 hd
    obtain ⟨piece, rest, split, -, rfl⟩ := (describes_run _ _ e).1 he
    have whole := (ends_namePattern plain _).1 ⟨d, hd⟩
    rw [Cursor.after_rest] at whole
    exact ⟨piece, whole ▸ split.symm⟩
  · rintro ⟨piece, rfl⟩
    obtain ⟨d, hd⟩ := (ends_namePattern plain ((Cursor.start (piece ++ ending)).after piece
      ending)).2 (Cursor.after_rest ..)
    exact ⟨d, mem_ends_seq.2 ⟨_, (describes_run _ _ _).2 ⟨piece, ending, rfl, by simp, rfl⟩, hd⟩⟩

/-- A search for an ending looks for the names that fit. -/
theorem read_ending (plain : IsPlainEnding ending) :
    read ('*' :: ending) = .ok [.fitting (namePattern 0 ('*' :: ending))] := by
  have star : '*' ∉ ending := fun mem => plain _ mem (by decide)
  have slash : '/' ∉ '*' :: ending := by
    rintro (_ | ⟨_, mem⟩)
    exact plain _ mem (by decide)
  have single : Path.parse ('*' :: ending) = ⟨.here, ['*' :: ending]⟩ := by
    rw [Path.parse, Text.splitOn_eq_splitOn, List.splitOn_eq_singleton slash]
    simp
  have step : Step.read ('*' :: ending) = .ok (.fitting (namePattern 0 ('*' :: ending))) := by
    have whole : '*' :: ending ≠ stars := by
      rintro same
      exact star ((List.cons.inj same).2 ▸ List.mem_cons_self)
    have within : Text.contains stars ('*' :: ending) = false := by
      rw [Bool.eq_false_iff, Ne, Text.contains_iff_infix]
      intro inside
      have twice := inside.sublist.count_le '*'
      rw [List.count_cons_self, List.count_eq_zero_of_not_mem star] at twice
      exact absurd twice (by decide)
    rw [Step.read, if_neg whole, within, if_neg Bool.false_ne_true, if_pos (by simp)]
  have last : ('*' :: ending).getLast? ≠ some '/' := fun same => slash (List.mem_of_getLast? same)
  simp only [read, single, List.mapM_cons, List.mapM_nil, step, if_neg last]
  rfl

end Glob

namespace FileStore

/-- A search can go through all that lies below the folder `top`, to which the path leads: the store
is a tree, and there are no links below the folder. -/
structure IsSearchable (fs : FileStore) (p : Path) (top : List Text) : Prop where
  tree : fs.IsTree
  unlinked : ∀ rel target, fs.entry? (top ++ rel) ≠ some (.link target)
  located : fs.locate p = .ok top
  folder : fs.entry? top = some .folder

variable {fs : FileStore} {p q : Path} {top rel : List Text} {n ending : Text}

/-! ## Paths below a folder -/

theorem IsSearchable.leadsDown (search : fs.IsSearchable p top)
    (found : (fs.entry? (top ++ rel)).isSome) : fs.LeadsDown top rel := by
  have whole := search.tree.leadsDown found
  exact (leadsDown_append_iff.1 whole).2.1

/-- A path to an entry below the folder leads there. -/
theorem IsSearchable.locate (search : fs.IsSearchable p top)
    (found : (fs.entry? (top ++ rel)).isSome) :
    fs.locate ⟨p.anchor, p.names ++ rel⟩ = .ok (top ++ rel) :=
  locate_append search.located search.folder (search.leadsDown found) (search.unlinked rel)

theorem IsSearchable.find? (search : fs.IsSearchable p top)
    (found : (fs.entry? (top ++ rel)).isSome) :
    fs.find? ⟨p.anchor, p.names ++ rel⟩ = fs.entry? (top ++ rel) := by
  rw [FileStore.find?, search.locate found]

theorem IsSearchable.isFolder_iff (search : fs.IsSearchable p top)
    (found : (fs.entry? (top ++ rel)).isSome) :
    fs.isFolder ⟨p.anchor, p.names ++ rel⟩ = true ↔ fs.entry? (top ++ rel) = some .folder := by
  rw [isFolder, search.find? found]
  split <;> simp_all

theorem IsSearchable.isFile_iff (search : fs.IsSearchable p top)
    (found : (fs.entry? (top ++ rel)).isSome) :
    fs.isFile ⟨p.anchor, p.names ++ rel⟩ = true ↔ ∃ c, fs.entry? (top ++ rel) = some (.file c) := by
  rw [isFile, search.find? found]
  split <;> simp_all

theorem IsSearchable.isLink (search : fs.IsSearchable p top)
    (found : (fs.entry? (top ++ rel)).isSome) (some : rel ≠ []) :
    fs.isLink ⟨p.anchor, p.names ++ rel⟩ = false := by
  rw [FileStore.isLink,
    locateLink_append search.located search.folder (search.leadsDown found) some]
  dsimp only
  split
  · rename_i link
    exact absurd link (search.unlinked rel _)
  · rfl

theorem IsSearchable.isFolder (search : fs.IsSearchable p top) : fs.isFolder p = true := by
  rw [FileStore.isFolder, FileStore.find?, search.located]
  simp only [search.folder]

/-! ## What lies below a folder -/

theorem IsSearchable.mem_below_iff (search : fs.IsSearchable p top) :
    q ∈ fs.below p ↔
      ∃ rel ≠ [], q = ⟨p.anchor, p.names ++ rel⟩ ∧ (fs.entry? (top ++ rel)).isSome := by
  simp only [below, search.isFolder, if_true, search.located, Path.sort, mem_sortBy,
    List.mem_filterMap]
  constructor
  · rintro ⟨⟨full, e⟩, hx, found⟩
    split at found
    · rename_i inside
      obtain ⟨rel, rfl⟩ := List.isPrefixOf_iff_prefix.1 inside.1
      have some : rel ≠ [] := fun none => inside.2 (by rw [none, List.append_nil])
      rw [List.drop_left] at found
      refine ⟨rel, some, (Option.some.inj found).symm, ?_⟩
      exact (mem_keys_iff (by simp [some])).1 (List.mem_map_of_mem hx)
    · cases found
  · rintro ⟨rel, some, rfl, found⟩
    obtain ⟨x, hx, same⟩ := List.mem_map.1 ((mem_keys_iff (by simp [some])).2 found)
    refine ⟨x, hx, ?_⟩
    rw [same, if_pos ⟨by simp, by simpa using some⟩, List.drop_left]

/-- A search goes to the folders of a tree. -/
theorem IsSearchable.mem_foldersFrom_iff (search : fs.IsSearchable p top) :
    q ∈ fs.foldersFrom p ↔
      ∃ rel, q = ⟨p.anchor, p.names ++ rel⟩ ∧ fs.entry? (top ++ rel) = some .folder := by
  rw [foldersFrom, List.mem_cons, List.mem_filter, search.mem_below_iff]
  constructor
  · rintro (rfl | ⟨⟨rel, some, rfl, found⟩, folder⟩)
    · exact ⟨[], by simp, by simpa using search.folder⟩
    · rw [search.isLink found some, Bool.not_false, Bool.and_true] at folder
      exact ⟨rel, rfl, (search.isFolder_iff found).1 folder⟩
  · rintro ⟨rel, rfl, folder⟩
    by_cases here : rel = []
    · exact Or.inl (by rw [here, List.append_nil])
    · have found : (fs.entry? (top ++ rel)).isSome := by
        rw [folder]
        rfl
      refine Or.inr ⟨⟨rel, here, rfl, found⟩, ?_⟩
      rw [search.isLink found here, (search.isFolder_iff found).2 folder]
      rfl

/-- The entries below the folder whose names end with an ending are those that a search comes to. -/
theorem IsSearchable.mem_glob_iff (search : fs.IsSearchable p top)
    (plain : Glob.IsPlainEnding ending) :
    q ∈ fs.glob [.folders, .fitting (Glob.namePattern 0 ('*' :: ending))] p ↔
      ∃ rel ≠ [], q = ⟨p.anchor, p.names ++ rel⟩ ∧ (fs.entry? (top ++ rel)).isSome ∧
        ending <:+ rel.getLast?.getD [] := by
  have children (folder : Path) :
      fs.glob [.fitting (Glob.namePattern 0 ('*' :: ending))] folder =
        ((fs.list folder).filter fun n =>
          (Glob.namePattern 0 ('*' :: ending)).fits (.start n)).map folder.child := by
    simp [glob]
  rw [glob, List.mem_flatMap]
  simp only [children, List.mem_map, List.mem_filter, Glob.fits_ending plain,
    search.mem_foldersFrom_iff]
  constructor
  · rintro ⟨_, ⟨way, rfl, folder⟩, n, ⟨listed, ends⟩, rfl⟩
    have there := (mem_list_iff (search.locate (by rw [folder]; rfl))).1 listed
    rw [List.append_assoc] at there
    exact ⟨way ++ [n], by simp, by simp [Path.child], there, by simpa using ends⟩
  · rintro ⟨rel, some, rfl, there, ends⟩
    obtain ⟨way, n, rfl⟩ := (List.eq_nil_or_concat' rel).resolve_left some
    have folder := (leadsDown_append_iff.1 (search.leadsDown there)).2.2 (List.cons_ne_nil n [])
    refine ⟨_, ⟨way, rfl, folder⟩, n, ⟨?_, by simpa using ends⟩, by simp [Path.child]⟩
    rw [mem_list_iff (search.locate (by rw [folder]; rfl)), List.append_assoc]
    exact there

/-! ## The order of what is found -/

theorem sort_pairwise (ps : List Path) :
    (Path.sort ps).Pairwise fun p q => p.precedes q = true :=
  sortBy_pairwise (R := fun p q : Path => p.precedes q = true) (fun _ _ h => h)
    (fun _ _ h => Text.precedesAll_total h) (fun _ _ _ h h' => Text.precedesAll_trans h h') ps

/-- **A search for an ending** finds the entries below the folder whose names end so, each once and
in order. -/
theorem IsSearchable.exists_globBelow (search : fs.IsSearchable p top)
    (plain : Glob.IsPlainEnding ending) :
    ∃ found, fs.globBelow ('*' :: ending) p = .ok found ∧
      found.Pairwise (fun q q' => q.precedes q' = true ∧ q ≠ q') ∧
        ∀ q, q ∈ found ↔ ∃ rel ≠ [], q = ⟨p.anchor, p.names ++ rel⟩ ∧
          (fs.entry? (top ++ rel)).isSome ∧ ending <:+ rel.getLast?.getD [] := by
  refine ⟨_, by rw [globBelow, Glob.read_ending plain]; rfl, ?_, fun q => ?_⟩
  · rw [search.isFolder, if_pos rfl]
    exact (sort_pairwise _).and ((sortBy_perm _ _).nodup_iff.2 (nodup_dedup _))
  · rw [search.isFolder, if_pos rfl, Path.sort, mem_sortBy, mem_dedup, search.mem_glob_iff plain]

end FileStore

end Modulize
