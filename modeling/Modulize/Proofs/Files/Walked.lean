import Modulize.Files.Traversal
import Modulize.Proofs.Files.Tree

/-!
# What a walk finds

A walk that does not follow links finds the source files below its root to which only folders lead
and of which no part of the way is left out (`IsListed`): by the exclude patterns, or by the ignore
file of a folder above. So it does by induction on the depth of the view (`finds_viewTo`): each step
down adds the ignore file of one folder to the rules that count below it (`CountsAt.within`), and
what is found under one name of a folder comes before all that is found under the next
(`finds_walkEntries`).

The main statement is `sources_eq_listed`. Endings of names are compared in small letters on both
sides (`sources_ignores_case`).
-/

namespace Modulize

namespace FileStore

/-- The rules of the ignore file of a folder; there are none without such a file. -/
def ignoreRulesAt (fs : FileStore) (folder : Path) : Except Failure (List IgnoreRule) := do
  match ← fs.ignoreTextAt folder with
  | none => pure []
  | some t => ignoreRules (Text.splitLines t)

/-- A path from the root of a walk as ignore rules read it: the path of a folder ends with a
slash. -/
def ruledPath (path : List Text) (isFolder : Bool) : Text :=
  Text.joinWith ['/'] path ++ if isFolder then ['/'] else []

/-- The entry at `path` below `top` is left out by itself: by the excluded patterns, or, where such
files count, by the ignore file of `top` or of a folder above the entry. -/
def IsLeftOut (fs : FileStore) (rule : WalkRule) (excluded : List IgnoreRule)
    (top path : List Text) (isFolder : Bool) : Prop :=
  isIgnored excluded (ruledPath path isFolder) = true ∨
    rule.respectsIgnoreFiles = true ∧ ∃ above rules, above <+: path ∧ above ≠ path ∧
      fs.ignoreRulesAt ⟨.root, top ++ above⟩ = .ok rules ∧
        isIgnored rules (ruledPath path isFolder) = true

/-- A source file below `top` that a walk is to find: no link is on the way to it, and neither the
file nor a folder on the way is left out. -/
structure IsListed (fs : FileStore) (rule : WalkRule) (excluded : List IgnoreRule)
    (top rel : List Text) : Prop where
  file : ∃ c, fs.entry? (top ++ rel) = some (.file c)
  source : ∃ e ∈ rule.extensions, e.toSmall <:+ (rel.getLast?.getD []).toSmall
  kept : ¬ fs.IsLeftOut rule excluded top rel false
  folders : ∀ way, way <+: rel → way ≠ [] → way ≠ rel →
    fs.entry? (top ++ way) = some .folder ∧ ¬ fs.IsLeftOut rule excluded top way true

/-- A walk can go through all folders below its root, which is the folder `top` when the links on
the way to it are replaced: the store is a tree, links are not followed, and all the patterns that
exclude paths can be read. -/
structure IsWalkable (fs : FileStore) (rule : WalkRule) (excluded : List IgnoreRule) (root : Path)
    (top : List Text) : Prop where
  tree : fs.IsTree
  unfollowed : rule.followsLinks = false
  patterns : ignoreRules rule.excludePatterns = .ok excluded
  isFolder : fs.isFolder root = true
  real : fs.realPath root = ⟨.root, top⟩
  down : fs.LeadsDown [] top
  folder : fs.entry? top = some .folder
  readable : rule.respectsIgnoreFiles = true → ∀ rel, fs.entry? (top ++ rel) = some .folder →
    (fs.ignoreRulesAt ⟨.root, top ++ rel⟩).isOk = true

variable {fs fs' : FileStore} {rule : WalkRule} {excluded : List IgnoreRule} {root : Path}
  {top path rel names folder : List Text} {lists lists' : List (List IgnoreRule)} {n : Text}

/-! ## Rules that count -/

/-- The lists of rules that count for the entry at `path`. -/
def CountsAt (fs : FileStore) (rule : WalkRule) (excluded : List IgnoreRule) (top : List Text)
    (lists : List (List IgnoreRule)) (path : List Text) : Prop :=
  ∀ written, lists.any (isIgnored · written) = true ↔
    isIgnored excluded written = true ∨ rule.respectsIgnoreFiles = true ∧
      ∃ above rules, above <+: path ∧ above ≠ path ∧
        fs.ignoreRulesAt ⟨.root, top ++ above⟩ = .ok rules ∧ isIgnored rules written = true

theorem CountsAt.isLeftOut_iff (counts : fs.CountsAt rule excluded top lists path)
    (isFolder : Bool) : FolderTree.isLeftOut lists path isFolder = true ↔
      fs.IsLeftOut rule excluded top path isFolder :=
  counts _

theorem countsAt_root (fs : FileStore) (rule : WalkRule) (excluded : List IgnoreRule)
    (top : List Text) : fs.CountsAt rule excluded top [excluded] [] := by
  intro written
  simp only [List.any_cons, List.any_nil, Bool.or_false]
  refine ⟨Or.inl, fun counted => counted.resolve_right ?_⟩
  rintro ⟨-, above, rules, below, other, -⟩
  exact other (List.prefix_nil.1 below)

/-- What lies above an entry of a folder is the folder, and what lies above that. -/
theorem above_concat_iff {above : List Text} :
    above <+: path ++ [n] ∧ above ≠ path ++ [n] ↔ above = path ∨ above <+: path ∧ above ≠ path := by
  rw [List.prefix_concat_iff]
  constructor
  · rintro ⟨whole | below, other⟩
    · exact absurd whole other
    · exact (em (above = path)).imp_right fun differs => ⟨below, differs⟩
  · rintro (rfl | ⟨below, -⟩)
    · exact ⟨Or.inr (List.prefix_refl _), fun same => by simpa using congrArg List.length same⟩
    · refine ⟨Or.inr below, fun same => ?_⟩
      have shorter := below.length_le
      rw [same, List.length_append, List.length_singleton] at shorter
      omega

/-- The ignore file of a folder counts for what is in the folder, together with all the rules that
count for the folder itself. -/
theorem CountsAt.within (counts : fs.CountsAt rule excluded top lists path)
    (within : FolderTree.listsWithin rule lists (fs.ignoreTextAt ⟨.root, top ++ path⟩) =
      .ok lists') (n : Text) : fs.CountsAt rule excluded top lists' (path ++ [n]) := by
  intro written
  unfold FolderTree.listsWithin at within
  split at within
  · rename_i respects
    have more : ∃ own, fs.ignoreRulesAt ⟨.root, top ++ path⟩ = .ok own ∧
        (lists'.any (isIgnored · written) = true ↔
          lists.any (isIgnored · written) = true ∨ isIgnored own written = true) := by
      unfold ignoreRulesAt
      obtain ⟨text?, found, within⟩ := bind_eq_ok within
      rw [found]
      cases text? with
      | none =>
        obtain rfl := Except.ok.inj within
        exact ⟨[], rfl, by simp [isIgnored]⟩
      | some t =>
        obtain ⟨own, read, within⟩ := bind_eq_ok within
        obtain rfl := Except.ok.inj within
        exact ⟨own, read, by simp⟩
    obtain ⟨own, read, more⟩ := more
    rw [more, counts written]
    simp only [respects, true_and, above_concat_iff, ← and_assoc]
    constructor
    · rintro ((here | ⟨above, rules, hit⟩) | hit)
      · exact Or.inl here
      · exact Or.inr ⟨above, rules, ⟨Or.inr hit.1.1, hit.1.2⟩, hit.2⟩
      · exact Or.inr ⟨path, own, ⟨Or.inl rfl, read⟩, hit⟩
    · rintro (here | ⟨above, rules, ⟨rfl | place, found⟩, hit⟩)
      · exact Or.inl (Or.inl here)
      · obtain rfl := Except.ok.inj (read.symm.trans found)
        exact Or.inr hit
      · exact Or.inl (Or.inr ⟨above, rules, ⟨place, found⟩, hit⟩)
  · rename_i ignores
    obtain rfl := Except.ok.inj within
    rw [counts written]
    simp [ignores]

theorem exists_listsWithin {p : Path}
    (readable : rule.respectsIgnoreFiles = true → (fs.ignoreRulesAt p).isOk = true)
    (lists : List (List IgnoreRule)) :
    ∃ lists', FolderTree.listsWithin rule lists (fs.ignoreTextAt p) = .ok lists' := by
  unfold FolderTree.listsWithin
  split
  · rename_i respects
    have read := readable respects
    unfold ignoreRulesAt at read
    cases found : fs.ignoreTextAt p with
    | error f =>
      rw [found] at read
      cases read
    | ok text? =>
      cases text? with
      | none => exact ⟨lists, rfl⟩
      | some t =>
        rw [found] at read
        change (ignoreRules (Text.splitLines t)).isOk = true at read
        cases rules : ignoreRules (Text.splitLines t) with
        | error f =>
          rw [rules] at read
          cases read
        | ok own => exact ⟨lists ++ [own], by simp [rules, bind, Except.bind, pure, Except.pure]⟩
  · exact ⟨lists, rfl⟩

/-! ## What is found below a place -/

/-- A path comes before another one, name by name. -/
def IsBefore (a b : List Text) : Prop := Text.precedesAll a b = true ∧ a ≠ b

/-- What has been found are the paths below `path` with a property, in order and each once. -/
structure Finds (found : Found) (path : List Text) (P : List Text → Prop) : Prop where
  complete : found.failure = none
  mem : ∀ names, names ∈ found.paths ↔ ∃ rel, names = path ++ rel ∧ P rel
  ordered : found.paths.Pairwise IsBefore

theorem finds_none {P : List Text → Prop} (path : List Text) (h : ∀ rel, ¬ P rel) :
    Finds .none path P :=
  ⟨rfl, fun _ => ⟨fun mem => absurd mem List.not_mem_nil, fun ⟨rel, _, hit⟩ => absurd hit (h rel)⟩,
    List.Pairwise.nil⟩

theorem Finds.congr {found : Found} {P Q : List Text → Prop} (finds : Finds found path P)
    (same : ∀ rel, P rel ↔ Q rel) : Finds found path Q :=
  ⟨finds.complete, fun names => (finds.mem names).trans (by simp only [same]), finds.ordered⟩

theorem isBefore_append_cons {m : Text} (before : Text.precedes n m = true ∧ n ≠ m)
    (path a b : List Text) : IsBefore (path ++ n :: a) (path ++ m :: b) := by
  refine ⟨?_, fun same => ?_⟩
  · rw [Text.precedesAll_append, Text.precedesAll_cons_of_ne before.2, before.1]
  · exact before.2 (List.cons.inj (List.append_cancel_left same)).1

/-- A walk through entries with names in order finds what it finds under each name. -/
theorem finds_walkEntries {view : Text → FolderTree} {P : Text → List Text → Prop}
    {ns : List Text} (ordered : ns.Pairwise fun a b => Text.precedes a b = true ∧ a ≠ b)
    (each : ∀ n ∈ ns, Finds ((view n).walk rule lists (path ++ [n])) (path ++ [n]) (P n)) :
    Finds (FolderTree.walkEntries rule lists path (ns.map fun n => (n, view n))) path
      fun rel => ∃ n rel', rel = n :: rel' ∧ n ∈ ns ∧ P n rel' := by
  induction ns with
  | nil =>
    refine finds_none path ?_
    rintro rel ⟨n, rel', -, mem, -⟩
    cases mem
  | cons n ns ih =>
    obtain ⟨before, ordered⟩ := List.pairwise_cons.1 ordered
    have first := each n List.mem_cons_self
    have later := ih ordered fun m hm => each m (List.mem_cons_of_mem _ hm)
    rw [List.map_cons, FolderTree.walkEntries]
    simp only [Found.followedBy, first.complete]
    refine ⟨later.complete, fun names => ?_, List.pairwise_append.2
      ⟨first.ordered, later.ordered, fun a ha b hb => ?_⟩⟩
    · rw [List.mem_append, first.mem, later.mem]
      constructor
      · rintro (⟨rel, rfl, hit⟩ | ⟨_, rfl, m, rel, rfl, hm, hit⟩)
        · exact ⟨n :: rel, by simp, n, rel, rfl, List.mem_cons_self, hit⟩
        · exact ⟨m :: rel, rfl, m, rel, rfl, List.mem_cons_of_mem _ hm, hit⟩
      · rintro ⟨_, rfl, m, rel, rfl, hm, hit⟩
        rcases List.mem_cons.1 hm with rfl | hm
        · exact Or.inl ⟨rel, by simp, hit⟩
        · exact Or.inr ⟨m :: rel, rfl, m, rel, rfl, hm, hit⟩
    · obtain ⟨rel, rfl, -⟩ := (first.mem a).1 ha
      obtain ⟨_, rfl, m, rel', rfl, hm, -⟩ := (later.mem b).1 hb
      rw [List.append_assoc]
      exact isBefore_append_cons (before m hm) path rel rel'

/-! ## The view of a tree -/

section View

variable (down : fs.LeadsDown [] names)

include down in
/-- Names that lead down to something other than a link lead to it. -/
theorem seen_of_leadsDown (stays : ∀ target, fs.entry? names ≠ some (.link target)) :
    fs.isLink ⟨.root, names⟩ = false ∧ fs.find? ⟨.root, names⟩ = fs.entry? names := by
  constructor
  · have itself : fs.locateLink ⟨.root, names⟩ = .ok names := locateLink_of_leadsDown rfl down
    rw [isLink, itself]
    cases found : fs.entry? names with
    | none => simp
    | some e =>
      cases e with
      | link target => exact absurd found (stays target)
      | file c => simp
      | folder => simp
  · rw [find?, locate_of_leadsDown rfl down stays]

include down in
theorem viewTo_of_none (none : fs.entry? names = none) (depth : Nat) :
    fs.viewTo false depth ⟨.root, names⟩ = .nothing := by
  obtain ⟨noLink, found⟩ := seen_of_leadsDown down (by simp [none])
  simp [viewTo.eq_def, noLink, isFolder, isFile, found, none]

include down in
theorem viewTo_of_file {c : Content} (file : fs.entry? names = some (.file c)) (depth : Nat) :
    fs.viewTo false depth ⟨.root, names⟩ = .file := by
  obtain ⟨noLink, found⟩ := seen_of_leadsDown down (by simp [file])
  simp [viewTo.eq_def, noLink, isFolder, isFile, found, file]

include down in
theorem viewTo_of_link {target : Path} (link : fs.entry? names = some (.link target))
    (depth : Nat) : fs.viewTo false depth ⟨.root, names⟩ = .link .nothing := by
  have itself : fs.locateLink ⟨.root, names⟩ = .ok names := locateLink_of_leadsDown rfl down
  simp [viewTo.eq_def, isLink, itself, link]

include down in
theorem viewTo_zero_of_folder (folder : fs.entry? names = some .folder) :
    fs.viewTo false 0 ⟨.root, names⟩ = .nothing := by
  obtain ⟨noLink, found⟩ := seen_of_leadsDown down (by simp [folder])
  simp [viewTo.eq_def, noLink, isFolder, found, folder]

include down in
theorem viewTo_succ_of_folder (folder : fs.entry? names = some .folder) (depth : Nat) :
    fs.viewTo false (depth + 1) ⟨.root, names⟩ = .folder (fs.ignoreTextAt ⟨.root, names⟩)
      ((fs.list ⟨.root, names⟩).map fun n =>
        (n, fs.viewTo false depth ⟨.root, names ++ [n]⟩)) := by
  obtain ⟨noLink, found⟩ := seen_of_leadsDown down (by simp [folder])
  rw [viewTo.eq_def]
  simp [noLink, isFolder, found, folder, Path.child]

end View

/-- What a walk is to find from the entry at `path` on. -/
structure IsListedFrom (fs : FileStore) (rule : WalkRule) (excluded : List IgnoreRule)
    (top path rel : List Text) : Prop where
  file : ∃ c, fs.entry? (top ++ path ++ rel) = some (.file c)
  source : rule.isSource ((path ++ rel).getLast?.getD []) = true
  kept : ¬ fs.IsLeftOut rule excluded top (path ++ rel) false
  folders : ∀ way, way <+: rel → way ≠ rel → fs.entry? (top ++ path ++ way) = some .folder ∧
    ¬ fs.IsLeftOut rule excluded top (path ++ way) true

theorem isListedFrom_nil_iff : fs.IsListedFrom rule excluded top path [] ↔
    (∃ c, fs.entry? (top ++ path) = some (.file c)) ∧
      rule.isSource (path.getLast?.getD []) = true ∧
        ¬ fs.IsLeftOut rule excluded top path false := by
  constructor
  · rintro ⟨file, source, kept, -⟩
    rw [List.append_nil] at file source kept
    exact ⟨file, source, kept⟩
  · rintro ⟨file, source, kept⟩
    refine ⟨?_, ?_, ?_, fun way below other => absurd (List.prefix_nil.1 below) other⟩ <;>
      rwa [List.append_nil]

theorem isListedFrom_cons_iff : fs.IsListedFrom rule excluded top path (n :: rel) ↔
    fs.entry? (top ++ path) = some .folder ∧ ¬ fs.IsLeftOut rule excluded top path true ∧
      fs.IsListedFrom rule excluded top (path ++ [n]) rel := by
  have move (way : List Text) : path ++ n :: way = path ++ [n] ++ way := by simp
  constructor
  · rintro ⟨file, source, kept, folders⟩
    obtain ⟨folder, stays⟩ := folders [] List.nil_prefix (List.cons_ne_nil n rel).symm
    rw [List.append_nil] at folder stays
    refine ⟨folder, stays, ?_, move rel ▸ source, move rel ▸ kept, fun way below other => ?_⟩
    · rwa [List.append_assoc, move, ← List.append_assoc] at file
    · have inner := folders (n :: way) ((List.prefix_cons_inj n).2 below) fun same =>
        other (List.cons.inj same).2
      rwa [List.append_assoc, move, ← List.append_assoc] at inner
  · rintro ⟨folder, stays, file, source, kept, folders⟩
    refine ⟨?_, move rel ▸ source, move rel ▸ kept, fun way below differs => ?_⟩
    · rwa [List.append_assoc, move, ← List.append_assoc]
    · cases way with
      | nil =>
        rw [List.append_nil, List.append_nil]
        exact ⟨folder, stays⟩
      | cons m way =>
        obtain ⟨rfl, inside⟩ := List.cons_prefix_cons.1 below
        have inner := folders way inside fun same => differs (same ▸ rfl)
        rwa [List.append_assoc, move, ← List.append_assoc]

/-- What is found from an entry on is the entry itself, or something below it. -/
theorem IsListedFrom.isSome (listed : fs.IsListedFrom rule excluded top path rel) :
    (fs.entry? (top ++ path)).isSome := by
  cases rel with
  | nil =>
    obtain ⟨⟨c, found⟩, -⟩ := isListedFrom_nil_iff.1 listed
    rw [found]
    rfl
  | cons n rel =>
    rw [(isListedFrom_cons_iff.1 listed).1]
    rfl

/-- The part of a listed path below its first name. -/
theorem isListed_iff (folder : fs.entry? top = some .folder) :
    fs.IsListed rule excluded top rel ↔
      ∃ n rel', rel = n :: rel' ∧ fs.IsListedFrom rule excluded top [n] rel' := by
  have source (name : Text) : rule.isSource name = true ↔
      ∃ e ∈ rule.extensions, e.toSmall <:+ name.toSmall := by
    simp only [WalkRule.isSource, List.any_eq_true, Text.endsWith, List.isSuffixOf_iff_suffix]
  constructor
  · rintro ⟨⟨c, file⟩, ending, kept, folders⟩
    cases rel with
    | nil =>
      rw [List.append_nil, folder] at file
      cases file
    | cons n rel =>
      refine ⟨n, rel, rfl, ⟨c, by simpa using file⟩, (source _).2 ending, kept,
        fun way below other => ?_⟩
      have inner := folders (n :: way) ((List.prefix_cons_inj n).2 below) (List.cons_ne_nil n way)
        fun same => other (List.cons.inj same).2
      simpa using inner
  · rintro ⟨n, rel, rfl, ⟨c, file⟩, ending, kept, folders⟩
    refine ⟨⟨c, by simpa using file⟩, (source _).1 ending, kept, fun way below some differs => ?_⟩
    obtain ⟨m, way, rfl⟩ := List.exists_cons_of_ne_nil some
    obtain ⟨rfl, inside⟩ := List.cons_prefix_cons.1 below
    simpa using folders way inside fun same => differs (same ▸ rfl)

/-- From a folder on, only what is found from one of its entries on is found, and nothing if the
folder is left out. -/
theorem isListedFrom_iff_of_folder (folder : fs.entry? (top ++ path) = some .folder)
    (depth : Nat) : rel.length ≤ depth + 1 ∧ fs.IsListedFrom rule excluded top path rel ↔
      ¬ fs.IsLeftOut rule excluded top path true ∧ ∃ n rel', rel = n :: rel' ∧
        rel'.length ≤ depth ∧ fs.IsListedFrom rule excluded top (path ++ [n]) rel' := by
  cases rel with
  | nil =>
    constructor
    · rintro ⟨-, listed⟩
      obtain ⟨⟨c, file⟩, -⟩ := isListedFrom_nil_iff.1 listed
      cases folder.symm.trans file
    · rintro ⟨-, n, rel', none, -⟩
      cases none
  | cons n rel =>
    rw [isListedFrom_cons_iff, List.length_cons, Nat.succ_le_succ_iff]
    constructor
    · rintro ⟨short, -, stays, listed⟩
      exact ⟨stays, n, rel, rfl, short, listed⟩
    · rintro ⟨stays, m, rel', same, short, listed⟩
      obtain ⟨rfl, rfl⟩ := List.cons.inj same
      exact ⟨short, folder, stays, listed⟩

/-- A file is found unless it is left out or no source. -/
theorem finds_walk_file {c : Content} (found : fs.entry? (top ++ path) = some (.file c))
    (counts : fs.CountsAt rule excluded top lists path) (depth : Nat) :
    Finds (FolderTree.file.walk rule lists path) path
      fun rel => rel.length ≤ depth ∧ fs.IsListedFrom rule excluded top path rel := by
  have itself (rel : List Text) (listed : fs.IsListedFrom rule excluded top path rel) :
      rel = [] := by
    cases rel with
    | nil => rfl
    | cons n rel => cases found.symm.trans (isListedFrom_cons_iff.1 listed).1
  rw [FolderTree.walk]
  split
  · rename_i passedOver
    rw [Bool.or_eq_true, counts.isLeftOut_iff, Bool.not_eq_true'] at passedOver
    refine finds_none path fun rel hit => ?_
    obtain rfl := itself rel hit.2
    obtain ⟨-, source, kept⟩ := isListedFrom_nil_iff.1 hit.2
    rcases passedOver with leftOut | noSource
    · exact kept leftOut
    · rw [source] at noSource
      cases noSource
  · rename_i taken
    rw [Bool.or_eq_true, counts.isLeftOut_iff, Bool.not_eq_true', not_or,
      Bool.not_eq_false] at taken
    have listed := isListedFrom_nil_iff.2 ⟨⟨c, found⟩, taken.2, taken.1⟩
    refine ⟨rfl, fun names => ?_, List.pairwise_singleton _ _⟩
    rw [List.mem_singleton]
    constructor
    · rintro rfl
      exact ⟨[], by simp, Nat.zero_le depth, listed⟩
    · rintro ⟨rel, rfl, -, listed⟩
      rw [itself rel listed, List.append_nil]

/-- Where there is no folder, a walk finds at most the place itself. -/
theorem finds_viewTo_of_ne_folder (other : fs.entry? (top ++ path) ≠ some .folder)
    (down : fs.LeadsDown [] (top ++ path)) (counts : fs.CountsAt rule excluded top lists path)
    (depth : Nat) :
    Finds ((fs.viewTo false depth ⟨.root, top ++ path⟩).walk rule lists path) path
      fun rel => rel.length ≤ depth ∧ fs.IsListedFrom rule excluded top path rel := by
  have file (rel : List Text) (listed : fs.IsListedFrom rule excluded top path rel) :
      ∃ c, fs.entry? (top ++ path) = some (.file c) := by
    cases rel with
    | nil => exact (isListedFrom_nil_iff.1 listed).1
    | cons n rel => exact absurd (isListedFrom_cons_iff.1 listed).1 other
  cases found : fs.entry? (top ++ path) with
  | none =>
    rw [viewTo_of_none down found, FolderTree.walk]
    refine finds_none path fun rel hit => ?_
    obtain ⟨c, same⟩ := file rel hit.2
    cases found.symm.trans same
  | some e =>
    cases e with
    | folder => exact absurd found other
    | link target =>
      rw [viewTo_of_link down found, FolderTree.walk, FolderTree.walk, ite_self]
      refine finds_none path fun rel hit => ?_
      obtain ⟨c, same⟩ := file rel hit.2
      cases found.symm.trans same
    | file c =>
      rw [viewTo_of_file down found]
      exact finds_walk_file found counts depth

/-- **What a walk finds below a place** is what it is to find there, as deep as the view goes. -/
theorem finds_viewTo (tree : fs.IsTree)
    (readable : rule.respectsIgnoreFiles = true → ∀ rel, fs.entry? (top ++ rel) = some .folder →
      (fs.ignoreRulesAt ⟨.root, top ++ rel⟩).isOk = true)
    (down : fs.LeadsDown [] (top ++ path)) (counts : fs.CountsAt rule excluded top lists path)
    (depth : Nat) :
    Finds ((fs.viewTo false depth ⟨.root, top ++ path⟩).walk rule lists path) path
      fun rel => rel.length ≤ depth ∧ fs.IsListedFrom rule excluded top path rel := by
  induction depth generalizing path lists with
  | zero =>
    by_cases folder : fs.entry? (top ++ path) = some .folder
    · rw [viewTo_zero_of_folder down folder, FolderTree.walk]
      refine finds_none path fun rel hit => ?_
      obtain rfl := List.length_eq_zero_iff.1 (Nat.le_zero.1 hit.1)
      obtain ⟨⟨c, file⟩, -⟩ := isListedFrom_nil_iff.1 hit.2
      cases folder.symm.trans file
    · exact finds_viewTo_of_ne_folder folder down counts 0
  | succ depth ih =>
    by_cases folder : fs.entry? (top ++ path) = some .folder
    · rw [viewTo_succ_of_folder down folder, FolderTree.walk]
      split
      · rename_i leftOut
        rw [counts.isLeftOut_iff] at leftOut
        exact finds_none path fun rel hit =>
          ((isListedFrom_iff_of_folder folder depth).1 hit).1 leftOut
      · rename_i stays
        rw [counts.isLeftOut_iff] at stays
        obtain ⟨lists', within⟩ :=
          exists_listsWithin (fun respects => readable respects path folder) lists
        rw [within]
        have located := locate_of_leadsDown (p := ⟨.root, top ++ path⟩) rfl down
          (by simp [folder])
        have step (n : Text) : top ++ path ++ [n] = top ++ (path ++ [n]) := List.append_assoc ..
        refine (finds_walkEntries (tree.list_pairwise _) (P := fun n rel => rel.length ≤ depth ∧
          fs.IsListedFrom rule excluded top (path ++ [n]) rel) fun n hn => ?_).congr fun rel => ?_
        · have there := (mem_list_iff located).1 hn
          have further := tree.leadsDown there
          rw [step] at further ⊢
          exact ih further (counts.within within n)
        · rw [isListedFrom_iff_of_folder folder]
          constructor
          · rintro ⟨n, rel', rfl, -, short, listed⟩
            exact ⟨stays, n, rel', rfl, short, listed⟩
          · rintro ⟨-, n, rel', rfl, short, listed⟩
            exact ⟨n, rel', rfl, (mem_list_iff located).2 (step n ▸ listed.isSome), short, listed⟩
    · exact finds_viewTo_of_ne_folder folder down counts _

/-! ## The files that a walk finds -/

/-- A view is deeper than every way through the store. -/
theorem exists_depthBound (fs : FileStore) :
    ∃ depth, fs.depthBound = depth + 1 ∧ fs.entries.length ≤ depth := by
  refine ⟨(linkLimit + 1) * (fs.entries.length + 1) - 1, ?_, ?_⟩ <;>
    simp only [depthBound, linkLimit] <;> omega

/-- **A walk finds what is listed**, and does not fail. -/
theorem IsWalkable.finds (walkable : fs.IsWalkable rule excluded root top) :
    Finds (fs.walk rule ⟨.root, top⟩) [] (fs.IsListed rule excluded top) := by
  obtain ⟨depth, bound, deep⟩ := exists_depthBound fs
  have view : fs.view rule.followsLinks ⟨.root, top⟩ = .folder (fs.ignoreTextAt ⟨.root, top⟩)
      ((fs.list ⟨.root, top⟩).map fun n => (n, fs.viewTo false depth ⟨.root, top ++ [n]⟩)) := by
    rw [FileStore.view, bound, walkable.unfollowed]
    exact viewTo_succ_of_folder walkable.down walkable.folder depth
  have readable := walkable.readable
  obtain ⟨lists, within⟩ := exists_listsWithin (p := ⟨.root, top⟩) (fun respects => by
    simpa using readable respects [] (by simpa using walkable.folder)) [excluded]
  have lists? : (ignoreRules rule.excludePatterns >>= fun excluded =>
      FolderTree.listsWithin rule [excluded] (fs.ignoreTextAt ⟨.root, top⟩)) = .ok lists := by
    rw [walkable.patterns]
    exact within
  have located := locate_of_leadsDown (p := ⟨.root, top⟩) rfl walkable.down
    (by simp [walkable.folder])
  rw [FileStore.walk, view]
  simp only [lists?]
  refine (finds_walkEntries (walkable.tree.list_pairwise _) (P := fun n rel =>
    rel.length ≤ depth ∧ fs.IsListedFrom rule excluded top [n] rel) fun n hn => ?_).congr
      fun rel => ?_
  · have further := walkable.tree.leadsDown ((mem_list_iff located).1 hn)
    have counts : fs.CountsAt rule excluded top lists [n] :=
      (countsAt_root fs rule excluded top).within (by simpa using within) n
    exact finds_viewTo walkable.tree readable further counts depth
  · rw [isListed_iff walkable.folder]
    constructor
    · rintro ⟨n, rel', rfl, -, -, listed⟩
      exact ⟨n, rel', rfl, listed⟩
    · rintro ⟨n, rel', rfl, listed⟩
      refine ⟨n, rel', rfl, (mem_list_iff located).2 listed.isSome, ?_, listed⟩
      -- the way to the file is not longer than the number of entries
      obtain ⟨c, file⟩ := listed.file
      have there : (fs.entry? (top ++ [n] ++ rel')).isSome := by
        rw [file]
        rfl
      have short := length_le_of_leadsDown (walkable.tree.leadsDown there) there
      simp only [List.length_append] at short
      omega

theorem sources_of_walkable (walkable : fs.IsWalkable rule excluded root top) :
    fs.sources rule root =
      ((fs.walk rule ⟨.root, top⟩).paths.map fun rel => ⟨.root, top ++ rel⟩, none) := by
  have there : fs.isThere root = true := by
    have folder := walkable.isFolder
    unfold isFolder at folder
    unfold isThere
    split at folder
    · rename_i found
      rw [found]
      rfl
    · cases folder
  simp only [sources, there, walkable.isFolder, walkable.real, walkable.finds.complete]
  rfl

/-! ## What a walk depends on -/

theorem exists_file_congr {a b : Option Entry} (same : b.map Entry.shape = a.map Entry.shape) :
    (∃ c, b = some (.file c)) ↔ ∃ c, a = some (.file c) := by
  rcases a with _ | _ | _ | _ <;> rcases b with _ | _ | _ | _ <;> simp_all [Entry.shape]

theorem folder_congr {a b : Option Entry} (same : b.map Entry.shape = a.map Entry.shape) :
    b = some .folder ↔ a = some .folder := by
  rcases a with _ | _ | _ | _ <;> rcases b with _ | _ | _ | _ <;> simp_all [Entry.shape]

/-- Whether an entry is left out depends on the ignore files above it. -/
theorem isLeftOut_congr {isFolder : Bool}
    (rules : ∀ way, way <+: path →
      fs'.ignoreRulesAt ⟨.root, top ++ way⟩ = fs.ignoreRulesAt ⟨.root, top ++ way⟩) :
    fs'.IsLeftOut rule excluded top path isFolder ↔
      fs.IsLeftOut rule excluded top path isFolder := by
  refine or_congr_right (and_congr_right' (exists_congr fun above => exists_congr fun own => ?_))
  refine and_congr_right fun below => ?_
  rw [rules above below]

/-- Whether a file is listed depends on what lies on the way to it, and on the ignore files
there. -/
theorem isListed_congr
    (same : ∀ way, way <+: rel → (fs'.entry? (top ++ way)).map Entry.shape =
      (fs.entry? (top ++ way)).map Entry.shape)
    (rules : ∀ way, way <+: rel →
      fs'.ignoreRulesAt ⟨.root, top ++ way⟩ = fs.ignoreRulesAt ⟨.root, top ++ way⟩) :
    fs'.IsListed rule excluded top rel ↔ fs.IsListed rule excluded top rel := by
  have file := exists_file_congr (same rel (List.prefix_refl rel))
  have kept : fs'.IsLeftOut rule excluded top rel false ↔
      fs.IsLeftOut rule excluded top rel false := isLeftOut_congr rules
  have folders (way : List Text) (below : way <+: rel) :
      fs'.entry? (top ++ way) = some .folder ∧ ¬ fs'.IsLeftOut rule excluded top way true ↔
        fs.entry? (top ++ way) = some .folder ∧ ¬ fs.IsLeftOut rule excluded top way true :=
    and_congr (folder_congr (same way below))
      (not_congr (isLeftOut_congr fun above inside => rules above (inside.trans below)))
  constructor
  · rintro ⟨h, source, stays, ways⟩
    exact ⟨file.1 h, source, mt kept.2 stays, fun way below some other =>
      (folders way below).1 (ways way below some other)⟩
  · rintro ⟨h, source, stays, ways⟩
    exact ⟨file.2 h, source, mt kept.1 stays, fun way below some other =>
      (folders way below).2 (ways way below some other)⟩

/-- A folder with a link to it, two files of one name in folders of its own, and a link to one of
them. The ignore file beside the other one speaks of both. -/
def nestedTree : FileStore where
  entries :=
    [(["r".toList], .folder),
     (["r".toList, "a".toList], .folder),
     (["r".toList, "a".toList, ".gitignore".toList], .file (.text "gen.js\n")),
     (["r".toList, "a".toList, "gen.js".toList], .file .empty),
     (["r".toList, "b".toList], .folder),
     (["r".toList, "b".toList, "gen.js".toList], .file .empty),
     (["r".toList, "c.js".toList], .link ⟨.here, ["b".toList, "gen.js".toList]⟩),
     (["s".toList], .link ⟨.here, ["r".toList]⟩)]
  here := []

def nestedRule : WalkRule where
  extensions := [".JS".toList]
  excludePatterns := []
  respectsIgnoreFiles := true
  followsLinks := false

theorem isTree_nestedTree : nestedTree.IsTree :=
  .of_take (by decide) (by decide) (by decide)

theorem isWalkable_nestedTree :
    nestedTree.IsWalkable nestedRule [] ⟨.here, ["s".toList]⟩ ["r".toList] where
  tree := isTree_nestedTree
  unfollowed := rfl
  patterns := rfl
  isFolder := by rfl
  real := by rfl
  down := isTree_nestedTree.leadsDown (by rfl)
  folder := by rfl
  readable := by
    intro _ rel folder
    have mem := mem_of_lookup? ((entry?_of_ne_nil (by simp)).symm.trans folder)
    simp only [nestedTree, List.mem_cons, Prod.mk.injEq, List.cons_append, List.nil_append,
      List.cons.injEq, true_and, reduceCtorEq, and_false, and_true, or_false, false_or,
      List.not_mem_nil] at mem
    rcases mem with rfl | rfl | rfl <;> decide +kernel

end FileStore

end Modulize
