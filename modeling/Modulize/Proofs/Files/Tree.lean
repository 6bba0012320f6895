import Mathlib.Data.List.Nodup
import Mathlib.Data.List.Perm.Subperm
import Modulize.Proofs.Files.Store

/-!
# Trees and the ways through them

The entries of a store make up a tree (`IsTree`) when each has one name and all that lies above it
is folders. Names lead down from a place (`LeadsDown`) when the places on the way are folders: a
path is then followed name by name (`advance_of_leadsDown`) and comes to the place that its names
say (`locate_of_leadsDown`, `locateLink_of_leadsDown`), and so does a path that goes on from one
that leads to a folder (`locate_append`). No way is longer than the number of entries
(`length_le_of_leadsDown`).

What is listed in a folder are the names of its entries (`mem_list_iff`), in order and each once
(`IsTree.list_pairwise`). Paths are ordered name by name (`Text.precedesAll_total`,
`Text.precedesAll_trans`).
-/

namespace Modulize

/-- Something is found under a key that a pair has. -/
theorem isSome_lookup?_iff {κ ν : Type} [DecidableEq κ] {k : κ} {table : List (κ × ν)} :
    (lookup? k table).isSome ↔ k ∈ table.map Prod.fst := by
  induction table with
  | nil => simp [lookup?]
  | cons kv table ih =>
    obtain ⟨k', v⟩ := kv
    rw [lookup?, List.map_cons, List.mem_cons, ← ih]
    by_cases same : k' = k
    · simp [same]
    · simp [same, Ne.symm same]

/-! ## The order of paths -/

namespace Text

theorem precedesAll_append (way a b : List Text) :
    precedesAll (way ++ a) (way ++ b) = precedesAll a b := by
  induction way with
  | nil => rfl
  | cons n way ih => rw [List.cons_append, List.cons_append, precedesAll, if_pos rfl, ih]

theorem precedesAll_cons_of_ne {n m : Text} (other : n ≠ m) (a b : List Text) :
    precedesAll (n :: a) (m :: b) = precedes n m := by
  rw [precedesAll, if_neg other]

theorem precedesAll_cons {n m : Text} {a b : List Text} :
    precedesAll (n :: a) (m :: b) = true ↔
      n = m ∧ precedesAll a b = true ∨ n ≠ m ∧ precedes n m = true := by
  rw [precedesAll]
  split <;> simp [*]

theorem precedesAll_total {a b : List Text} (h : precedesAll a b = false) :
    precedesAll b a = true := by
  induction a generalizing b with
  | nil => cases h
  | cons n a ih =>
    cases b with
    | nil => rfl
    | cons m b =>
      by_cases same : n = m
      · subst same
        rw [precedesAll, if_pos rfl] at h ⊢
        exact ih h
      · rw [precedesAll_cons_of_ne same] at h
        rw [precedesAll_cons_of_ne (Ne.symm same)]
        exact precedes_total h

theorem precedesAll_trans {a b c : List Text} (h : precedesAll a b = true)
    (h' : precedesAll b c = true) : precedesAll a c = true := by
  induction a generalizing b c with
  | nil => rfl
  | cons n a ih =>
    cases b with
    | nil => cases h
    | cons m b =>
      cases c with
      | nil => cases h'
      | cons k c =>
        rw [precedesAll_cons] at h h' ⊢
        rcases h with ⟨rfl, inner⟩ | ⟨other, first⟩ <;>
          rcases h' with ⟨rfl, inner'⟩ | ⟨other', last⟩
        · exact Or.inl ⟨rfl, ih inner inner'⟩
        · exact Or.inr ⟨other', last⟩
        · exact Or.inr ⟨other, first⟩
        · refine Or.inr ⟨fun same => ?_, precedes_trans first last⟩
          subst same
          exact other (precedes_antisymm first last)

end Text

namespace FileStore

/-- The entries make up a tree: no two have the same name, none is named like the folder above, and
what lies above an entry is folders. -/
structure IsTree (fs : FileStore) : Prop where
  distinct : (fs.entries.map Prod.fst).Nodup
  names : ∀ x ∈ fs.entries, parentName ∉ x.1
  above : ∀ x ∈ fs.entries, ∀ way, way <+: x.1 → way ≠ x.1 → fs.entry? way = some .folder

/-- From the place `top` names lead down, through folders, to the place with the last of them. What
is there is left open. -/
structure LeadsDown (fs : FileStore) (top names : List Text) : Prop where
  plain : parentName ∉ names
  folders : ∀ way, way <+: names → way ≠ names → fs.entry? (top ++ way) = some .folder

variable {fs : FileStore} {top names rel done rest : List Text} {p : Path} {n : Text} {e : Entry}

/-! ## Ways down -/

theorem leadsDown_nil (fs : FileStore) (top : List Text) : fs.LeadsDown top [] :=
  ⟨List.not_mem_nil, fun _ way other => absurd (List.prefix_nil.1 way) other⟩

theorem leadsDown_cons_iff : fs.LeadsDown top (n :: names) ↔
    n ≠ parentName ∧ fs.entry? top = some .folder ∧ fs.LeadsDown (top ++ [n]) names := by
  constructor
  · rintro ⟨plain, folders⟩
    rw [List.mem_cons, not_or] at plain
    refine ⟨Ne.symm plain.1, ?_, plain.2, fun way below other => ?_⟩
    · simpa using folders [] (List.nil_prefix) (List.cons_ne_nil n names).symm
    · rw [List.append_assoc]
      exact folders (n :: way) ((List.prefix_cons_inj n).2 below) fun same =>
        other (List.cons.inj same).2
  · rintro ⟨other, folder, plain, folders⟩
    refine ⟨by simp [Ne.symm other, plain], fun way below differs => ?_⟩
    cases way with
    | nil => simpa using folder
    | cons m way =>
      obtain ⟨rfl, inside⟩ := List.cons_prefix_cons.1 below
      have inner := folders way inside fun same => differs (same ▸ rfl)
      rwa [List.append_assoc] at inner

theorem leadsDown_append_iff : fs.LeadsDown top (names ++ rest) ↔
    fs.LeadsDown top names ∧ fs.LeadsDown (top ++ names) rest ∧
      (rest ≠ [] → fs.entry? (top ++ names) = some .folder) := by
  induction names generalizing top with
  | nil =>
    simp only [List.nil_append, List.append_nil, leadsDown_nil, true_and]
    refine ⟨fun down => ⟨down, fun some => ?_⟩, And.left⟩
    simpa using down.folders [] List.nil_prefix some.symm
  | cons n names ih =>
    rw [List.cons_append, leadsDown_cons_iff, leadsDown_cons_iff, ih, List.append_assoc,
      List.singleton_append, and_assoc, and_assoc]

/-- The way to an entry of a tree leads through folders. -/
theorem IsTree.leadsDown (tree : fs.IsTree) (found : (fs.entry? names).isSome) :
    fs.LeadsDown [] names := by
  by_cases root : names = []
  · exact root ▸ leadsDown_nil fs []
  · rw [entry?_of_ne_nil root] at found
    obtain ⟨e, he⟩ := Option.isSome_iff_exists.1 found
    have mem := mem_of_lookup? he
    exact ⟨tree.names _ mem, tree.above _ mem⟩

/-- The folders above an entry can be counted off. -/
theorem IsTree.of_take (distinct : (fs.entries.map Prod.fst).Nodup)
    (names : ∀ x ∈ fs.entries, parentName ∉ x.1)
    (above : ∀ x ∈ fs.entries, ∀ i < x.1.length, fs.entry? (x.1.take i) = some .folder) :
    fs.IsTree := by
  refine ⟨distinct, names, fun x hx way below other => ?_⟩
  rw [List.prefix_iff_eq_take.1 below]
  refine above x hx _ (Nat.lt_of_le_of_ne below.length_le fun same => ?_)
  exact other (below.eq_of_length same)

/-! ## Following ways -/

/-- Names that lead down are followed one by one. A link at their end has to be left out, or not to
be gone through. -/
theorem advance_of_leadsDown {throughLast : Bool} (down : fs.LeadsDown done rest)
    (stays : throughLast = true → ∀ target, fs.entry? (done ++ rest) ≠ some (.link target)) :
    fs.advance throughLast done rest = .arrived (done ++ rest) := by
  induction rest generalizing done with
  | nil => rw [advance, List.append_nil]
  | cons n rest ih =>
    obtain ⟨other, -, down⟩ := leadsDown_cons_iff.1 down
    have split : done ++ n :: rest = done ++ [n] ++ rest := by simp
    have on := ih down (split ▸ stays)
    rw [advance, if_neg other, split]
    cases rest with
    | cons m rest =>
      obtain ⟨-, folder, -⟩ := leadsDown_cons_iff.1 down
      rw [folder]
      exact on
    | nil =>
      rw [List.append_nil] at on ⊢
      cases found : fs.entry? (done ++ [n]) with
      | none => rfl
      | some e =>
        cases e with
        | file => rfl
        | folder => exact on
        | link target =>
          cases throughLast with
          | true => exact absurd found (stays rfl target)
          | false => rfl

/-- A path from the root leads to the place that its names say, if they lead down to it. -/
theorem locate_of_leadsDown (absolute : p.isAbsolute = true) (down : fs.LeadsDown [] p.names)
    (stays : ∀ target, fs.entry? p.names ≠ some (.link target)) : fs.locate p = .ok p.names := by
  rw [locate, fullNames, if_pos absolute]
  unfold locateFrom
  rw [advance_of_leadsDown down fun _ => stays]
  rfl

theorem locateLink_of_leadsDown (absolute : p.isAbsolute = true)
    (down : fs.LeadsDown [] p.names) : fs.locateLink p = .ok p.names := by
  rw [locateLink, fullNames, if_pos absolute]
  unfold locateFrom
  rw [advance_of_leadsDown down (fun through => absurd through (by simp))]
  rfl

/-- Names that lead to a folder without a link on the way lead on from there. -/
theorem advance_append {throughLast : Bool} (arrived : fs.advance true done names = .arrived top)
    (folder : fs.entry? top = some .folder) (rest : List Text) :
    fs.advance throughLast done (names ++ rest) = fs.advance throughLast top rest := by
  induction names generalizing done with
  | nil =>
    rw [advance] at arrived
    rw [Walk.arrived.inj arrived, List.nil_append]
  | cons n names ih =>
    rw [advance] at arrived
    rw [List.cons_append, advance]
    split at arrived
    · rename_i up
      rw [if_pos up]
      exact ih arrived
    · rename_i other
      rw [if_neg other]
      split at arrived
      · rename_i missing
        split at arrived
        · rw [← Walk.arrived.inj arrived, missing] at folder
          cases folder
        · cases arrived
      · exact ih arrived
      · rename_i found
        split at arrived
        · rw [← Walk.arrived.inj arrived, found] at folder
          cases folder
        · cases arrived
      · split at arrived
        · rename_i last
          exact absurd last.2 (by simp)
        · cases arrived

/-- Names that lead up to a link lead up to it with more names behind them. -/
theorem advance_append_of_jump {throughLast : Bool} {done' rest' : List Text}
    (jump : fs.advance true done names = .jump done' rest')
    (more : throughLast = true ∨ rest ≠ []) :
    fs.advance throughLast done (names ++ rest) = .jump done' (rest' ++ rest) := by
  induction names generalizing done with
  | nil =>
    rw [advance] at jump
    cases jump
  | cons n names ih =>
    rw [advance] at jump
    rw [List.cons_append, advance]
    split at jump
    · rename_i up
      rw [if_pos up]
      exact ih jump
    · rename_i other
      rw [if_neg other]
      split at jump
      · split at jump <;> cases jump
      · exact ih jump
      · split at jump <;> cases jump
      · split at jump
        · cases jump
        · obtain ⟨rfl, rfl⟩ := Walk.jump.inj jump
          have through : ¬ (names ++ rest = [] ∧ (!throughLast) = true) := by
            rcases more with through | some <;> simp [*]
          rw [if_neg through, List.append_assoc]

/-- Names that go on from names that lead to a folder are followed from there. -/
theorem locateFrom_append {throughLast : Bool} {links : Nat}
    (located : fs.locateFrom true links done names = .ok top)
    (folder : fs.entry? top = some .folder) (down : fs.LeadsDown top rel)
    (stays : throughLast = true → ∀ target, fs.entry? (top ++ rel) ≠ some (.link target))
    (more : throughLast = true ∨ rel ≠ []) :
    fs.locateFrom throughLast links done (names ++ rel) = .ok (top ++ rel) := by
  -- by induction on the number of links that may still be gone through
  induction links generalizing done names with
  | zero =>
    unfold locateFrom at located ⊢
    split at located
    · rename_i arrived
      obtain rfl := Except.ok.inj located
      rw [advance_append arrived folder, advance_of_leadsDown down stays]
    · cases located
    · cases located
  | succ links ih =>
    unfold locateFrom at located ⊢
    split at located
    · rename_i arrived
      obtain rfl := Except.ok.inj located
      rw [advance_append arrived folder, advance_of_leadsDown down stays]
    · cases located
    · rename_i jump
      rw [advance_append_of_jump jump more]
      exact ih located

theorem fullNames_append (fs : FileStore) (p : Path) (rel : List Text) :
    fs.fullNames ⟨p.anchor, p.names ++ rel⟩ = fs.fullNames p ++ rel := by
  unfold fullNames Path.isAbsolute
  split <;> simp

/-- **A path that goes on from one that leads to a folder** leads to the place with the names of
both, if its own names lead down to it. -/
theorem locate_append (located : fs.locate p = .ok top) (folder : fs.entry? top = some .folder)
    (down : fs.LeadsDown top rel) (stays : ∀ target, fs.entry? (top ++ rel) ≠ some (.link target)) :
    fs.locate ⟨p.anchor, p.names ++ rel⟩ = .ok (top ++ rel) := by
  rw [locate, fullNames_append]
  exact locateFrom_append located folder down (fun _ => stays) (Or.inl rfl)

theorem locateLink_append (located : fs.locate p = .ok top) (folder : fs.entry? top = some .folder)
    (down : fs.LeadsDown top rel) (some : rel ≠ []) :
    fs.locateLink ⟨p.anchor, p.names ++ rel⟩ = .ok (top ++ rel) := by
  rw [locateLink, fullNames_append]
  exact locateFrom_append located folder down (fun through => absurd through (by simp))
    (Or.inr some)

/-! ## The number of places on a way -/

/-- Each place on a way is an entry. -/
theorem length_le_of_leadsDown (down : fs.LeadsDown [] names) (found : (fs.entry? names).isSome) :
    names.length ≤ fs.entries.length := by
  have places : ∀ i < names.length, names.take (i + 1) ∈ fs.entries.map Prod.fst := by
    intro i hi
    have there : (fs.entry? (names.take (i + 1))).isSome := by
      by_cases whole : names.take (i + 1) = names
      · rwa [whole]
      · have folder := down.folders _ (List.take_prefix (i + 1) names) whole
        rw [List.nil_append] at folder
        rw [folder]
        rfl
    have some : names.take (i + 1) ≠ [] := by
      rw [Ne, List.take_eq_nil_iff, not_or]
      exact ⟨Nat.succ_ne_zero i, List.ne_nil_of_length_pos (by omega)⟩
    rw [entry?_of_ne_nil some] at there
    obtain ⟨e, he⟩ := Option.isSome_iff_exists.1 there
    exact List.mem_map_of_mem (mem_of_lookup? he)
  have distinct : ((List.range names.length).map fun i => names.take (i + 1)).Nodup := by
    refine List.Nodup.map_on (fun i hi j hj same => ?_) List.nodup_range
    have lengths := congrArg List.length same
    rw [List.mem_range] at hi hj
    simp only [List.length_take] at lengths
    omega
  have within : (List.range names.length).map (fun i => names.take (i + 1)) ⊆
      fs.entries.map Prod.fst := by
    intro way hway
    obtain ⟨i, hi, rfl⟩ := List.mem_map.1 hway
    exact places i (List.mem_range.1 hi)
  simpa using (distinct.subperm within).length_le

/-! ## What is listed in a folder -/

theorem mem_keys_iff (hne : names ≠ []) :
    names ∈ fs.entries.map Prod.fst ↔ (fs.entry? names).isSome := by
  rw [entry?_of_ne_nil hne, isSome_lookup?_iff]

/-- The names that are listed in a folder are those of the entries in it. -/
theorem mem_list_iff (located : fs.locate p = .ok names) :
    n ∈ fs.list p ↔ (fs.entry? (names ++ [n])).isSome := by
  rw [← mem_keys_iff (by simp)]
  simp only [list, located, namesIn, sortTexts, mem_sortBy, List.mem_filterMap, List.mem_map]
  constructor
  · rintro ⟨x, hx, found⟩
    split at found
    · rename_i inside
      refine ⟨x, hx, ?_⟩
      rw [← List.dropLast_append_getLast? n found, inside.2]
    · cases found
  · rintro ⟨x, hx, same⟩
    exact ⟨x, hx, by simp [same]⟩

/-- The names in a folder of a tree are in order, and each is listed once. -/
theorem IsTree.list_pairwise (tree : fs.IsTree) (p : Path) :
    (fs.list p).Pairwise fun a b => Text.precedes a b = true ∧ a ≠ b := by
  unfold list
  cases fs.locate p with
  | error problem => exact List.Pairwise.nil
  | ok names =>
    have distinct : (fs.entries.filterMap fun x =>
        if x.1 ≠ [] ∧ x.1.dropLast = names then x.1.getLast? else none).Nodup := by
      refine List.Pairwise.filterMap _ (fun x y other a ha b hb => ?_)
        (List.pairwise_map.1 tree.distinct)
      -- in one folder, entries of one name have the same full name
      rintro rfl
      split at ha <;> split at hb
      · rename_i first second
        refine other ?_
        rw [← List.dropLast_append_getLast? a (Option.mem_def.2 ha),
          ← List.dropLast_append_getLast? a (Option.mem_def.2 hb), first.2, second.2]
      all_goals contradiction
    exact (sortTexts_pairwise _).and ((sortBy_perm _ _).nodup_iff.2 distinct)

end FileStore

end Modulize
