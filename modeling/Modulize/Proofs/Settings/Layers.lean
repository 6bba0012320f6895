import Modulize.Proofs.Collections
import Modulize.Settings.Defaults

/-!
# Which layer of settings wins

A leaf is a value at a path of keys that is no table (`Value.leaf?`). A value settles a path if it
has anything there, or a leaf on the way (`Value.Settles`). A table that is put over another one
decides at the paths that it settles, and leaves the others as they are (`Value.leaf?_overlay`).

Of several layers, the leaf prevails that no higher layer settles (`Settings.Prevails`). These are
the leaves of the stack of all layers (`Settings.stack_prevailing`), apart from the groups of files:
they come as a whole from the highest layer that gives any (`Settings.givenGroups?`).
-/

namespace Modulize

namespace Value

/-- The value has no keys. -/
def isLeaf : Value → Bool
  | table _ | pairs _ => false
  | _ => true

/-- The value at a path of keys, if it has no keys itself. -/
def leaf? (path : List Text) (v : Value) : Option Value := (v.at? path).filter isLeaf

/-- There is a value at a path, or a leaf at a proper beginning of it. -/
def Settles (v : Value) (path : List Text) : Prop :=
  (v.at? path).isSome ∨ ∃ start, start <+: path ∧ start ≠ path ∧ (v.leaf? start).isSome

mutual

/-- All keys are texts, and those of one table differ from each other. -/
def isKeyed : Value → Bool
  | table entries => decide (entries.map Prod.fst).Nodup && areKeyed entries
  | pairs _ => false
  | _ => true

/-- All keys of the values in a table are texts, and those of one table differ from each other. -/
def areKeyed : List (Text × Value) → Bool
  | [] => true
  | (_, v) :: rest => v.isKeyed && areKeyed rest

end

variable {u v w : Value} {k : Text} {path : List Text} {entries below : Table}

theorem areKeyed_iff : areKeyed entries = true ↔ ∀ e ∈ entries, e.2.isKeyed = true := by
  induction entries with
  | nil => simp [areKeyed]
  | cons e entries ih => rw [areKeyed, Bool.and_eq_true, ih, List.forall_mem_cons]

theorem isKeyed_table : (table entries).isKeyed = true ↔
    (entries.map Prod.fst).Nodup ∧ ∀ e ∈ entries, e.2.isKeyed = true := by
  rw [isKeyed, Bool.and_eq_true, decide_eq_true_iff, areKeyed_iff]

theorem isKeyed_filter (keyed : (table entries).isKeyed = true) (p : Text × Value → Bool) :
    (table (entries.filter p)).isKeyed = true := by
  obtain ⟨distinct, rest⟩ := isKeyed_table.1 keyed
  exact isKeyed_table.2 ⟨distinct.sublist (List.filter_sublist.map Prod.fst),
    fun e he => rest e (List.mem_filter.1 he).1⟩

/-! ## Leaves -/

theorem leaf?_nil (v : Value) : v.leaf? [] = if v.isLeaf then some v else none := by
  cases v <;> rfl

theorem leaf?_cons (k : Text) (path : List Text) (v : Value) :
    v.leaf? (k :: path) = (v.get? k).bind (leaf? path) := by
  rw [leaf?, at?]
  cases v.get? k <;> rfl

theorem settles_nil (v : Value) : v.Settles [] := Or.inl rfl

theorem settles_cons_iff :
    v.Settles (k :: path) ↔ v.isLeaf = true ∨ ∃ w, v.get? k = some w ∧ w.Settles path := by
  constructor
  · rintro (there | ⟨start, ⟨rest, whole⟩, proper, leaf⟩)
    · obtain ⟨w, hw, there⟩ : ∃ w, v.get? k = some w ∧ (w.at? path).isSome := by
        simpa [at?, Option.isSome_bind, Option.any_eq_true] using there
      exact Or.inr ⟨w, hw, Or.inl there⟩
    · cases start with
      | nil => exact Or.inl (by simpa [leaf?_nil] using leaf)
      | cons k' start =>
        obtain ⟨rfl, rfl⟩ := List.cons.inj whole
        rw [leaf?_cons] at leaf
        obtain ⟨w, hw, leaf⟩ : ∃ w, v.get? k' = some w ∧ (w.leaf? start).isSome := by
          simpa [Option.isSome_bind, Option.any_eq_true] using leaf
        exact Or.inr ⟨w, hw,
          Or.inr ⟨start, List.prefix_append _ _, fun same => proper (by rw [← same]), leaf⟩⟩
  · rintro (leaf | ⟨w, hw, there | ⟨start, initial, proper, leaf⟩⟩)
    · exact Or.inr ⟨[], List.nil_prefix, by simp, by simp [leaf?_nil, leaf]⟩
    · exact Or.inl (by simpa [at?, hw] using there)
    · refine Or.inr ⟨k :: start, List.cons_prefix_cons.2 ⟨rfl, initial⟩, by simpa using proper, ?_⟩
      simpa [leaf?_cons, hw] using leaf

/-- Leaves below a key only depend on what stands under the key. -/
theorem leaf?_congr {entries' : Table} (same : lookup? k entries = lookup? k entries') :
    (table entries).leaf? (k :: path) = (table entries').leaf? (k :: path) := by
  rw [leaf?_cons, leaf?_cons, get?, get?, same]

theorem settles_congr {entries' : Table} (same : lookup? k entries = lookup? k entries') :
    (table entries).Settles (k :: path) ↔ (table entries').Settles (k :: path) := by
  simp only [settles_cons_iff, isLeaf, get?, same]

/-! ## A value over another -/

/-- What stands under a key of two tables, one of which has been put over the other. -/
theorem lookup?_overlayEntries (distinct : (entries.map Prod.fst).Nodup) (k : Text) :
    lookup? k (overlayEntries below entries) = (lookup? k entries).elim (lookup? k below)
      fun v => some ((lookup? k below).elim v fun b => overlay b v) := by
  induction entries generalizing below with
  | nil => rfl
  | cons e entries ih =>
    obtain ⟨k', v⟩ := e
    obtain ⟨new, distinct⟩ := List.nodup_cons.1 distinct
    rw [overlayEntries, ih distinct, lookup?, lookup?_assign]
    by_cases same : k' = k
    · -- the key has just been assigned, and does not come again
      subst same
      rw [lookup?_eq_none new, if_pos rfl, if_pos rfl, Option.elim_none, Option.elim_some]
      cases lookup? k' below <;> rfl
    · rw [if_neg same, if_neg same]

theorem overlay_of_isLeaf (h : w.isLeaf = true) (v : Value) : overlay v w = w := by
  cases w with
  | table => cases h
  | pairs => cases h
  | _ => rfl

/-- A value in place of one that has no leaf where the upper one leaves a path open. -/
theorem leaf?_of_replaced (same : overlay v w = w)
    (gone : v.leaf? path = some u → w.Settles path) : (overlay v w).leaf? path = some u ↔
      w.leaf? path = some u ∨ ¬ w.Settles path ∧ v.leaf? path = some u := by
  rw [same]
  exact ⟨Or.inl, fun h => h.elim id fun ⟨free, leaf⟩ => absurd (gone leaf) free⟩

/-- **The leaves of a value over another**: the upper value decides where it settles the path, and
the lower one elsewhere. -/
theorem leaf?_overlay (keyed : w.isKeyed = true) : (overlay v w).leaf? path = some u ↔
      w.leaf? path = some u ∨ ¬ w.Settles path ∧ v.leaf? path = some u := by
  induction path generalizing v w with
  | nil =>
    have settled := settles_nil w
    cases w with
    | table entries => cases v <;> simp [leaf?_nil, overlay, isLeaf, settled]
    | pairs => cases keyed
    | _ => exact leaf?_of_replaced rfl fun _ => settled
  | cons k path ih =>
    by_cases leaf : w.isLeaf = true
    · exact leaf?_of_replaced (overlay_of_isLeaf leaf v) fun _ => settles_cons_iff.2 (Or.inl leaf)
    cases w with
    | table entries =>
      cases v with
      | table below =>
        obtain ⟨distinct, members⟩ := isKeyed_table.1 keyed
        rw [overlay, leaf?_cons, leaf?_cons, leaf?_cons, settles_cons_iff]
        simp only [get?, lookup?_overlayEntries distinct, isLeaf, Bool.false_eq_true, false_or]
        cases upper : lookup? k entries with
        | none => simp
        | some w =>
          have keyed : w.isKeyed = true := members _ (mem_of_lookup? upper)
          cases lower : lookup? k below with
          | none => simp
          | some b => simpa using ih keyed
      | _ => exact leaf?_of_replaced rfl fun h => by simp [leaf?_cons, get?] at h
    | pairs => cases keyed
    | _ => exact absurd rfl leaf

end Value

namespace Settings

open Value

variable {below layer s defaults file commandLine : Table} {k : Text} {path : List Text} {v : Value}

/-! ## Groups of files -/

/-- The groups of files that a layer gives. -/
def givenGroups? (layer : Table) : Option Value :=
  match lookup? groupsKey layer with
  | none | some .null => none
  | some groups => some groups

/-- The entries of a layer over those below it, apart from the groups of files. -/
def merged (below layer : Table) : Table :=
  overlayEntries below (layer.filter (·.1 ≠ groupsKey))

theorem addLayer_of_none (none_given : givenGroups? layer = none) :
    addLayer below layer = .ok (merged below layer) := by
  rw [givenGroups?] at none_given
  rw [addLayer]
  cases there : lookup? groupsKey layer with
  | none => rfl
  | some groups =>
    rw [there] at none_given
    cases groups with
    | null => rfl
    | _ => cases none_given

theorem addLayer_of_some {groups : Value} (given : givenGroups? layer = some groups) :
    addLayer below layer = match groups.asTable with
      | .ok t => .ok (assign groupsKey t (merged below layer))
      | .error problem => .error (.badGroups problem) := by
  rw [givenGroups?] at given
  rw [addLayer]
  cases there : lookup? groupsKey layer with
  | none =>
    rw [there] at given
    cases given
  | some g =>
    rw [there] at given
    cases g with
    | null => cases given
    | _ =>
      obtain rfl := Option.some.inj given
      rfl

/-- **What a layer does to the groups of files**: its own groups, as a table, replace them. -/
theorem addLayer_eq_ok_iff : addLayer below layer = .ok s ↔
    (givenGroups? layer = none ∧ s = merged below layer) ∨
      ∃ groups t, givenGroups? layer = some groups ∧ groups.asTable = .ok t ∧
        s = assign groupsKey t (merged below layer) := by
  cases given : givenGroups? layer with
  | none => simp [addLayer_of_none given, eq_comm]
  | some groups =>
    rw [addLayer_of_some given]
    cases e : groups.asTable <;> simp [e, eq_comm]

theorem exists_addLayer_iff (below : Table) : (∃ s, addLayer below layer = .ok s) ↔
    ∀ groups, givenGroups? layer = some groups → ∃ t, groups.asTable = .ok t := by
  cases given : givenGroups? layer with
  | none => simp [addLayer_of_none given]
  | some groups =>
    rw [addLayer_of_some given]
    cases e : groups.asTable <;> simp [e]

/-- A layer leaves the groups of files alone, or replaces all of them. -/
theorem lookup?_groups_addLayer (keyed : (table layer).isKeyed = true)
    (h : addLayer below layer = .ok s) :
    (givenGroups? layer = none ∧ lookup? groupsKey s = lookup? groupsKey below) ∨
      ∃ groups t, givenGroups? layer = some groups ∧ groups.asTable = .ok t ∧
        lookup? groupsKey s = some t := by
  obtain ⟨absent, rfl⟩ | ⟨groups, t, given, made, rfl⟩ := addLayer_eq_ok_iff.1 h
  · have gone : lookup? groupsKey (layer.filter (·.1 ≠ groupsKey)) = none :=
      lookup?_eq_none (by simp)
    have distinct := (isKeyed_table.1 (isKeyed_filter keyed (·.1 ≠ groupsKey))).1
    exact Or.inl ⟨absent, by rw [merged, lookup?_overlayEntries distinct, gone, Option.elim_none]⟩
  · exact Or.inr ⟨groups, t, given, made, by rw [lookup?_assign, if_pos rfl]⟩

/-! ## Leaves of several layers -/

theorem lookup?_addLayer_of_ne (h : addLayer below layer = .ok s) (other : k ≠ groupsKey) :
    lookup? k s = lookup? k (merged below layer) := by
  obtain ⟨-, rfl⟩ | ⟨-, -, -, -, rfl⟩ := addLayer_eq_ok_iff.1 h
  · rfl
  · rw [lookup?_assign, if_neg other.symm]

/-- **The leaves of a layer over others**: the layer decides where it settles the path. -/
theorem leaf?_addLayer (keyed : (table layer).isKeyed = true) (h : addLayer below layer = .ok s)
    (outside : path.head? ≠ some groupsKey) : (table s).leaf? path = some v ↔
      (table layer).leaf? path = some v ∨
        ¬ (table layer).Settles path ∧ (table below).leaf? path = some v := by
  cases path with
  | nil => simp [leaf?_nil, isLeaf]
  | cons k path =>
    have other : k ≠ groupsKey := fun same => outside (congrArg some same)
    have same : lookup? k (layer.filter (·.1 ≠ groupsKey)) = lookup? k layer :=
      lookup?_filter_ne other layer
    rw [leaf?_congr (lookup?_addLayer_of_ne h other), ← settles_congr same, ← leaf?_congr same]
    exact leaf?_overlay (v := table below) (isKeyed_filter keyed _)

/-- A leaf of one of the layers, the highest of which stands last, at a path that no higher one
settles. -/
def Prevails (layers : List Table) (path : List Text) (v : Value) : Prop :=
  ∃ below layer above, layers = below ++ layer :: above ∧ (table layer).leaf? path = some v ∧
    ∀ higher ∈ above, ¬ (table higher).Settles path

theorem prevails_append {lower upper : List Table} :
    Prevails (lower ++ upper) path v ↔ Prevails upper path v ∨
      (∀ higher ∈ upper, ¬ (table higher).Settles path) ∧ Prevails lower path v := by
  constructor
  · rintro ⟨below, layer, above, whole, leaf, free⟩
    obtain ⟨below, rfl, rfl⟩ | ⟨rest, rfl, split⟩ := List.append_eq_append_iff.1 whole
    · exact Or.inl ⟨below, layer, above, rfl, leaf, free⟩
    · cases rest with
      | nil => exact Or.inl ⟨[], layer, above, split.symm, leaf, free⟩
      | cons layer' rest =>
        obtain ⟨rfl, rfl⟩ := List.cons.inj split
        obtain ⟨lowerFree, upperFree⟩ := List.forall_mem_append.1 free
        exact Or.inr ⟨upperFree, below, layer, rest, rfl, leaf, lowerFree⟩
  · rintro (⟨below, layer, above, rfl, leaf, free⟩ | ⟨upperFree, below, layer, above, rfl, leaf,
      free⟩)
    · exact ⟨lower ++ below, layer, above, by simp, leaf, free⟩
    · exact ⟨below, layer, above ++ upper, by simp, leaf,
        List.forall_mem_append.2 ⟨free, upperFree⟩⟩

theorem prevails_singleton : Prevails [layer] path v ↔ (table layer).leaf? path = some v := by
  constructor
  · rintro ⟨below, layer', above, split, leaf, -⟩
    cases below with
    | nil =>
      obtain ⟨rfl, -⟩ := List.cons.inj split
      exact leaf
    | cons => simp at split
  · exact fun leaf => ⟨[], layer, [], rfl, leaf, by simp⟩

/-- A layer has no say at a path that a higher one settles. -/
theorem prevails_of_settled {lower upper : List Table}
    (settled : ∃ higher ∈ upper, (table higher).Settles path) :
    Prevails (lower ++ upper) path v ↔ Prevails upper path v := by
  obtain ⟨higher, mem, settles⟩ := settled
  rw [prevails_append]
  exact or_iff_left fun ⟨free, _⟩ => free higher mem settles

theorem stack_eq_ok_iff : stack defaults file commandLine = .ok s ↔
    ∃ t, addLayer defaults file = .ok t ∧ addLayer t commandLine = .ok s := by
  rw [stack]
  cases addLayer defaults file <;> simp [bind, Except.bind]

theorem exists_stack_iff : (∃ s, stack defaults file commandLine = .ok s) ↔
    ∀ layer ∈ [file, commandLine],
      ∀ groups, givenGroups? layer = some groups → ∃ t, groups.asTable = .ok t := by
  rw [List.forall_mem_cons, List.forall_mem_singleton, ← exists_addLayer_iff defaults]
  simp only [stack_eq_ok_iff]
  constructor
  · rintro ⟨s, t, lower, upper⟩
    exact ⟨⟨t, lower⟩, (exists_addLayer_iff t).1 ⟨s, upper⟩⟩
  · rintro ⟨⟨t, lower⟩, made⟩
    obtain ⟨s, upper⟩ := (exists_addLayer_iff t).2 made
    exact ⟨s, t, lower, upper⟩

/-- The leaves of the stack are those that prevail. -/
theorem leaf?_stack (fileKeyed : (table file).isKeyed = true)
    (commandLineKeyed : (table commandLine).isKeyed = true)
    (h : stack defaults file commandLine = .ok s) (outside : path.head? ≠ some groupsKey) :
    (table s).leaf? path = some v ↔ Prevails [defaults, file, commandLine] path v := by
  obtain ⟨t, lower, upper⟩ := stack_eq_ok_iff.1 h
  rw [leaf?_addLayer commandLineKeyed upper outside, leaf?_addLayer fileKeyed lower outside,
    show [defaults, file, commandLine] = [defaults] ++ [file] ++ [commandLine] from rfl]
  simp only [prevails_append, prevails_singleton, List.forall_mem_singleton]

/-- The groups of files of the stack are those of the highest layer that gives any. -/
theorem lookup?_groups_stack (fileKeyed : (table file).isKeyed = true)
    (commandLineKeyed : (table commandLine).isKeyed = true)
    (h : stack defaults file commandLine = .ok s) :
    match (givenGroups? commandLine).or (givenGroups? file) with
    | none => lookup? groupsKey s = lookup? groupsKey defaults
    | some groups => ∃ t, groups.asTable = .ok t ∧ lookup? groupsKey s = some t := by
  obtain ⟨t, lower, upper⟩ := stack_eq_ok_iff.1 h
  obtain ⟨absent, same⟩ | ⟨groups, t', given, made, there⟩ :=
    lookup?_groups_addLayer commandLineKeyed upper
  · rw [absent, Option.none_or, same]
    obtain ⟨absent, same⟩ | ⟨groups, t', given, made, there⟩ :=
      lookup?_groups_addLayer fileKeyed lower
    · rw [absent]
      exact same
    · rw [given]
      exact ⟨t', made, there⟩
  · rw [given, Option.some_or]
    exact ⟨t', made, there⟩

/-- **Which layer of settings wins.** The stack of layers is there exactly if the groups of files of
each layer over the defaults make a table. Apart from these groups, its leaves are those that no
higher layer settles; where one does, the layers below have no say. The groups are those of the
highest layer that gives any: a table as it is, and pairs as the table that they make. -/
theorem stack_prevailing (fileKeyed : (table file).isKeyed = true)
    (commandLineKeyed : (table commandLine).isKeyed = true) :
    ((∃ s, stack defaults file commandLine = .ok s) ↔ ∀ layer ∈ [file, commandLine],
      ∀ groups, givenGroups? layer = some groups → ∃ t, groups.asTable = .ok t) ∧
    ∀ s, stack defaults file commandLine = .ok s →
      (∀ path, path.head? ≠ some groupsKey →
        (∀ v, (table s).leaf? path = some v ↔ Prevails [defaults, file, commandLine] path v) ∧
        ∀ lower upper, [defaults, file, commandLine] = lower ++ upper →
          (∃ higher ∈ upper, (table higher).Settles path) →
            ∀ v, (table s).leaf? path = some v ↔ Prevails upper path v) ∧
      match (givenGroups? commandLine).or (givenGroups? file) with
      | none => lookup? groupsKey s = lookup? groupsKey defaults
      | some (.table groups) => lookup? groupsKey s = some (.table groups)
      | some groups => ∃ t, groups.asTable = .ok t ∧ lookup? groupsKey s = some t := by
  refine ⟨exists_stack_iff, fun s h => ⟨fun path outside => ?_, ?_⟩⟩
  · have leaves (v : Value) := leaf?_stack fileKeyed commandLineKeyed h outside (v := v)
    refine ⟨leaves, fun lower upper split settled v => ?_⟩
    rw [leaves, split]
    exact prevails_of_settled settled
  · have whole := lookup?_groups_stack fileKeyed commandLineKeyed h
    generalize (givenGroups? commandLine).or (givenGroups? file) = given at whole ⊢
    split at whole
    · exact whole
    · obtain ⟨t, made, there⟩ := whole
      split
      · contradiction
      case h_2 entries same =>
        obtain rfl := Option.some.inj same
        rw [there, ← Except.ok.inj made]
      case h_3 same =>
        obtain rfl := Option.some.inj same
        exact ⟨t, made, there⟩

/-- The settings file puts a text in place of a table, and the command line a table in place of the
text; both the defaults and the settings file give groups of files. -/
theorem stack_prevailing_replaced_twice :
    let defaults : Table :=
      [("reader", .table [("a", .number 1), ("b", .number 2)]),
        (groupsKey, .table [("x", .list [])])]
    let file : Table := [("reader", .text "off"), (groupsKey, .table [("y", .list [])])]
    let commandLine : Table := [("reader", .table [("b", .number 3)]), (groupsKey, .null)]
    (table file).isKeyed = true ∧ (table commandLine).isKeyed = true ∧
      ∃ s, stack defaults file commandLine = .ok s ∧
        (table s).leaf? ["reader", "b"] = some (.number 3) ∧
        (∀ v, (table s).leaf? ["reader", "a"] = some v ↔
          Prevails [file, commandLine] ["reader", "a"] v) ∧
        lookup? groupsKey s = some (.table [("y", .list [])]) := by
  intro defaults file commandLine
  have fileKeyed : (table file).isKeyed = true := by decide
  have commandLineKeyed : (table commandLine).isKeyed = true := by decide
  let s : Table := [("reader", .table [("b", .number 3)]), (groupsKey, .table [("y", .list [])])]
  have h : stack defaults file commandLine = .ok s := rfl
  obtain ⟨leaves, groups⟩ := (stack_prevailing fileKeyed commandLineKeyed).2 s h
  refine ⟨fileKeyed, commandLineKeyed, s, h, ?_, fun v => ?_, groups⟩
  · exact ((leaves _ (by decide)).1 _).2 ⟨[defaults, file], commandLine, [], rfl, rfl, by simp⟩
  · exact (leaves _ (by decide)).2 [defaults] [file, commandLine] rfl
      ⟨file, by simp, Or.inr ⟨["reader"], by simp, by simp, rfl⟩⟩ v

end Settings

end Modulize
