import Modulize.Proofs.Collections
import Modulize.Toml.Statement

/-!
# What the sections of a settings file say

Entries go to the table that is open (`Opens`), one after another (`foldlM_entries`). A section
(`sectionOf`) is a header with its entries; it adds a table under its name (`foldlM_sectionOf`).
The members of a list of tables (`membersOf`) have a header each, and go to the list
(`foldlM_membersOf`); `foldlM_lists` is about a section that consists of two such lists.

What may stand in the way of a section are names that have been used, tables that have been opened
before and values that were written as a whole. Between two sections all of these lie below the
names of the sections so far (`IsBetween`).
-/

namespace Modulize.Toml

/-! ## Paths into a table -/

/-- Along a path from a table `t` one comes to the table `inner`; with something else in its place
`t` becomes what `put` says. -/
def Reaches (path : List Text) (t inner : Table) (put : Table → Table) : Prop :=
  ∀ f : Table → Option Table, within true f path t = (f inner).map put

/-- At a path stands the table that `put` puts there. -/
def Opens (path : List Text) (put : Table → Table) : Prop :=
  ∀ inner, Reaches path (put inner) inner put

theorem within_append (f : Table → Option Table) (path keys : List Text) (t : Table) :
    within true f (path ++ keys) t = within true (within true f keys) path t := by
  induction path generalizing t with
  | nil => rfl
  | cons k path ih =>
    rw [List.cons_append, within.eq_def, within.eq_def]
    simp only [ih]

theorem opens_nil : Opens [] id := by
  intro inner f
  exact (Option.map_id' ..).symm

section

variable {k : Text} {t : Table}

theorem reaches_fresh (fresh : k ∉ t.map Prod.fst) :
    Reaches [k] t [] fun inner => t ++ [(k, .table inner)] := by
  intro f
  simp only [within, lookup?_eq_none fresh]
  cases f [] with
  | none => rfl
  | some inner => simp [assign_eq_append fresh]

/-- A table under a new key is open. -/
theorem opens_last (fresh : k ∉ t.map Prod.fst) :
    Opens [k] fun inner => t ++ [(k, .table inner)] := by
  intro inner f
  simp only [within, lookup?_append_last fresh]
  cases f inner with
  | none => rfl
  | some inner' => simp [assign_append fresh]

/-- Of a list under a new key the last member is open. -/
theorem opens_lastMember (fresh : k ∉ t.map Prod.fst) (items : List Value) :
    Opens [k] fun inner => t ++ [(k, .list (items ++ [.table inner]))] := by
  intro inner f
  simp only [within, lookup?_append_last fresh, List.getLast?_concat, List.dropLast_concat]
  cases f inner with
  | none => rfl
  | some inner' => simp [assign_append fresh]

theorem Opens.comp {path keys : List Text} {put place : Table → Table} (outer : Opens path put)
    (inner : Opens keys place) : Opens (path ++ keys) (put ∘ place) := by
  intro t f
  rw [within_append, Function.comp, outer, inner, Option.map_map]

end

/-! ## Entries -/

/-- The entries of a table as statements. -/
def entriesOf (es : Table) : List Statement := es.map fun (k, v) => .entry [k] v

/-- The paths of what is written as a whole among entries at a path, the last one first. -/
def wholePaths (path : List Text) (es : Table) : List (List Text) :=
  (es.reverse.filter fun e => isWhole e.2).map fun e => path ++ [e.1]

theorem wholePaths_eq_nil {es : Table} (simple : ∀ e ∈ es, isWhole e.2 = false)
    (path : List Text) : wholePaths path es = [] := by
  rw [wholePaths, List.filter_eq_nil_iff.2 (by simpa using simple), List.map_nil]

theorem insertNew_of_fresh {k : Text} {t : Table} (h : k ∉ t.map Prod.fst) (v : Value) :
    insertNew k v t = some (t ++ [(k, v)]) := by
  rw [insertNew, lookup?_eq_none h]

namespace Reading

/-- Nothing that was written as a whole stands in the way. -/
theorem isFrozen_eq_false {r : Reading} {keys : List Text} (h : ∀ p ∈ r.whole, ¬ p <+: keys) :
    r.isFrozen keys = false := by
  rw [isFrozen, List.any_eq_false]
  intro p hp
  rw [List.isPrefixOf_iff_prefix]
  exact h p hp

/-- An entry with a single key goes to the open table. -/
theorem step_entry {r : Reading} {put : Table → Table} {inner : Table} {k : Text} (v : Value)
    (opens : Opens r.current put) (table : r.table = put inner) (fresh : k ∉ inner.map Prod.fst)
    (free : ∀ p ∈ r.whole, ¬ p <+: r.current) :
    r.step (.entry [k] v) = some { r with
      table := put (inner ++ [(k, v)]), whole := wholePaths r.current [(k, v)] ++ r.whole } := by
  have through : passed r.current [k] = [] := rfl
  have base : r.current ++ [k].dropLast = r.current := List.append_nil _
  have inserted : within true (insertNew ([k].getLast?.getD []) v) r.current r.table =
      some (put (inner ++ [(k, v)])) := by
    rw [table, opens]
    exact congrArg (Option.map put) (insertNew_of_fresh fresh v)
  simp only [step, through, base, isFrozen_eq_false free, inserted]
  cases h : isWhole v <;> simp [wholePaths, h]

end Reading

/-- **Entries with different keys are added to the open table.** -/
theorem foldlM_entries {put : Table → Table} (es : Table) {r : Reading} (inner : Table)
    (opens : Opens r.current put) (table : r.table = put inner)
    (distinct : ((inner ++ es).map Prod.fst).Nodup) (free : ∀ p ∈ r.whole, ¬ p <+: r.current) :
    (entriesOf es).foldlM Reading.step r = some { r with
      table := put (inner ++ es), whole := wholePaths r.current es ++ r.whole } := by
  induction es generalizing r inner with
  | nil =>
    rw [List.append_nil, ← table]
    rfl
  | cons e es ih =>
    obtain ⟨k, v⟩ := e
    have fresh := not_mem_of_nodup distinct
    have free₁ : ∀ p ∈ wholePaths r.current [(k, v)] ++ r.whole, ¬ p <+: r.current := by
      intro p hp
      rcases List.mem_append.1 hp with hp | hp
      · obtain ⟨e, -, rfl⟩ := List.mem_map.1 hp
        intro h
        have longer := h.length_le
        rw [List.length_append, List.length_singleton] at longer
        omega
      · exact free p hp
    have rest := ih (r := { r with
        table := put (inner ++ [(k, v)]), whole := wholePaths r.current [(k, v)] ++ r.whole })
      (inner ++ [(k, v)]) opens rfl (by simpa using distinct) free₁
    have paths : wholePaths r.current es ++ wholePaths r.current [(k, v)] =
        wholePaths r.current ((k, v) :: es) := by
      simp [wholePaths]
    simp only [entriesOf, List.map_cons, List.foldlM_cons,
      Reading.step_entry v opens table fresh free, Option.bind_eq_bind, Option.bind_some] at rest ⊢
    rw [rest, ← List.append_assoc, paths]
    simp

/-! ## Between sections -/

/-- Between two sections: the names that have been used so far are among the given ones, what has
been opened lies below them, and what has been written as a whole lies within. -/
structure IsBetween (r : Reading) (names : List Text) : Prop where
  pending : r.pending = []
  keys : r.table.map Prod.fst ⊆ names
  opened : ∀ p ∈ r.opened, ∃ h ∈ names, ∃ rest, p = h :: rest
  whole : ∀ p ∈ r.whole, ∃ h ∈ names, ∃ k rest, p = h :: k :: rest

theorem IsBetween.mono {r : Reading} {names names' : List Text} (between : IsBetween r names)
    (h : names ⊆ names') : IsBetween r names' where
  pending := between.pending
  keys := List.Subset.trans between.keys h
  opened := fun p hp =>
    let ⟨h', hmem, rest⟩ := between.opened p hp
    ⟨h', h hmem, rest⟩
  whole := fun p hp =>
    let ⟨h', hmem, rest⟩ := between.whole p hp
    ⟨h', h hmem, rest⟩

theorem keys_append_subset {names : List Text} {h : Text} {t : Table}
    (keys : t.map Prod.fst ⊆ names) (v : Value) :
    (t ++ [(h, v)]).map Prod.fst ⊆ h :: names := by
  intro k hk
  rw [List.map_append, List.mem_append] at hk
  rcases hk with hk | hk
  · exact List.mem_cons_of_mem _ (keys hk)
  · exact List.mem_singleton.1 hk ▸ List.mem_cons_self

/-- **The entries in front of the first section**, none of them a list. -/
theorem foldlM_start {es : Table} (distinct : (es.map Prod.fst).Nodup)
    (simple : ∀ e ∈ es, isWhole e.2 = false) :
    ∃ r', (entriesOf es).foldlM Reading.step Reading.start = some r' ∧ r'.table = es ∧
      IsBetween r' (es.map Prod.fst) := by
  have entries := foldlM_entries es (r := Reading.start) [] opens_nil rfl distinct
    (by simp [Reading.start])
  rw [wholePaths_eq_nil simple] at entries
  exact ⟨_, entries, rfl, ⟨rfl, List.Subset.refl _, by simp [Reading.start],
    by simp [Reading.start]⟩⟩

/-- A section: a header and its entries. -/
def sectionOf (h : Text) (es : Table) : List Statement := .header [h] :: entriesOf es

/-- **A section adds a table under its name.** -/
theorem foldlM_sectionOf {r : Reading} {names : List Text} {h : Text} (es : Table)
    (between : IsBetween r names) (new : h ∉ names) (distinct : (es.map Prod.fst).Nodup) :
    ∃ r', (sectionOf h es).foldlM Reading.step r = some r' ∧
      r'.table = r.table ++ [(h, .table es)] ∧ IsBetween r' (h :: names) := by
  have fresh : h ∉ r.table.map Prod.fst := fun hmem => new (between.keys hmem)
  have wider : IsBetween r (h :: names) := between.mono (List.subset_cons_self _ _)
  have unopened : (r.pending ++ r.opened).contains [h] = false := by
    rw [between.pending, List.nil_append, List.contains_eq_mem, decide_eq_false_iff_not]
    intro mem
    obtain ⟨h', hmem, rest, e⟩ := between.opened _ mem
    exact new ((List.cons.inj e).1 ▸ hmem)
  have free : ∀ p ∈ r.whole, ¬ p <+: [h] := by
    intro p hp prefixed
    obtain ⟨h', -, k, rest, rfl⟩ := between.whole p hp
    simpa using prefixed.length_le
  have header : r.step (.header [h]) = some { r with
      table := r.table ++ [(h, .table [])], current := [h],
      opened := [h] :: (r.pending ++ r.opened), pending := [] } := by
    simp only [Reading.step, unopened, Reading.isFrozen_eq_false free, reaches_fresh fresh some]
    rfl
  have entries := foldlM_entries es (r := { r with
      table := r.table ++ [(h, .table [])], current := [h],
      opened := [h] :: (r.pending ++ r.opened), pending := [] })
    [] (opens_last fresh) rfl distinct free
  refine ⟨_, Eq.trans ?_ entries, rfl, ⟨rfl, ?_, ?_, ?_⟩⟩
  · rw [sectionOf, List.foldlM_cons, header]
    rfl
  · exact keys_append_subset between.keys _
  · intro p hp
    rcases List.mem_cons.1 hp with rfl | hp
    · exact ⟨h, List.mem_cons_self, [], rfl⟩
    · rw [between.pending] at hp
      exact wider.opened p hp
  · intro p hp
    rcases List.mem_append.1 hp with hp | hp
    · obtain ⟨e, -, rfl⟩ := List.mem_map.1 hp
      exact ⟨h, List.mem_cons_self, e.1, [], rfl⟩
    · exact wider.whole p hp

/-! ## Lists of tables -/

/-- The entry for a list of tables, if there are any. -/
def listEntry (l : Text) (ts : List Table) : Table :=
  if ts = [] then [] else [(l, .list (ts.map .table))]

/-- The members of a list of tables in a section, each under a header of its own. -/
def membersOf (h l : Text) (ts : List Table) : List Statement :=
  ts.flatMap fun es => .arrayHeader [h, l] :: entriesOf es

theorem listEntry_append_singleton (l : Text) (ts : List Table) (es : Table) :
    listEntry l (ts ++ [es]) = [(l, .list (ts.map .table ++ [.table es]))] := by
  simp [listEntry]

theorem appendTable_listEntry {l : Text} {t : Table} (fresh : l ∉ t.map Prod.fst)
    (ts : List Table) :
    appendTable l (t ++ listEntry l ts) = some (t ++ listEntry l (ts ++ [[]])) := by
  rw [listEntry_append_singleton]
  by_cases none : ts = []
  · subst none
    simp [appendTable, listEntry, lookup?_eq_none fresh]
  · rw [listEntry, if_neg none]
    simp only [appendTable, lookup?_append_last fresh, assign_append fresh]

section

variable {names : List Text} {h l : Text} {before t : Table}

/-- A header of a member adds an empty table to the list and opens it. -/
theorem step_arrayHeader {r : Reading} {ts : List Table} {put : Table → Table}
    (reaches : Reaches [h] r.table (t ++ listEntry l ts) put) (fresh : l ∉ t.map Prod.fst)
    (free : ∀ p ∈ r.whole, ¬ p <+: [h, l]) :
    r.step (.arrayHeader [h, l]) = some
      { table := put (t ++ listEntry l (ts ++ [[]]))
        current := [h, l]
        opened := [h, l] :: (r.pending ++ r.opened).filter (! [h, l].isPrefixOf ·)
        pending := []
        whole := r.whole.filter (! [h, l].isPrefixOf ·) } := by
  have added : within true (appendTable ([h, l].getLast?.getD [])) [h, l].dropLast r.table =
      some (put (t ++ listEntry l (ts ++ [[]]))) := by
    have := reaches (appendTable l)
    rw [appendTable_listEntry fresh] at this
    exact this
  simp only [Reading.step, Reading.isFrozen_eq_false free, added]
  rfl

/-- A member of a list of tables: a header and entries that are no lists. -/
theorem foldlM_member {r : Reading} {ts : List Table} {es : Table}
    (keys : before.map Prod.fst ⊆ names) (new : h ∉ names) (fresh : l ∉ t.map Prod.fst)
    (reaches : Reaches [h] r.table (t ++ listEntry l ts) fun inner => before ++ [(h, .table inner)])
    (between : IsBetween r (h :: names)) (free : ∀ p ∈ r.whole, p.head? ≠ some h)
    (distinct : (es.map Prod.fst).Nodup) (simple : ∀ e ∈ es, isWhole e.2 = false) :
    ∃ r', (Statement.arrayHeader [h, l] :: entriesOf es).foldlM Reading.step r = some r' ∧
      r'.table = before ++ [(h, .table (t ++ listEntry l (ts ++ [es])))] ∧
      IsBetween r' (h :: names) ∧ ∀ p ∈ r'.whole, p.head? ≠ some h := by
  have unprefixed : ∀ p ∈ r.whole, ¬ p <+: [h, l] := by
    intro p hp prefixed
    obtain ⟨h', -, k, rest, rfl⟩ := between.whole p hp
    obtain ⟨rfl, -⟩ := List.cons_prefix_cons.1 prefixed
    exact free _ hp rfl
  have header := step_arrayHeader reaches fresh unprefixed
  have member : Opens [h, l] fun inner =>
      before ++ [(h, .table (t ++ listEntry l (ts ++ [inner])))] := by
    have opens : Opens [h] fun inner => before ++ [(h, .table inner)] :=
      opens_last fun hmem => new (keys hmem)
    simp only [listEntry_append_singleton]
    exact opens.comp (opens_lastMember fresh (ts.map .table))
  have entries := foldlM_entries es (r :=
      { table := before ++ [(h, .table (t ++ listEntry l (ts ++ [[]])))]
        current := [h, l]
        opened := [h, l] :: (r.pending ++ r.opened).filter (! [h, l].isPrefixOf ·)
        pending := []
        whole := r.whole.filter (! [h, l].isPrefixOf ·) })
    [] member rfl distinct fun p hp => unprefixed p (List.mem_filter.1 hp).1
  rw [wholePaths_eq_nil simple, List.nil_append] at entries
  refine ⟨_, Eq.trans ?_ entries, rfl, ⟨rfl, keys_append_subset keys _, ?_, ?_⟩, ?_⟩
  · rw [List.foldlM_cons, header]
    rfl
  · intro p hp
    rcases List.mem_cons.1 hp with rfl | hp
    · exact ⟨h, List.mem_cons_self, [l], rfl⟩
    · rw [between.pending] at hp
      exact between.opened p (List.mem_filter.1 hp).1
  · exact fun p hp => between.whole p (List.mem_filter.1 hp).1
  · exact fun p hp => free p (List.mem_filter.1 hp).1

/-- **The members of a list of tables are added to the list.** -/
theorem foldlM_membersOf (ts ts' : List Table) {r : Reading}
    (keys : before.map Prod.fst ⊆ names) (new : h ∉ names) (fresh : l ∉ t.map Prod.fst)
    (reaches : Reaches [h] r.table (t ++ listEntry l ts) fun inner => before ++ [(h, .table inner)])
    (between : IsBetween r (h :: names)) (free : ∀ p ∈ r.whole, p.head? ≠ some h)
    (distinct : ∀ es ∈ ts', (es.map Prod.fst).Nodup)
    (simple : ∀ es ∈ ts', ∀ e ∈ es, isWhole e.2 = false) :
    ∃ r', (membersOf h l ts').foldlM Reading.step r = some r' ∧
      r'.table = (if ts' = [] then r.table
        else before ++ [(h, .table (t ++ listEntry l (ts ++ ts')))]) ∧
      IsBetween r' (h :: names) ∧ ∀ p ∈ r'.whole, p.head? ≠ some h := by
  induction ts' generalizing r ts with
  | nil => exact ⟨r, rfl, rfl, between, free⟩
  | cons es ts' ih =>
    obtain ⟨r₁, first, table₁, between₁, free₁⟩ := foldlM_member keys new fresh reaches between free
      (distinct es List.mem_cons_self) (simple es List.mem_cons_self)
    have reaches₁ : Reaches [h] r₁.table (t ++ listEntry l (ts ++ [es])) fun inner =>
        before ++ [(h, .table inner)] :=
      table₁ ▸ opens_last (fun hmem => new (keys hmem)) _
    obtain ⟨r', rest, table, between', free'⟩ := ih (ts ++ [es]) reaches₁ between₁ free₁
      (fun es' h => distinct es' (List.mem_cons_of_mem _ h))
      (fun es' h => simple es' (List.mem_cons_of_mem _ h))
    refine ⟨r', ?_, ?_, between', free'⟩
    · rw [membersOf, List.flatMap_cons, List.foldlM_append, first]
      exact rest
    · rw [table, if_neg (List.cons_ne_nil _ _), table₁]
      split
      · rename_i none
        rw [none]
      · rw [List.append_assoc, List.singleton_append]

/-- **A section that is two lists of tables, not both empty.** -/
theorem foldlM_lists {r : Reading} {l' : Text} {ts ts' : List Table} (between : IsBetween r names)
    (new : h ∉ names) (different : l ≠ l') (nonempty : ¬(ts = [] ∧ ts' = []))
    (distinct : ∀ es ∈ ts ++ ts', (es.map Prod.fst).Nodup)
    (simple : ∀ es ∈ ts ++ ts', ∀ e ∈ es, isWhole e.2 = false) :
    ∃ r', (membersOf h l ts ++ membersOf h l' ts').foldlM Reading.step r = some r' ∧
      r'.table = r.table ++ [(h, .table (listEntry l ts ++ listEntry l' ts'))] ∧
      IsBetween r' (h :: names) := by
  have fresh : h ∉ r.table.map Prod.fst := fun hmem => new (between.keys hmem)
  have free : ∀ p ∈ r.whole, p.head? ≠ some h := by
    rintro p hp e
    obtain ⟨h', hmem, k, rest, rfl⟩ := between.whole p hp
    exact new (Option.some.inj e ▸ hmem)
  obtain ⟨r₁, first, table₁, between₁, free₁⟩ := foldlM_membersOf (t := []) (l := l) [] ts
    between.keys new (by simp) (reaches_fresh fresh) (between.mono (List.subset_cons_self _ _))
    free
    (fun es he => distinct es (List.mem_append_left _ he))
    (fun es he => simple es (List.mem_append_left _ he))
  simp only [List.nil_append] at table₁
  have reaches₁ : Reaches [h] r₁.table (listEntry l ts ++ listEntry l' []) fun inner =>
      r.table ++ [(h, .table inner)] := by
    by_cases none : ts = []
    · rw [table₁, if_pos none, none]
      exact reaches_fresh fresh
    · rw [table₁, if_neg none, show listEntry l' [] = [] from rfl, List.append_nil]
      exact opens_last fresh _
  have other : l' ∉ (listEntry l ts).map Prod.fst := by
    rw [listEntry]
    split <;> simp [different.symm]
  obtain ⟨r', second, table, between', -⟩ := foldlM_membersOf [] ts' between.keys new other reaches₁
    between₁ free₁ (fun es he => distinct es (List.mem_append_right _ he))
    (fun es he => simple es (List.mem_append_right _ he))
  refine ⟨r', ?_, ?_, between'⟩
  · rw [List.foldlM_append, first]
    exact second
  · rw [table, List.nil_append, table₁]
    by_cases none : ts' = []
    · rw [if_pos none, if_neg fun e => nonempty ⟨e, none⟩, none]
      simp [listEntry]
    · rw [if_neg none]

end

end Modulize.Toml
