import Modulize.Proofs.Graph.Subset

/-!
# Advisory requires do not count

Two graphs have the same owners, and their files require the same but for advisory requires, which
may be added, left out or moved (`SameButAdvisory`). Then the same is unresolved in both, and a
selection gives the same files in both or fails alike (`answers_of_sameButAdvisory`).

What is unresolved depends on the owners and on the strictly required names of each file, as long as
each file stands in the table once (`Keyed`, `mem_unresolved`).
-/

namespace Modulize.DependencyGraph

/-- Every file stands in the table of requires once. Registrations see to that
(`keyed_registerAll`). -/
def Keyed (g : DependencyGraph) : Prop := (g.required.map Prod.fst).Nodup

/-- Two graphs with the same owners, whose files require the same in the same order but for advisory
requires. -/
structure SameButAdvisory (g h : DependencyGraph) : Prop where
  owner : ∀ n, h.providerOf? n = g.providerOf? n
  strict : ∀ p, (h.requiresOf p).filter (! ·.isAdvisory) = (g.requiresOf p).filter (! ·.isAdvisory)

instance (g : DependencyGraph) : Decidable g.Keyed :=
  inferInstanceAs (Decidable (g.required.map Prod.fst).Nodup)

variable {g h : DependencyGraph} {p : Path} {n : Text} {r : Registration}

/-! ## Tables with each file once -/

theorem keyed_empty : Keyed .empty := List.nodup_nil

theorem Keyed.register (keyed : g.Keyed) (r : Registration) : (g.register r).1.Keyed := by
  rcases register_cases g r with ⟨-, e⟩ | ⟨done, d, later, owner, -, -, -, e⟩
  · have table : (g.register r).1.required = extend r.path r.requires g.required := by rw [e]
    rw [Keyed, table, extend, map_fst_assign]
    split
    · exact keyed
    · rename_i new
      refine List.nodup_append.2 ⟨keyed, List.nodup_singleton _, fun a ha b hb => ?_⟩
      rintro rfl
      exact new (List.mem_singleton.1 hb ▸ ha)
  · rw [e]
    exact keyed

theorem Keyed.registerAll (keyed : g.Keyed) (rs : List Registration) :
    (g.registerAll rs).1.Keyed := by
  induction rs generalizing g with
  | nil => exact keyed
  | cons r rs ih => exact ih (keyed.register r)

theorem keyed_registerAll (rs : List Registration) :
    (DependencyGraph.empty.registerAll rs).1.Keyed :=
  keyed_empty.registerAll rs

/-- In such a table a file is looked up exactly where it stands. -/
theorem lookup?_eq_some_iff {κ ν : Type} [DecidableEq κ] {k : κ} {v : ν} {table : List (κ × ν)}
    (nodup : (table.map Prod.fst).Nodup) : lookup? k table = some v ↔ (k, v) ∈ table := by
  refine ⟨mem_of_lookup?, fun mem => ?_⟩
  induction table with
  | nil => cases mem
  | cons kv table ih =>
    obtain ⟨fresh, nodup⟩ := List.nodup_cons.1 nodup
    rcases List.mem_cons.1 mem with rfl | mem
    · exact if_pos rfl
    · have other : kv.1 ≠ k := fun same => fresh (same ▸ List.mem_map_of_mem mem)
      exact (if_neg other).trans (ih nodup mem)

/-! ## What is unresolved -/

theorem Keyed.mem_unresolved (keyed : g.Keyed) :
    n ∈ g.unresolved ↔ (∃ p, n ∈ g.strictNames p) ∧ g.providerOf? n = none := by
  have needed : n ∈ ((g.required.flatMap Prod.snd).filter (! ·.isAdvisory)).map Require.name ↔
      ∃ p, n ∈ g.strictNames p := by
    simp only [List.mem_map, List.mem_filter, List.mem_flatMap, mem_strictNames,
      Bool.not_eq_true', requiresOf]
    constructor
    · rintro ⟨r, ⟨⟨⟨p, rs⟩, hx, hr⟩, strict⟩, rfl⟩
      have found : lookup? p g.required = some rs := (lookup?_eq_some_iff keyed).2 hx
      exact ⟨p, r, by rwa [found], strict, rfl⟩
    · rintro ⟨p, r, hr, strict, rfl⟩
      cases found : lookup? p g.required with
      | none =>
        rw [found] at hr
        cases hr
      | some rs =>
        rw [found] at hr
        exact ⟨r, ⟨⟨(p, rs), mem_of_lookup? found, hr⟩, strict⟩, rfl⟩
  rw [unresolved, sortTexts, mem_sortBy, mem_dedup, List.mem_filter, needed,
    Option.isNone_iff_eq_none]

namespace SameButAdvisory

theorem strictNames_eq (same : SameButAdvisory g h) (p : Path) :
    h.strictNames p = g.strictNames p := by
  rw [strictNames, same.strict, strictNames]

/-- The same is unresolved: both lists are in order and have the same members. -/
theorem unresolved_eq (same : SameButAdvisory g h) (hg : g.Keyed) (hh : h.Keyed) :
    h.unresolved = g.unresolved := by
  have members (n : Text) : n ∈ h.unresolved ↔ n ∈ g.unresolved := by
    simp only [hg.mem_unresolved, hh.mem_unresolved, same.owner, same.strictNames_eq]
  refine sortTexts_dedup_congr fun n => ?_
  have := members n
  rwa [unresolved, unresolved, sortTexts, sortTexts, mem_sortBy, mem_sortBy, mem_dedup,
    mem_dedup] at this

theorem agrees (same : SameButAdvisory g h) (roots : List Text) (rule : SelectionRule) :
    Agrees g h roots rule where
  requires p _ := same.strictNames_eq p
  owner n _ := same.owner n
  companion n _ _ := same.owner (n ++ rule.testSuffix)

end SameButAdvisory

/-- **Advisory requires do not count.** Two graphs with the same owners, whose files require the
same but for advisory requires, leave the same unresolved, are valid alike, and give the same
selections or the same failures, for all roots and with or without tests. -/
theorem answers_of_sameButAdvisory (hg : g.Keyed) (hh : h.Keyed) (same : SameButAdvisory g h) :
    h.unresolved = g.unresolved ∧ h.validate = g.validate ∧
      ∀ roots rule, h.select roots rule = g.select roots rule := by
  have unresolved := same.unresolved_eq hg hh
  refine ⟨unresolved, ?_, fun roots rule => select_congr (same.agrees roots rule)⟩
  rw [validate, unresolved, validate]

/-- The cycle with advisory requires, one of a namespace that nobody provides: in front of the other
requires and behind them, and in a file that requires nothing else. -/
def advisedCycleGraph : DependencyGraph where
  owners := cycleGraph.owners
  provided := cycleGraph.provided
  required := [(rootFile "w", [.inferred "a", ⟨"e", .explicit, .plain, none⟩]),
    (rootFile "x", [.inferred "z", ⟨"b", .explicit, .plain, none⟩, .inferred "d"]),
    (rootFile "y", [⟨"a", .forward, .plain, none⟩]), (rootFile "z", [.inferred "d"])]

/-- The theorem for the cycle: the file that another mentions in its documentation is not selected,
and what is mentioned without a provider is not missed. -/
theorem answers_of_sameButAdvisory_cycle :
    cycleGraph.Keyed ∧ advisedCycleGraph.Keyed ∧ SameButAdvisory cycleGraph advisedCycleGraph ∧
      advisedCycleGraph.unresolved = ["e".toList] ∧
      advisedCycleGraph.validate = .error (.unresolved ["e"]) ∧
      advisedCycleGraph.select ["a".toList] ⟨true, "T"⟩ =
        .ok [rootFile "x", rootFile "y", rootFile "z"] := by
  have keyed : cycleGraph.Keyed := by decide
  have keyed' : advisedCycleGraph.Keyed := by decide
  have same : SameButAdvisory cycleGraph advisedCycleGraph := by
    refine ⟨fun _ => rfl, fun p => ?_⟩
    simp only [requiresOf, advisedCycleGraph, cycleGraph, lookup?]
    repeat' split
    all_goals rfl
  obtain ⟨unresolved, validate, selected⟩ := answers_of_sameButAdvisory keyed keyed' same
  exact ⟨keyed, keyed', same, unresolved.trans (by rfl), validate.trans (by rfl),
    (selected _ _).trans select_cycleGraph⟩

end Modulize.DependencyGraph
