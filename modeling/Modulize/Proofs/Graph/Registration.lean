import Mathlib.Data.List.Nodup
import Modulize.Graph.Basic
import Modulize.Proofs.Collections

/-!
# Rows of registrations

A graph grows by registrations (`registerAll`); one that fails is passed over, and the graph that it
leaves is kept. A registration takes over namespaces as long as they are free (`Free`): it succeeds
if all its namespaces are (`register_of_free`), and otherwise fails at the first one that is not,
with those before it taken over and no declaration added (`register_of_taken`).

* Owners stay (`providerOf?_registerAll`).
* Declarations stand under the owners of their namespaces, each namespace once (`Consistent`,
  `consistent_registerAll`).
* Without failures every owner has declared what it owns (`Declared`, `declared_registerAll`).
-/

namespace Modulize.DependencyGraph

/-- A file that is to be registered, with its declarations. -/
structure Registration where
  path : Path
  provides : List Provide
  requires : List Require
  deriving DecidableEq, Repr

/-- Register a file. The graph that results is given also on failure. -/
def register (g : DependencyGraph) (r : Registration) : DependencyGraph × Option Failure :=
  g.addFile r.path r.provides r.requires

/-- The graph that a row of registrations leads to, with the failures on the way. -/
def registerAll : DependencyGraph → List Registration → DependencyGraph × List Failure
  | g, [] => (g, [])
  | g, r :: rs =>
    let (g₁, failure) := g.register r
    let (g₂, failures) := registerAll g₁ rs
    (g₂, failure.toList ++ failures)

/-- The owners that a file adds to a table when it takes over namespaces. -/
def ownedBy (p : Path) (ds : List Provide) : List (Text × Path) := ds.map fun d => (d.name, p)

/-- Namespaces that can be taken over: none has an owner, and none occurs twice. -/
structure Free (owners : List (Text × Path)) (ds : List Provide) : Prop where
  unowned : ∀ d ∈ ds, lookup? d.name owners = none
  nodup : (ds.map Provide.name).Nodup

variable {g : DependencyGraph} {owners : List (Text × Path)} {p : Path} {n : Text}
  {d : Provide} {ds done later : List Provide} {r : Registration}

/-! ## Owners -/

theorem lookup?_ownedBy_eq_none : lookup? n (ownedBy p ds) = none ↔ n ∉ ds.map Provide.name := by
  induction ds with
  | nil => simp [ownedBy, lookup?]
  | cons d ds ih =>
    rw [ownedBy] at ih
    by_cases h : d.name = n
    · simp [ownedBy, lookup?, h]
    · simp [ownedBy, lookup?, h, ih, Ne.symm h]

theorem lookup?_ownedBy {q : Path} :
    lookup? n (ownedBy p ds) = some q ↔ n ∈ ds.map Provide.name ∧ q = p := by
  constructor
  · intro h
    obtain ⟨d, hd, e⟩ := List.mem_map.1 (mem_of_lookup? h)
    obtain ⟨rfl, rfl⟩ := Prod.mk.inj e
    exact ⟨List.mem_map_of_mem hd, rfl⟩
  · rintro ⟨hn, rfl⟩
    cases found : lookup? n (ownedBy q ds) with
    | none => exact absurd hn (lookup?_ownedBy_eq_none.1 found)
    | some q' =>
      obtain ⟨d, -, e⟩ := List.mem_map.1 (mem_of_lookup? found)
      exact congrArg some (Prod.mk.inj e).2.symm

theorem free_nil : Free owners [] := ⟨fun _ h => (List.not_mem_nil h).elim, List.nodup_nil⟩

theorem free_cons : Free owners (d :: ds) ↔
    lookup? d.name owners = none ∧ Free (owners ++ ownedBy p [d]) ds := by
  have one (e : Provide) : lookup? e.name (owners ++ ownedBy p [d]) = none ↔
      lookup? e.name owners = none ∧ e.name ≠ d.name := by
    rw [lookup?_append, Option.or_eq_none_iff, lookup?_ownedBy_eq_none]
    simp
  constructor
  · intro h
    obtain ⟨fresh, nodup⟩ := List.nodup_cons.1 h.nodup
    refine ⟨h.unowned d List.mem_cons_self, fun e he => (one e).2 ⟨?_, ?_⟩, nodup⟩
    · exact h.unowned e (List.mem_cons_of_mem _ he)
    · rintro same
      exact fresh (same ▸ List.mem_map_of_mem he)
  · rintro ⟨hd, h⟩
    refine ⟨fun e he => ?_, List.nodup_cons.2 ⟨fun mem => ?_, h.nodup⟩⟩
    · rcases List.mem_cons.1 he with rfl | he
      · exact hd
      · exact ((one e).1 (h.unowned e he)).1
    · obtain ⟨e, he, same⟩ := List.mem_map.1 mem
      exact ((one e).1 (h.unowned e he)).2 same

/-- Free namespaces are taken over before the ones behind them are looked at. -/
theorem enroll_append (h : Free owners done) (ds : List Provide) :
    enroll p (done ++ ds) owners = enroll p ds (owners ++ ownedBy p done) := by
  induction done generalizing owners with
  | nil => simp [ownedBy]
  | cons d done ih =>
    obtain ⟨hd, h⟩ := (free_cons (p := p)).1 h
    rw [List.cons_append, enroll, hd]
    exact (ih h).trans (by rw [List.append_assoc]; rfl)

/-- Namespaces that are not all free have a first one that is not. -/
theorem exists_first_taken (h : ¬ Free owners ds) (p : Path) :
    ∃ done d later owner, ds = done ++ d :: later ∧ Free owners done ∧
      lookup? d.name (owners ++ ownedBy p done) = some owner := by
  induction ds generalizing owners with
  | nil => exact absurd free_nil h
  | cons d ds ih =>
    cases hd : lookup? d.name owners with
    | some owner => exact ⟨[], d, ds, owner, rfl, free_nil, by simpa [ownedBy] using hd⟩
    | none =>
      have rest : ¬ Free (owners ++ ownedBy p [d]) ds := fun free =>
        h (free_cons.2 ⟨hd, free⟩)
      obtain ⟨done, e, later, owner, rfl, free, he⟩ := ih rest
      refine ⟨d :: done, e, later, owner, rfl, free_cons.2 ⟨hd, free⟩, ?_⟩
      rw [List.append_assoc] at he
      exact he

/-! ## One registration -/

/-- A registration of free namespaces succeeds. -/
theorem register_of_free (h : Free g.owners r.provides) :
    g.register r = (⟨g.owners ++ ownedBy r.path r.provides, extend r.path r.provides g.provided,
      extend r.path r.requires g.required⟩, none) := by
  have enrolled := enroll_append (p := r.path) h []
  rw [List.append_nil] at enrolled
  simp only [register, addFile, enrolled, enroll]

/-- A registration fails at the first namespace that is not free. -/
theorem register_of_taken {owner : Path} (split : r.provides = done ++ d :: later)
    (h : Free g.owners done)
    (taken : lookup? d.name (g.owners ++ ownedBy r.path done) = some owner) :
    g.register r = ({ g with owners := g.owners ++ ownedBy r.path done },
      some (.duplicateProvide d.name owner r.path)) := by
  have enrolled := enroll_append (p := r.path) h (d :: later)
  rw [← split, enroll, taken] at enrolled
  simp only [register, addFile, enrolled]

theorem register_eq_none_iff : (g.register r).2 = none ↔ Free g.owners r.provides := by
  constructor
  · intro h
    by_contra taken
    obtain ⟨done, d, later, owner, split, free, found⟩ := exists_first_taken taken r.path
    rw [register_of_taken split free found] at h
    cases h
  · intro h
    rw [register_of_free h]

/-- What a registration does, in full. -/
theorem register_cases (g : DependencyGraph) (r : Registration) :
    (Free g.owners r.provides ∧
      g.register r = (⟨g.owners ++ ownedBy r.path r.provides, extend r.path r.provides g.provided,
        extend r.path r.requires g.required⟩, none)) ∨
    ∃ done d later owner, r.provides = done ++ d :: later ∧ Free g.owners done ∧
      lookup? d.name (g.owners ++ ownedBy r.path done) = some owner ∧
      g.register r = ({ g with owners := g.owners ++ ownedBy r.path done },
        some (.duplicateProvide d.name owner r.path)) := by
  by_cases h : Free g.owners r.provides
  · exact Or.inl ⟨h, register_of_free h⟩
  · obtain ⟨done, d, later, owner, split, free, found⟩ := exists_first_taken h r.path
    exact Or.inr ⟨done, d, later, owner, split, free, found, register_of_taken split free found⟩

/-! ## What a registration keeps -/

theorem providerOf?_register (h : g.providerOf? n = some p) :
    (g.register r).1.providerOf? n = some p := by
  have kept (new : List (Text × Path)) : lookup? n (g.owners ++ new) = some p := by
    rw [lookup?_append, Option.or_eq_some_iff]
    exact Or.inl h
  rcases register_cases g r with ⟨-, e⟩ | ⟨done, d, later, owner, -, -, -, e⟩
  · rw [e]
    exact kept _
  · rw [e]
    exact kept _

theorem getD_lookup?_extend {α : Type} (p q : Path) (new : List α) (table : List (Path × List α)) :
    (lookup? q (extend p new table)).getD [] =
      (lookup? q table).getD [] ++ if p = q then new else [] := by
  rw [extend, lookup?_assign]
  split
  · rename_i same
    rw [same]
    rfl
  · exact (List.append_nil _).symm

/-- Declarations stand under the owners of their namespaces, and nowhere else. -/
structure Consistent (g : DependencyGraph) : Prop where
  files_nodup : g.files.Nodup
  names_nodup : ∀ p, ((g.providesOf p).map Provide.name).Nodup
  owned : ∀ p, ∀ d ∈ g.providesOf p, g.providerOf? d.name = some p

/-- Every owner has declared the namespaces that it owns. -/
def Declared (g : DependencyGraph) : Prop :=
  ∀ n p, g.providerOf? n = some p → n ∈ (g.providesOf p).map Provide.name

theorem consistent_empty : Consistent .empty where
  files_nodup := List.nodup_nil
  names_nodup _ := List.nodup_nil
  owned _ _ h := (List.not_mem_nil h).elim

theorem declared_empty : Declared .empty := fun _ _ h => nomatch h

theorem providesOf_register_of_free (h : Free g.owners r.provides) (q : Path) :
    (g.register r).1.providesOf q = g.providesOf q ++ if r.path = q then r.provides else [] := by
  rw [register_of_free h]
  exact getD_lookup?_extend ..

theorem requiresOf_register_of_free (h : Free g.owners r.provides) (q : Path) :
    (g.register r).1.requiresOf q = g.requiresOf q ++ if r.path = q then r.requires else [] := by
  rw [register_of_free h]
  exact getD_lookup?_extend ..

theorem providerOf?_register_of_free (h : Free g.owners r.provides) :
    (g.register r).1.providerOf? n = some p ↔
      g.providerOf? n = some p ∨ n ∈ r.provides.map Provide.name ∧ p = r.path := by
  rw [register_of_free h, providerOf?, providerOf?, lookup?_append, Option.or_eq_some_iff,
    lookup?_ownedBy]
  refine or_congr_right ⟨And.right, fun new => ⟨?_, new⟩⟩
  obtain ⟨d, hd, rfl⟩ := List.mem_map.1 new.1
  exact h.unowned d hd

/-- **One registration** keeps a graph consistent, whether it succeeds or fails. -/
theorem Consistent.register (h : g.Consistent) (r : Registration) :
    (g.register r).1.Consistent := by
  rcases register_cases g r with ⟨free, e⟩ | ⟨done, d, later, owner, -, -, -, e⟩
  · have files : (g.register r).1.files =
        if r.path ∈ g.files then g.files else g.files ++ [r.path] := by
      rw [e]
      exact map_fst_assign ..
    refine ⟨?_, fun q => ?_, fun q d hd => ?_⟩
    · rw [files]
      split
      · exact h.files_nodup
      · rename_i new
        exact List.nodup_append.2 ⟨h.files_nodup, List.nodup_singleton _, fun a ha b hb => by
          rintro rfl
          exact new (List.mem_singleton.1 hb ▸ ha)⟩
    · rw [providesOf_register_of_free free]
      split
      · -- the new names have no owner, the old ones do
        rw [List.map_append, List.nodup_append]
        refine ⟨h.names_nodup q, free.nodup, fun n hn m hm => ?_⟩
        rintro rfl
        obtain ⟨d, hd, rfl⟩ := List.mem_map.1 hn
        obtain ⟨d', hd', same⟩ := List.mem_map.1 hm
        have owned : lookup? d.name g.owners = some q := h.owned q d hd
        rw [← same, free.unowned d' hd'] at owned
        cases owned
      · rw [List.append_nil]
        exact h.names_nodup q
    · rw [providesOf_register_of_free free] at hd
      rw [providerOf?_register_of_free free]
      rcases List.mem_append.1 hd with hd | hd
      · exact Or.inl (h.owned q d hd)
      · split at hd
        · rename_i same
          exact Or.inr ⟨List.mem_map_of_mem hd, same.symm⟩
        · cases hd
  · refine ⟨?_, fun q => ?_, fun q d hd => providerOf?_register (h.owned q d ?_)⟩
    · rw [e]
      exact h.files_nodup
    · rw [e]
      exact h.names_nodup q
    · rw [e] at hd
      exact hd

/-- **One registration** that succeeds leaves no owner without a declaration. -/
theorem Declared.register (h : g.Declared) (ok : (g.register r).2 = none) :
    (g.register r).1.Declared := by
  have free := register_eq_none_iff.1 ok
  intro n p owner
  rw [providesOf_register_of_free free, List.map_append, List.mem_append]
  rcases (providerOf?_register_of_free free).1 owner with old | ⟨hn, rfl⟩
  · exact Or.inl (h n p old)
  · exact Or.inr (by rwa [if_pos rfl])

/-! ## Rows -/

theorem registerAll_cons (g : DependencyGraph) (r : Registration) (rs : List Registration) :
    g.registerAll (r :: rs) = (((g.register r).1.registerAll rs).1,
      (g.register r).2.toList ++ ((g.register r).1.registerAll rs).2) := rfl

theorem registerAll_cons_eq_nil {rs : List Registration} :
    (g.registerAll (r :: rs)).2 = [] ↔
      (g.register r).2 = none ∧ ((g.register r).1.registerAll rs).2 = [] := by
  rw [registerAll_cons, List.append_eq_nil_iff, Option.toList_eq_nil_iff]

/-- Once a namespace has an owner, the owner stays. -/
theorem providerOf?_registerAll (rs : List Registration) (h : g.providerOf? n = some p) :
    (g.registerAll rs).1.providerOf? n = some p := by
  induction rs generalizing g with
  | nil => exact h
  | cons r rs ih => exact ih (providerOf?_register h)

theorem Consistent.registerAll (h : g.Consistent) (rs : List Registration) :
    (g.registerAll rs).1.Consistent := by
  induction rs generalizing g with
  | nil => exact h
  | cons r rs ih => exact ih (h.register r)

theorem consistent_registerAll (rs : List Registration) :
    (DependencyGraph.empty.registerAll rs).1.Consistent :=
  consistent_empty.registerAll rs

theorem Declared.registerAll {rs : List Registration} (h : g.Declared)
    (ok : (g.registerAll rs).2 = []) : (g.registerAll rs).1.Declared := by
  induction rs generalizing g with
  | nil => exact h
  | cons r rs ih =>
    obtain ⟨first, rest⟩ := registerAll_cons_eq_nil.1 ok
    exact ih (h.register first) rest

theorem declared_registerAll {rs : List Registration}
    (ok : (DependencyGraph.empty.registerAll rs).2 = []) :
    (DependencyGraph.empty.registerAll rs).1.Declared :=
  declared_empty.registerAll ok

/-! ## What is known of a consistent graph -/

/-- The declaration that is found for a namespace is the one that stands under its owner. -/
theorem Consistent.provide?_eq (h : g.Consistent) (hd : d ∈ g.providesOf p) :
    g.provide? d.name = some d := by
  have owner := h.owned p d hd
  rw [provide?, owner]
  change (g.providesOf p).find? (·.name = d.name) = some d
  cases found : (g.providesOf p).find? (·.name = d.name) with
  | none => exact absurd (by simp) (List.find?_eq_none.1 found d hd)
  | some e =>
    have same : e.name = d.name := by simpa using List.find?_some found
    have he := List.mem_of_find?_eq_some found
    rw [List.inj_on_of_nodup_map (h.names_nodup p) he hd same]

/-- Each namespace is declared at most once over all files. -/
theorem Consistent.nodup_declared (h : g.Consistent) :
    (g.files.flatMap fun p => (g.providesOf p).map Provide.name).Nodup := by
  refine List.nodup_flatMap.2 ⟨fun p _ => h.names_nodup p, h.files_nodup.imp ?_⟩
  intro p q other n hp hq
  obtain ⟨d, hd, rfl⟩ := List.mem_map.1 hp
  obtain ⟨e, he, same⟩ := List.mem_map.1 hq
  have owner := h.owned q e he
  rw [same, h.owned p d hd] at owner
  exact other (Option.some.inj owner)

/-- **Rows of registrations.** After any row of registrations, failed ones among them,
* owners stay whatever is registered later;
* a registration fails exactly if one of its namespaces has an owner or is listed twice; it names
  the first one in the list that has an owner or has been listed before, with the owner on record
  and its own path, and it adds nothing but the owners of the namespaces listed before that one;
* a declaration stands under the owner of its namespace, is the one that is found for it, and no
  namespace is declared twice;
* and without failures every owned namespace is declared by its owner. -/
theorem registerAll_invariant (rs : List Registration) :
    let g := (DependencyGraph.empty.registerAll rs).1
    (∀ n p, g.providerOf? n = some p → ∀ later, (g.registerAll later).1.providerOf? n = some p) ∧
    (∀ r : Registration,
      ((g.register r).2 ≠ none ↔ (∃ d ∈ r.provides, (g.providerOf? d.name).isSome) ∨
        ¬ (r.provides.map Provide.name).Nodup) ∧
      ∀ f, (g.register r).2 = some f →
        ∃ before d behind owner, r.provides = before ++ d :: behind ∧
          (∀ e ∈ before, g.providerOf? e.name = none) ∧ (before.map Provide.name).Nodup ∧
          ((g.providerOf? d.name).isSome ∨ d.name ∈ before.map Provide.name) ∧
          (g.register r).1.providerOf? d.name = some owner ∧
          f = .duplicateProvide d.name owner r.path ∧
          (g.register r).1 =
            { g with owners := g.owners ++ before.map fun e => (e.name, r.path) }) ∧
    (∀ p, ∀ d ∈ g.providesOf p, g.providerOf? d.name = some p ∧ g.provide? d.name = some d) ∧
    (g.files.flatMap fun p => (g.providesOf p).map Provide.name).Nodup ∧
    ((DependencyGraph.empty.registerAll rs).2 = [] →
      ∀ n p, g.providerOf? n = some p → ∃ d ∈ g.providesOf p, d.name = n) := by
  intro g
  have consistent : g.Consistent := consistent_registerAll rs
  refine ⟨fun n p h later => providerOf?_registerAll later h, fun r => ⟨?_, fun f failed => ?_⟩,
    fun p d hd => ⟨consistent.owned p d hd, consistent.provide?_eq hd⟩,
    consistent.nodup_declared, fun ok n p owner => ?_⟩
  · rw [ne_eq, register_eq_none_iff]
    constructor
    · intro taken
      by_contra none
      obtain ⟨unowned, nodup⟩ := not_or.1 none
      refine taken ⟨fun d hd => ?_, not_not.1 nodup⟩
      exact Option.not_isSome_iff_eq_none.1 fun owned => unowned ⟨d, hd, owned⟩
    · rintro (⟨d, hd, owned⟩ | twice) free
      · rw [providerOf?, free.unowned d hd] at owned
        cases owned
      · exact twice free.nodup
  · rcases register_cases g r with ⟨-, e⟩ | ⟨before, d, behind, owner, split, free, taken, e⟩
    · rw [e] at failed
      cases failed
    · rw [e] at failed ⊢
      refine ⟨before, d, behind, owner, split, free.unowned, free.nodup, ?_, taken,
        (Option.some.inj failed).symm, rfl⟩
      rw [lookup?_append, Option.or_eq_some_iff, lookup?_ownedBy] at taken
      rcases taken with old | ⟨-, listed, -⟩
      · exact Or.inl (by rw [providerOf?, old]; rfl)
      · exact Or.inr listed
  · obtain ⟨d, hd, same⟩ := List.mem_map.1 (declared_registerAll ok n p owner)
    exact ⟨d, hd, same⟩

end Modulize.DependencyGraph
