import Modulize.Proofs.Graph.Advisory

/-!
# The order of registrations does not matter

Registrations of distinct files succeed if the namespaces of all of them together are free
(`registerAll_eq_nil_iff`), whatever the order. When they succeed, the graph knows the owner of each
namespace and the declarations of each file from the registration of that file alone
(`Registered`), so a permuted row of registrations comes to a graph that gives the same answers
(`registerAll_perm`).
-/

namespace Modulize.DependencyGraph

variable {g : DependencyGraph} {owners : List (Text × Path)} {p : Path} {n : Text}
  {ds ds' : List Provide} {r : Registration} {rs rs' : List Registration}

/-! ## Success -/

theorem Free.perm (h : Free owners ds) (perm : ds.Perm ds') : Free owners ds' where
  unowned d hd := h.unowned d (perm.mem_iff.2 hd)
  nodup := (perm.map Provide.name).nodup_iff.1 h.nodup

/-- Namespaces are free together if the later ones are free once the first ones are taken. -/
theorem free_append : Free owners (ds ++ ds') ↔
    Free owners ds ∧ Free (owners ++ ownedBy p ds) ds' := by
  induction ds generalizing owners with
  | nil => simp [ownedBy, free_nil]
  | cons d ds ih =>
    have taken : owners ++ ownedBy p (d :: ds) = (owners ++ ownedBy p [d]) ++ ownedBy p ds := by
      rw [List.append_assoc]
      rfl
    rw [List.cons_append, free_cons (p := p), free_cons (p := p), ih, taken, and_assoc]

/-- Registrations succeed exactly if all that they provide together is free. -/
theorem registerAll_eq_nil_iff :
    (g.registerAll rs).2 = [] ↔ Free g.owners (rs.flatMap Registration.provides) := by
  induction rs generalizing g with
  | nil => exact ⟨fun _ => free_nil, fun _ => rfl⟩
  | cons r rs ih =>
    rw [registerAll_cons_eq_nil, register_eq_none_iff, ih, List.flatMap_cons,
      free_append (p := r.path)]
    refine and_congr_right fun free => ?_
    rw [register_of_free free]

theorem duplicateProvide_of_mem_failures {f : Failure} (h : f ∈ (g.registerAll rs).2) :
    ∃ name first second, f = .duplicateProvide name first second := by
  induction rs generalizing g with
  | nil => cases h
  | cons r rs ih =>
    rw [registerAll_cons] at h
    rcases List.mem_append.1 h with here | later
    · rcases register_cases g r with ⟨-, e⟩ | ⟨done, d, later, owner, -, -, -, e⟩
      · rw [e] at here
        cases here
      · rw [e] at here
        exact ⟨d.name, owner, r.path, List.mem_singleton.1 here⟩
    · exact ih later

/-! ## What is known of each file -/

/-- A graph knows what some registrations say, on top of what `g` knows. -/
structure Registered (g : DependencyGraph) (rs : List Registration) (g' : DependencyGraph) :
    Prop where
  owner : ∀ n p, g'.providerOf? n = some p ↔
    g.providerOf? n = some p ∨ ∃ r ∈ rs, n ∈ r.provides.map Provide.name ∧ p = r.path
  provides : ∀ p, g'.providesOf p =
    g.providesOf p ++ (rs.filter (·.path = p)).flatMap Registration.provides
  requires : ∀ p, g'.requiresOf p =
    g.requiresOf p ++ (rs.filter (·.path = p)).flatMap Registration.requires

theorem flatMap_filter_cons {α : Type} (f : Registration → List α) (r : Registration)
    (rs : List Registration) (p : Path) : ((r :: rs).filter (·.path = p)).flatMap f =
      (if r.path = p then f r else []) ++ (rs.filter (·.path = p)).flatMap f := by
  rw [List.filter_cons]
  by_cases same : r.path = p <;> simp [same]

/-- **Registrations that succeed** add up. -/
theorem registered_registerAll (ok : (g.registerAll rs).2 = []) :
    Registered g rs (g.registerAll rs).1 := by
  induction rs generalizing g with
  | nil => exact ⟨by simp [registerAll], by simp [registerAll], by simp [registerAll]⟩
  | cons r rs ih =>
    obtain ⟨first, rest⟩ := registerAll_cons_eq_nil.1 ok
    have free := register_eq_none_iff.1 first
    have later := ih rest
    rw [registerAll_cons]
    refine ⟨fun n p => ?_, fun p => ?_, fun p => ?_⟩
    · rw [later.owner, providerOf?_register_of_free free, or_assoc]
      simp only [List.mem_cons, exists_eq_or_imp]
    · rw [later.provides, providesOf_register_of_free free, flatMap_filter_cons, List.append_assoc]
    · rw [later.requires, requiresOf_register_of_free free, flatMap_filter_cons, List.append_assoc]

/-- Of distinct files, at most one has a given path, so their order does not show. -/
theorem filter_path_perm (perm : rs.Perm rs') (distinct : (rs.map Registration.path).Nodup)
    (p : Path) : rs'.filter (·.path = p) = rs.filter (·.path = p) := by
  have single {l : List Registration} (nodup : (l.map Registration.path).Nodup) :
      (l.filter (·.path = p)).Pairwise fun _ _ => False := by
    refine ((List.pairwise_map.1 nodup).filter _).imp_of_mem fun ha hb other => other ?_
    rw [of_decide_eq_true (List.mem_filter.1 ha).2, of_decide_eq_true (List.mem_filter.1 hb).2]
  exact List.Perm.eq_of_pairwise (fun _ _ _ _ h => h.elim)
    (single ((perm.map _).nodup_iff.1 distinct)) (single distinct) (perm.symm.filter _)

namespace Registered

variable {g₁ g₂ : DependencyGraph}

theorem providerOf?_perm (h₁ : Registered g rs g₁) (h₂ : Registered g rs' g₂)
    (perm : rs.Perm rs') (n : Text) : g₂.providerOf? n = g₁.providerOf? n := by
  refine Option.ext fun p => ?_
  rw [h₁.owner, h₂.owner]
  simp only [perm.mem_iff]

theorem providesOf_perm (h₁ : Registered g rs g₁) (h₂ : Registered g rs' g₂)
    (perm : rs.Perm rs') (distinct : (rs.map Registration.path).Nodup) (p : Path) :
    g₂.providesOf p = g₁.providesOf p := by
  rw [h₁.provides, h₂.provides, filter_path_perm perm distinct]

theorem requiresOf_perm (h₁ : Registered g rs g₁) (h₂ : Registered g rs' g₂)
    (perm : rs.Perm rs') (distinct : (rs.map Registration.path).Nodup) (p : Path) :
    g₂.requiresOf p = g₁.requiresOf p := by
  rw [h₁.requires, h₂.requires, filter_path_perm perm distinct]

end Registered

/-- **The order of registrations does not matter.** Distinct files are registered in two orders,
starting from the empty graph. Either all registrations succeed in both orders, or some fail in
both, for a namespace that is provided twice. When they succeed, the two graphs give the same
answers: about owners and declarations, about what files require and what is unresolved, and to
every selection. -/
theorem registerAll_perm (perm : rs.Perm rs') (distinct : (rs.map Registration.path).Nodup) :
    let g := DependencyGraph.empty.registerAll rs
    let g' := DependencyGraph.empty.registerAll rs'
    (g.2 = [] ↔ g'.2 = []) ∧
    (∀ f, f ∈ g.2 ∨ f ∈ g'.2 → ∃ name first second, f = .duplicateProvide name first second) ∧
    (g.2 = [] →
      (∀ n, g'.1.providerOf? n = g.1.providerOf? n) ∧ (∀ n, g'.1.provide? n = g.1.provide? n) ∧
      (∀ p, g'.1.requiresOf p = g.1.requiresOf p) ∧ g'.1.unresolved = g.1.unresolved ∧
      g'.1.validate = g.1.validate ∧ ∀ roots rule, g'.1.select roots rule = g.1.select roots rule) := by
  intro g g'
  have both : g.2 = [] ↔ g'.2 = [] := by
    rw [registerAll_eq_nil_iff, registerAll_eq_nil_iff]
    have provided := perm.flatMap_right Registration.provides
    exact ⟨fun free => free.perm provided, fun free => free.perm provided.symm⟩
  refine ⟨both, fun f hf => hf.elim duplicateProvide_of_mem_failures
    duplicateProvide_of_mem_failures, fun ok => ?_⟩
  have here : Registered .empty rs g.1 := registered_registerAll ok
  have there : Registered .empty rs' g'.1 := registered_registerAll (both.1 ok)
  have owner := here.providerOf?_perm there perm
  have provides := here.providesOf_perm there perm distinct
  have requires := here.requiresOf_perm there perm distinct
  have same : SameButAdvisory g.1 g'.1 := ⟨owner, fun p => by rw [requires]⟩
  have unresolved := same.unresolved_eq (keyed_registerAll rs) (keyed_registerAll rs')
  refine ⟨owner, fun n => ?_, requires, unresolved, ?_, fun roots rule =>
    select_congr (same.agrees roots rule)⟩
  · simp only [provide?, owner, provides]
  · rw [validate, unresolved, validate]

/-- The theorem for the files of the cycle, backwards. -/
theorem registerAll_perm_cycle :
    (DependencyGraph.empty.registerAll cycleRegistrations.reverse).2 = [] ∧
      (DependencyGraph.empty.registerAll cycleRegistrations.reverse).1.unresolved = ["e".toList] ∧
      (DependencyGraph.empty.registerAll cycleRegistrations.reverse).1.select
        ["a".toList] ⟨true, "T"⟩ = .ok [rootFile "x", rootFile "y", rootFile "z"] := by
  have whole := registerAll_cycleRegistrations
  obtain ⟨both, -, answers⟩ := registerAll_perm (List.reverse_perm cycleRegistrations).symm
    (by decide)
  obtain ⟨-, -, -, unresolved, -, selected⟩ := answers (by rw [whole])
  rw [whole] at both unresolved selected
  exact ⟨both.1 rfl, unresolved.trans (by rfl), (selected _ _).trans select_cycleGraph⟩

end Modulize.DependencyGraph
