import Modulize.Proofs.Graph.Closure
import Modulize.Proofs.Graph.Registration

/-!
# A selection stands by itself

The files of a selection are registered in a graph of their own (`subgraph`). That graph knows of
them what the first one does (`Restricts`), so it gives the loop of the selection the same answers
to all that the loop asks (`Agrees`), and the loop makes the same way through it (`runFor_congr`).
The two loops have different numbers of rounds; a loop that fails or comes to its end does not
depend on that number (`runFor_eq_of_ends`). So graphs that agree select alike (`select_congr`).

`subgraph_of_select` puts this together: the selected files can be registered by themselves, in any
order, nothing that they require is missing, and they are selected again.
-/

namespace Modulize.DependencyGraph

/-- The registration of a file with all that a graph knows of it. -/
def registrationOf (g : DependencyGraph) (p : Path) : Registration :=
  ⟨p, g.providesOf p, g.requiresOf p⟩

/-- The graph of some files of a graph, registered one after another, with the failures. -/
def subgraph (g : DependencyGraph) (ps : List Path) : DependencyGraph × List Failure :=
  DependencyGraph.empty.registerAll (ps.map g.registrationOf)

/-! ## What a subgraph knows -/

/-- A graph knows of some files what `g` knows of them, and of no other files. -/
structure Restricts (g : DependencyGraph) (ps : List Path) (sub : DependencyGraph) : Prop where
  owner : ∀ n p, sub.providerOf? n = some p ↔ p ∈ ps ∧ n ∈ (g.providesOf p).map Provide.name
  requires : ∀ p, sub.requiresOf p = if p ∈ ps then g.requiresOf p else []
  required : ∀ x ∈ sub.required, x.1 ∈ ps ∧ x.2 = g.requiresOf x.1

variable {g sub : DependencyGraph} {ps : List Path} {p : Path}

theorem restricts_empty (g : DependencyGraph) : Restricts g [] .empty where
  owner _ _ := by simp [providerOf?, empty, lookup?]
  requires _ := rfl
  required _ h := (List.not_mem_nil h).elim

/-- The namespaces of a file that is not registered yet are free. -/
theorem Restricts.free (h : Restricts g ps sub) (consistent : g.Consistent) (new : p ∉ ps) :
    Free sub.owners (g.providesOf p) where
  unowned d hd := by
    cases found : lookup? d.name sub.owners with
    | none => rfl
    | some q =>
      obtain ⟨hq, declared⟩ := (h.owner d.name q).1 found
      obtain ⟨e, he, same⟩ := List.mem_map.1 declared
      have owner := consistent.owned q e he
      rw [same, consistent.owned p d hd] at owner
      exact absurd (Option.some.inj owner ▸ hq) new
  nodup := consistent.names_nodup p

/-- **One more file** of the graph. -/
theorem Restricts.register (h : Restricts g ps sub) (consistent : g.Consistent) (new : p ∉ ps) :
    (sub.register (g.registrationOf p)).2 = none ∧
      Restricts g (ps ++ [p]) (sub.register (g.registrationOf p)).1 := by
  have free : Free sub.owners (g.registrationOf p).provides := h.free consistent new
  refine ⟨register_eq_none_iff.2 free, fun n q => ?_, fun q => ?_, fun x hx => ?_⟩
  · rw [providerOf?_register_of_free free, h.owner, List.mem_append, List.mem_singleton,
      or_and_right]
    refine or_congr_right ⟨?_, ?_⟩
    · rintro ⟨hn, rfl⟩
      exact ⟨rfl, hn⟩
    · rintro ⟨rfl, hn⟩
      exact ⟨hn, rfl⟩
  · rw [requiresOf_register_of_free free, h.requires]
    by_cases same : p = q
    · subst same
      simp [new, registrationOf]
    · simp [same, Ne.symm same, registrationOf]
  · rw [register_of_free free] at hx
    have fresh : (lookup? p sub.required).getD [] = [] := by
      rw [← requiresOf, h.requires, if_neg new]
    rcases mem_of_mem_assign hx with rfl | hx
    · refine ⟨by simp [registrationOf], ?_⟩
      change (lookup? p sub.required).getD [] ++ g.requiresOf p = g.requiresOf p
      rw [fresh, List.nil_append]
    · obtain ⟨hp, e⟩ := h.required x hx
      exact ⟨List.mem_append_left _ hp, e⟩

theorem Restricts.registerAll {qs : List Path} (h : Restricts g ps sub) (consistent : g.Consistent)
    (nodup : (ps ++ qs).Nodup) :
    (sub.registerAll (qs.map g.registrationOf)).2 = [] ∧
      Restricts g (ps ++ qs) (sub.registerAll (qs.map g.registrationOf)).1 := by
  induction qs generalizing ps sub with
  | nil => exact ⟨rfl, by rwa [List.append_nil]⟩
  | cons q qs ih =>
    have new : q ∉ ps := fun hq =>
      (List.nodup_append.1 nodup).2.2 q hq q List.mem_cons_self rfl
    obtain ⟨first, h⟩ := h.register consistent new
    rw [List.append_cons] at nodup ⊢
    obtain ⟨rest, h⟩ := ih h nodup
    exact ⟨registerAll_cons_eq_nil.2 ⟨first, rest⟩, h⟩

theorem restricts_subgraph (consistent : g.Consistent) (nodup : ps.Nodup) :
    (g.subgraph ps).2 = [] ∧ Restricts g ps (g.subgraph ps).1 :=
  (restricts_empty g).registerAll consistent nodup

/-- A subgraph has the owners of the graph that are among its files. -/
theorem Restricts.providerOf?_eq (h : Restricts g ps sub) (consistent : g.Consistent)
    (declared : g.Declared) {n : Text} :
    sub.providerOf? n = some p ↔ p ∈ ps ∧ g.providerOf? n = some p := by
  rw [h.owner]
  refine and_congr_right fun _ => ⟨fun hn => ?_, declared n p⟩
  obtain ⟨d, hd, rfl⟩ := List.mem_map.1 hn
  exact consistent.owned p d hd

theorem unresolved_eq_nil_iff : g.unresolved = [] ↔
    ∀ x ∈ g.required, ∀ r ∈ x.2, r.isAdvisory = false → (g.providerOf? r.name).isSome := by
  rw [unresolved, sortTexts, List.eq_nil_iff_forall_not_mem]
  simp only [mem_sortBy, mem_dedup, List.mem_filter, List.mem_map, List.mem_flatMap,
    Bool.not_eq_true', Option.isNone_iff_eq_none]
  constructor
  · intro h x hx r hr strict
    refine Option.isSome_iff_ne_none.2 fun none => h r.name ⟨⟨r, ⟨⟨x, hx, hr⟩, strict⟩, rfl⟩, none⟩
  · rintro h n ⟨⟨r, ⟨⟨x, hx, hr⟩, strict⟩, rfl⟩, none⟩
    exact Option.isSome_iff_ne_none.1 (h x hx r hr strict) none

/-! ## Runs through two graphs -/

/-- Two graphs give the same answers about all that some roots need in `g`. -/
structure Agrees (g h : DependencyGraph) (roots : List Text) (rule : SelectionRule) : Prop where
  requires : ∀ p, Taken g roots rule p → h.strictNames p = g.strictNames p
  owner : ∀ n, Wanted g roots rule n → h.providerOf? n = g.providerOf? n
  companion : ∀ n, Wanted g roots rule n → rule.includeTests = true →
    h.providerOf? (n ++ rule.testSuffix) = g.providerOf? (n ++ rule.testSuffix)

namespace Selecting

variable {h : DependencyGraph} {roots : List Text} {rule : SelectionRule} {s : Selecting}
  {name : Text}

theorem expand_congr (agrees : Agrees g h roots rule) (hp : Taken g roots rule p) :
    s.expand h p = s.expand g p := by
  rw [expand_eq, expand_eq, agrees.requires p hp]

theorem Sound.expandCompanion (sound : Sound g roots rule s) (hname : Wanted g roots rule name)
    (hp : g.providerOf? name = some p) : Sound g roots rule (s.expandCompanion g rule name) := by
  rcases expandCompanion_cases g rule s name with ⟨e, -⟩ | ⟨c, tests, hc, e⟩
  · rwa [e]
  · rw [e]
    exact sound.expand (.companion tests hname hp hc)

theorem expandCompanion_congr (agrees : Agrees g h roots rule) (hname : Wanted g roots rule name)
    (hp : g.providerOf? name = some p) :
    s.expandCompanion h rule name = s.expandCompanion g rule name := by
  unfold Selecting.expandCompanion
  split
  · rename_i tests
    rw [agrees.companion name hname tests]
    cases hc : g.providerOf? (name ++ rule.testSuffix) with
    | none => rfl
    | some c =>
      simp only
      rw [expand_congr agrees (.companion tests hname hp hc)]
  · rfl

/-- The loop makes the same way through graphs that agree. -/
theorem runFor_congr (agrees : Agrees g h roots rule) (sound : Sound g roots rule s) (fuel : Nat) :
    runFor h rule fuel s = runFor g rule fuel s := by
  induction fuel generalizing s with
  | zero => rfl
  | succ fuel ih =>
    cases hpending : s.pending with
    | nil => simp only [runFor, hpending]
    | cons name rest =>
      have hname : Wanted g roots rule name := sound.pending name (by simp [hpending])
      simp only [runFor, hpending, agrees.owner name hname]
      cases hp : g.providerOf? name with
      | none => rfl
      | some p =>
        have taken : Taken g roots rule p := .owner hname hp
        have sound' := ((sound.pop hpending).expand taken).expandCompanion hname hp
        simp only
        rw [expand_congr agrees taken, expandCompanion_congr agrees hname hp]
        exact ih sound'

/-- A run that fails or comes to its end gives the same when it may go on longer. -/
theorem runFor_add {fuel : Nat} (ends : ∀ s₁, runFor g rule fuel s = .ok s₁ → s₁.pending = [])
    (more : Nat) : runFor g rule (fuel + more) s = runFor g rule fuel s := by
  induction fuel generalizing s with
  | zero =>
    have pending := ends s rfl
    cases more with
    | zero => rfl
    | succ more => simp only [runFor, pending]
  | succ fuel ih =>
    rw [Nat.add_right_comm]
    cases hpending : s.pending with
    | nil => simp only [runFor, hpending]
    | cons name rest =>
      simp only [runFor, hpending] at ends ⊢
      cases hp : g.providerOf? name with
      | none => rfl
      | some p =>
        simp only [hp] at ends ⊢
        exact ih ends

/-- Two numbers of rounds that are enough give the same. -/
theorem runFor_eq_of_ends {fuel fuel' : Nat}
    (ends : ∀ s₁, runFor g rule fuel s = .ok s₁ → s₁.pending = [])
    (ends' : ∀ s₁, runFor g rule fuel' s = .ok s₁ → s₁.pending = []) :
    runFor g rule fuel' s = runFor g rule fuel s := by
  rw [← runFor_add ends fuel', ← runFor_add ends' fuel, Nat.add_comm]

/-- A run that comes to its end gives the same with any other number of rounds that is enough. -/
theorem runFor_eq_of_done {fuel fuel' : Nat} {s₁ : Selecting}
    (run : runFor g rule fuel s = .ok s₁) (done : s₁.pending = [])
    (enough : ∀ s₂, runFor g rule fuel' s = .ok s₂ → s₂.pending = []) :
    runFor g rule fuel' s = .ok s₁ := by
  rw [runFor_eq_of_ends (fun s₂ run₂ => ?_) enough, run]
  obtain rfl := Except.ok.inj (run.symm.trans run₂)
  exact done

/-- The number of rounds of a selection is enough. -/
theorem pending_of_closure (g : DependencyGraph) (roots : List Text) (rule : SelectionRule)
    (s : Selecting) (run : g.closure roots rule = .ok s) : s.pending = [] := by
  obtain ⟨sound, followed, counted⟩ := start_keeps g roots rule
  rcases runFor_keeps sound followed counted with ⟨s', run', pending, -⟩ | ⟨n, run', -⟩
  · rw [closure, run'] at run
    exact Except.ok.inj run ▸ pending
  · rw [closure, run'] at run
    cases run

end Selecting

/-- Graphs that agree about what the roots need give the same selection, or fail alike. -/
theorem select_congr {h : DependencyGraph} {roots : List Text} {rule : SelectionRule}
    (agrees : Agrees g h roots rule) : h.select roots rule = g.select roots rule := by
  obtain ⟨sound, -, -⟩ := Selecting.start_keeps g roots rule
  have same := Selecting.runFor_congr agrees sound (h.lookBound roots)
  have closures : h.closure roots rule = g.closure roots rule := by
    rw [closure, same]
    refine Selecting.runFor_eq_of_ends (Selecting.pending_of_closure g roots rule) fun s run => ?_
    rw [← same] at run
    exact Selecting.pending_of_closure h roots rule s run
  rw [select, closures, select]

/-- A selection that does not fail has followed up all that is wanted. -/
theorem exists_of_select {roots : List Text} {rule : SelectionRule} {files : List Path}
    (h : g.select roots rule = .ok files) :
    ∃ s, g.closure roots rule = .ok s ∧ s.pending = [] ∧ files = Path.sort s.selected ∧
      files.Nodup ∧ (∀ p, p ∈ files ↔ Taken g roots rule p) ∧
      ∀ n, Wanted g roots rule n → ∃ p, g.providerOf? n = some p ∧ p ∈ files := by
  obtain ⟨sound, followed, counted⟩ := Selecting.start_keeps g roots rule
  rcases Selecting.runFor_keeps sound followed counted with
    ⟨s, run, pending, sound, followed, nodup⟩ | ⟨n, run, -, -⟩
  · rw [select, closure, run] at h
    obtain rfl := Except.ok.inj h
    refine ⟨s, run, pending, rfl, (sortBy_perm _ _).nodup_iff.2 nodup, fun p => ?_, fun n hn => ?_⟩
    · exact (mem_sortBy _).trans
        ⟨sound.selected p, Selecting.mem_selected_of_taken followed pending⟩
    · obtain ⟨p, owner, selected, -⟩ :=
        followed.hasFollowed pending (Selecting.mem_seen_of_wanted followed pending hn)
      exact ⟨p, owner, (mem_sortBy _).2 selected⟩
  · rw [select, closure, run] at h
    cases h

/-- The graph of the selected files agrees with the whole graph. -/
theorem agrees_of_select {roots : List Text} {rule : SelectionRule} (consistent : g.Consistent)
    (declared : g.Declared) (restricts : Restricts g ps sub)
    (files : ∀ p, p ∈ ps ↔ Taken g roots rule p)
    (owned : ∀ n, Wanted g roots rule n → ∃ p, g.providerOf? n = some p ∧ p ∈ ps) :
    Agrees g sub roots rule := by
  have owner (n : Text) (p : Path) := restricts.providerOf?_eq (p := p) consistent declared (n := n)
  refine ⟨fun p hp => ?_, fun n hn => ?_, fun n hn tests => ?_⟩
  · rw [strictNames, strictNames, restricts.requires, if_pos ((files p).2 hp)]
  · obtain ⟨p, found, hp⟩ := owned n hn
    rw [found]
    exact (owner n p).2 ⟨hp, found⟩
  · obtain ⟨p, found, -⟩ := owned n hn
    cases hc : g.providerOf? (n ++ rule.testSuffix) with
    | none =>
      refine Option.eq_none_iff_forall_ne_some.2 fun c none => ?_
      have := ((owner _ c).1 none).2
      rw [hc] at this
      cases this
    | some c => exact (owner _ c).2 ⟨(files c).2 (.companion tests hn found hc), hc⟩

/-- **A selection stands by itself.** A graph comes about by registrations that all succeed, and a
selection from it gives some files. Registered by themselves with their declarations, in any order,
these files bring no failure and leave nothing unresolved, and the same selection from them gives
the same files. -/
theorem subgraph_of_select (rs : List Registration)
    (succeeded : (DependencyGraph.empty.registerAll rs).2 = []) (roots : List Text)
    (rule : SelectionRule) (files order : List Path)
    (selected : (DependencyGraph.empty.registerAll rs).1.select roots rule = .ok files)
    (perm : order.Perm files) :
    let sub := (DependencyGraph.empty.registerAll rs).1.subgraph order
    sub.2 = [] ∧ sub.1.unresolved = [] ∧ sub.1.validate = .ok () ∧
      sub.1.select roots rule = .ok files := by
  have consistent := consistent_registerAll rs
  have declared := declared_registerAll succeeded
  generalize (DependencyGraph.empty.registerAll rs).1 = g at consistent declared selected ⊢
  obtain ⟨s, run, pending, sorted, nodup, taken, owned⟩ := exists_of_select selected
  obtain ⟨ok, restricts⟩ := restricts_subgraph consistent (perm.nodup_iff.2 nodup)
  have taken (p : Path) : p ∈ order ↔ Taken g roots rule p := perm.mem_iff.trans (taken p)
  have owned (n : Text) (hn : Wanted g roots rule n) :
      ∃ p, g.providerOf? n = some p ∧ p ∈ order := by
    obtain ⟨p, owner, hp⟩ := owned n hn
    exact ⟨p, owner, perm.mem_iff.2 hp⟩
  have agrees := agrees_of_select consistent declared restricts taken owned
  have resolved : (g.subgraph order).1.unresolved = [] := by
    refine unresolved_eq_nil_iff.2 fun x hx r hr strict => ?_
    obtain ⟨hp, same⟩ := restricts.required x hx
    have wanted : Wanted g roots rule r.name := .required ((taken _).1 hp) (same ▸ hr) strict
    obtain ⟨q, owner, -⟩ := owned r.name wanted
    rw [agrees.owner r.name wanted, owner]
    rfl
  refine ⟨ok, resolved, by rw [validate, resolved], ?_⟩
  -- the loop through the subgraph is the one through the whole graph, with fewer rounds to go
  obtain ⟨sound, -, -⟩ := Selecting.start_keeps g roots rule
  obtain ⟨sound', followed', counted'⟩ := Selecting.start_keeps (g.subgraph order).1 roots rule
  have same := Selecting.runFor_congr agrees sound ((g.subgraph order).1.lookBound roots)
  have again : (g.subgraph order).1.closure roots rule = .ok s := by
    rw [closure, same]
    refine Selecting.runFor_eq_of_done run pending fun s₂ run₂ => ?_
    rw [← same] at run₂
    rcases Selecting.runFor_keeps sound' followed' counted' with
      ⟨s', run', pending', -⟩ | ⟨n, run', -⟩
    · rw [run'] at run₂
      exact Except.ok.inj run₂ ▸ pending'
    · rw [run'] at run₂
      cases run₂
  rw [select, again, sorted]
  rfl

/-! ## A cycle with a test -/

/-- A file in the root folder. -/
def rootFile (name : Text) : Path := ⟨.root, [name]⟩

/-- A file that needs what nobody provides, two files that require each other, and the test of one
of them. -/
def cycleRegistrations : List Registration :=
  [⟨rootFile "w", [.bare "d" false], [⟨"e", .explicit, .plain, none⟩]⟩,
    ⟨rootFile "x", [.bare "a" false], [⟨"b", .explicit, .plain, none⟩]⟩,
    ⟨rootFile "y", [.bare "b" false], [⟨"a", .forward, .plain, none⟩]⟩,
    ⟨rootFile "z", [.bare "bT" false], []⟩]

/-- What these files come to. -/
def cycleGraph : DependencyGraph where
  owners := [("d", rootFile "w"), ("a", rootFile "x"), ("b", rootFile "y"), ("bT", rootFile "z")]
  provided := [(rootFile "w", [.bare "d" false]), (rootFile "x", [.bare "a" false]),
    (rootFile "y", [.bare "b" false]), (rootFile "z", [.bare "bT" false])]
  required := [(rootFile "w", [⟨"e", .explicit, .plain, none⟩]),
    (rootFile "x", [⟨"b", .explicit, .plain, none⟩]),
    (rootFile "y", [⟨"a", .forward, .plain, none⟩]), (rootFile "z", [])]

theorem registerAll_cycleRegistrations :
    DependencyGraph.empty.registerAll cycleRegistrations = (cycleGraph, []) := by rfl

theorem select_cycleGraph : cycleGraph.select ["a".toList] ⟨true, "T"⟩ =
    .ok [rootFile "x", rootFile "y", rootFile "z"] := by rfl

/-- The theorem for the cycle, whose files are registered backwards. The file that needs what nobody
provides is left out. -/
theorem subgraph_of_select_cycle :
    cycleGraph.unresolved = ["e".toList] ∧
      (let sub := cycleGraph.subgraph [rootFile "z", rootFile "y", rootFile "x"]
      sub.2 = [] ∧ sub.1.unresolved = [] ∧ sub.1.validate = .ok () ∧
        sub.1.select ["a".toList] ⟨true, "T"⟩ =
          .ok [rootFile "x", rootFile "y", rootFile "z"]) := by
  have whole := registerAll_cycleRegistrations
  have stands := subgraph_of_select cycleRegistrations (by rw [whole]) ["a".toList] ⟨true, "T"⟩
    [rootFile "x", rootFile "y", rootFile "z"] [rootFile "z", rootFile "y", rootFile "x"]
    (by rw [whole]; exact select_cycleGraph) (by decide)
  rw [whole] at stands
  exact ⟨by rfl, stands⟩

end Modulize.DependencyGraph
