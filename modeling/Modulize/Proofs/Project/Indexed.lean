import Modulize.Project.Index
import Modulize.Proofs.Graph.Registration
import Modulize.Proofs.Session

/-!
# What a graph knows about indexed files

The declarations of files enter the graph one file after another. `ReadRule.addTexts` is that loop
on the texts of the files alone; it is what a session does that writes no log (`runOn_indexFiles`).

The graph that results repeats what the texts declare (`Declares`): the namespaces under the path of
a file are those that its text provides, each once (`declares_addTexts`), in the shape that they
have there (`shape_of_mem_providesOf`).
-/

namespace Modulize

namespace ReadRule

/-- Register a file from its text. The graph that results is given also on failure. -/
def addText (rule : ReadRule) (g : DependencyGraph) (p : Path) (t : Text) :
    DependencyGraph × Option Failure :=
  match (rule.read p t).2 with
  | .error f => (g, some f)
  | .ok none => (g, none)
  | .ok (some d) => g.addFile p d.provides d.requires

/-- Register files from their texts, one after another, up to the first failure. -/
def addTexts (rule : ReadRule) : DependencyGraph → List (Path × Text) →
    DependencyGraph × Option Failure
  | g, [] => (g, none)
  | g, (p, t) :: files =>
    match rule.addText g p t with
    | (g, some f) => (g, some f)
    | (g, none) => addTexts rule g files

end ReadRule

/-! ## Sessions that index -/

namespace Session

variable {w : World}

theorem runOn_readDeclarations (rule : ReadRule) {p : Path} {t : Text} (hlog : w.logFile = none)
    (ht : w.files.sourceAt p = .ok t) :
    ∃ w', (readDeclarations rule p).runOn w = ((rule.read p t).2, w') ∧ w.Quiet w' := by
  obtain ⟨w', run, quiet⟩ := runOn_emitAll (rule.read p t).1 hlog
  have source : (read (·.sourceAt p)).runOn w = (.ok t, w) := by rw [← ht]; rfl
  refine ⟨w', ?_, quiet⟩
  rw [readDeclarations, runOn_bind, source]
  change ((emitAll (rule.read p t).1 >>= fun _ => ofResult (rule.read p t).2).runOn w) = _
  rw [runOn_bind, run]
  rfl

theorem runOn_indexFile (rule : ReadRule) (g : DependencyGraph) {p : Path} {t : Text}
    (hlog : w.logFile = none) (ht : w.files.sourceAt p = .ok t) :
    ∃ w', (indexFile rule g p).runOn w = (.ok (rule.addText g p t), w') ∧ w.Quiet w' := by
  obtain ⟨w', run, quiet⟩ := runOn_readDeclarations rule hlog ht
  have attempted : (attempt (readDeclarations rule p)).runOn w = (.ok (rule.read p t).2, w') := by
    change (((readDeclarations rule p).runOn w).map Except.ok id) = _
    rw [run]
    rfl
  rw [indexFile, runOn_bind, attempted, ReadRule.addText]
  cases rule.read p t with
  | mk _ result =>
    match result with
    | .error f => exact ⟨w', rfl, quiet⟩
    | .ok none => exact ⟨w', rfl, quiet⟩
    | .ok (some d) =>
      cases added : g.addFile p d.provides d.requires with
      | mk g' failure =>
        cases failure with
        | some f => exact ⟨w', by simp only [added]; rfl, quiet⟩
        | none =>
          refine ⟨w'.note (indexedEvent p d), by simp only [added]; rfl, ?_⟩
          exact quiet.trans (World.quiet_note quiet.logFile _)

/-- **What a session indexes**, if it writes no log, depends on the texts of the files only. -/
theorem runOn_indexFiles (rule : ReadRule) (text : Path → Text) (g : DependencyGraph)
    (ps : List Path) (hlog : w.logFile = none)
    (htext : ∀ p ∈ ps, w.files.sourceAt p = .ok (text p)) :
    ∃ w', (indexFiles rule g ps).runOn w =
      (.ok (rule.addTexts g (ps.map fun p => (p, text p))), w') ∧ w.Quiet w' := by
  induction ps generalizing g w with
  | nil => exact ⟨w, rfl, .refl hlog⟩
  | cons p ps ih =>
    obtain ⟨w', run, quiet⟩ := runOn_indexFile rule g hlog (htext p List.mem_cons_self)
    rw [indexFiles, runOn_bind, run, List.map_cons, ReadRule.addTexts]
    cases rule.addText g p (text p) with
    | mk g' failure =>
      cases failure with
      | some f => exact ⟨w', rfl, quiet⟩
      | none =>
        have rest := ih g' quiet.logFile fun q hq => by
          rw [quiet.files]
          exact htext q (List.mem_cons_of_mem _ hq)
        obtain ⟨w'', run', quiet'⟩ := rest
        exact ⟨w'', run', quiet.trans quiet'⟩

end Session

/-! ## Declarations -/

namespace DependencyGraph

/-- What registering a file that is new to a graph adds to it. -/
theorem eq_of_addFile {g g' : DependencyGraph} {p : Path} {ds : List Provide}
    {rs : List Require} (h : g.addFile p ds rs = (g', none)) (new : lookup? p g.provided = none) :
    (ds.map Provide.name).Nodup ∧ g'.owners = g.owners ++ ds.map (fun d => (d.name, p)) ∧
      g'.provided = assign p ds g.provided := by
  have free : Free g.owners ds :=
    register_eq_none_iff (r := ⟨p, ds, rs⟩).1 (congrArg Prod.snd h)
  obtain ⟨rfl, -⟩ := Prod.mk.inj (h.symm.trans (register_of_free (r := ⟨p, ds, rs⟩) free))
  exact ⟨free.nodup, rfl, by simp [extend, new]⟩

end DependencyGraph

namespace ReadRule

variable {rule : ReadRule}

/-- A graph repeats the texts of files: the namespaces under the path of a file are those that its
text provides, each once, and the owner of a namespace provides it. -/
structure Declares (rule : ReadRule) (files : List (Path × Text)) (g : DependencyGraph) : Prop where
  provided : ∀ p ds, lookup? p g.provided = some ds →
    ∃ t unclear, (p, t) ∈ files ∧ rule.providesOf t = .ok (ds, unclear) ∧
      (ds.map Provide.name).Nodup
  owned : ∀ n p, g.providerOf? n = some p → ∃ ds, lookup? p g.provided = some ds ∧
    n ∈ ds.map Provide.name

theorem Declares.mono {files files' : List (Path × Text)} {g : DependencyGraph}
    (h : rule.Declares files g) (sub : files ⊆ files') : rule.Declares files' g := by
  refine ⟨fun p ds hp => ?_, h.owned⟩
  obtain ⟨t, unclear, hmem, rest⟩ := h.provided p ds hp
  exact ⟨t, unclear, sub hmem, rest⟩

/-- An owned namespace is found among those that the text of its owner provides. -/
theorem Declares.exists_provide {files : List (Path × Text)} {g : DependencyGraph} {n : Text}
    {p : Path} (h : rule.Declares files g) (owner : g.providerOf? n = some p) :
    ∃ d t unclear, g.provide? n = some d ∧ d ∈ g.providesOf p ∧ d.name = n ∧ (p, t) ∈ files ∧
      rule.providesOf t = .ok (g.providesOf p, unclear) ∧
      ((g.providesOf p).map Provide.name).Nodup := by
  obtain ⟨ds, found, hn⟩ := h.owned n p owner
  obtain ⟨t, unclear, file, provides, nodup⟩ := h.provided p ds found
  have same : g.providesOf p = ds := by simp [DependencyGraph.providesOf, found]
  obtain ⟨e, he, hname⟩ := List.mem_map.1 hn
  cases hd : ds.find? (·.name = n) with
  | none =>
    have := List.find?_eq_none.1 hd e he
    simp [hname] at this
  | some d =>
    have provide : g.provide? n = some d := by
      simp [DependencyGraph.provide?, owner, same, hd]
    have hname : d.name = n := by simpa using List.find?_some hd
    rw [same]
    exact ⟨d, t, unclear, provide, List.mem_of_find?_eq_some hd, hname, file, provides, nodup⟩

theorem providesOf_of_read {p : Path} {t : Text} {d : FileDeclarations}
    (h : (rule.read p t).2 = .ok (some d)) :
    ∃ unclear, rule.providesOf t = .ok (d.provides, unclear) := by
  unfold read at h
  split at h
  · cases h
  · split at h
    · cases h
    · rename_i provides unclear found
      split at h
      · cases h
      · cases hr : rule.requiresOf p t provides with
        | error f =>
          simp only [hr] at h
          cases h
        | ok requires =>
          simp only [hr] at h
          cases h
          exact ⟨unclear, found⟩

/-- Registering a file that is not there yet keeps the graph true to the texts. -/
theorem Declares.addText {files : List (Path × Text)} {g g' : DependencyGraph} {p : Path} {t : Text}
    (h : rule.Declares files g) (new : p ∉ files.map Prod.fst)
    (added : rule.addText g p t = (g', none)) : rule.Declares (files ++ [(p, t)]) g' := by
  unfold ReadRule.addText at added
  split at added
  · cases added
  · obtain ⟨rfl, -⟩ := Prod.mk.inj added
    exact h.mono (List.subset_append_left _ _)
  · rename_i d hread
    have free : lookup? p g.provided = none := by
      cases found : lookup? p g.provided with
      | none => rfl
      | some ds =>
        obtain ⟨t', _, hmem, -⟩ := h.provided p ds found
        exact absurd (List.mem_map_of_mem hmem) new
    obtain ⟨nodup, owners, provided⟩ := DependencyGraph.eq_of_addFile added free
    refine ⟨fun q ds hq => ?_, fun n q hq => ?_⟩
    · rw [provided, lookup?_assign] at hq
      split at hq
      · rename_i same
        obtain rfl := Option.some.inj hq
        obtain ⟨unclear, found⟩ := providesOf_of_read hread
        exact ⟨t, unclear, by simp [same], found, nodup⟩
      · exact (h.mono (List.subset_append_left _ _)).provided q ds hq
    · rw [DependencyGraph.providerOf?, owners, lookup?_append, Option.or_eq_some_iff] at hq
      rcases hq with old | ⟨-, taken⟩
      · obtain ⟨ds, found, hn⟩ := h.owned n q old
        have other : p ≠ q := by
          rintro rfl
          cases free.symm.trans found
        exact ⟨ds, by rw [provided, lookup?_assign, if_neg other, found], hn⟩
      · obtain ⟨e, he, same⟩ := List.mem_map.1 (mem_of_lookup? taken)
        obtain ⟨rfl, rfl⟩ := Prod.mk.inj same
        exact ⟨d.provides, by rw [provided, lookup?_assign, if_pos rfl], List.mem_map_of_mem he⟩

theorem declares_of_addTexts {done files : List (Path × Text)} {g g' : DependencyGraph}
    (h : rule.Declares done g) (nodup : ((done ++ files).map Prod.fst).Nodup)
    (added : rule.addTexts g files = (g', none)) : rule.Declares (done ++ files) g' := by
  induction files generalizing done g with
  | nil =>
    obtain ⟨rfl, -⟩ := Prod.mk.inj added
    exact h.mono (List.subset_append_left _ _)
  | cons file files ih =>
    obtain ⟨p, t⟩ := file
    unfold addTexts at added
    split at added
    · cases added
    · rename_i g₁ first
      have new : p ∉ done.map Prod.fst := by
        intro hp
        rw [List.map_append, List.nodup_append] at nodup
        exact nodup.2.2 p hp p List.mem_cons_self rfl
      rw [List.append_cons] at nodup ⊢
      exact ih (h.addText new first) nodup added

/-- **The graph of distinct files declares what their texts do.** -/
theorem declares_addTexts {files : List (Path × Text)} {g : DependencyGraph}
    (nodup : (files.map Prod.fst).Nodup) (added : rule.addTexts .empty files = (g, none)) :
    rule.Declares files g := by
  have start : rule.Declares [] .empty := by
    refine ⟨fun p ds h => ?_, fun n p h => ?_⟩
    · simp [DependencyGraph.empty, lookup?] at h
    · simp [DependencyGraph.providerOf?, DependencyGraph.empty, lookup?] at h
  exact declares_of_addTexts start nodup added

/-- The shape that is known of a namespace is its shape in the text that declares it. -/
theorem shape_of_mem_providesOf {t : Text} {ds : List Provide} {unclear : Option Failure}
    (h : rule.providesOf t = .ok (ds, unclear)) {d : Provide} (hd : d ∈ ds) {s : Shape}
    (hs : d.shape = some s) : s = Declaration.shapeOf t d.name := by
  unfold providesOf at h
  split at h
  · rename_i provides found
    obtain ⟨rfl, -⟩ := Prod.mk.inj (Except.ok.inj h)
    obtain ⟨m, -, hm⟩ := exists_of_mem_mapM found hd
    unfold Declaration.readProvide at hm
    split at hm
    · obtain ⟨exports, -, hm⟩ := bind_eq_ok hm
      split at hm
      · cases hm
      · obtain rfl := Except.ok.inj hm
        cases hs
    · obtain rfl := Except.ok.inj hm
      exact (Option.some.inj hs).symm
  · split at h
    · obtain ⟨rfl, -⟩ := Prod.mk.inj (Except.ok.inj h)
      obtain ⟨m, -, rfl⟩ := List.mem_map.1 hd
      cases hs
    · cases h

end ReadRule

end Modulize
