import Modulize.Graph.Selection
import Modulize.Proofs.Collections

/-!
# A selection is a dependency closure

What some root namespaces need is the least pair of sets of namespaces (`Wanted`) and of files
(`Taken`) that is closed under four rules: a root is wanted; the owner of a wanted namespace is
taken, and with tests also the owner of its test companion; and what a taken file requires, other
than in an advisory way, is wanted. `select_eq_closure` says that a selection gives exactly the
taken files when all wanted namespaces have owners, and otherwise fails at one that has none.

The loop of the selection keeps three properties: all that it has seen is wanted and all that it
has collected is taken (`Sound`); what is seen and not pending any more has been followed up
(`Followed`); and the pending namespaces are few enough for the number of rounds that are left
(`Counted`).
-/

namespace Modulize.DependencyGraph

section Closure

variable (g : DependencyGraph) (roots : List Text) (rule : SelectionRule)

mutual

/-- The namespaces that the roots need. -/
inductive Wanted : Text → Prop
  | root {name : Text} (h : name ∈ roots) : Wanted name
  | required {p : Path} {r : Require} (hp : Taken p) (hr : r ∈ g.requiresOf p)
      (strict : r.isAdvisory = false) : Wanted r.name

/-- The files that the roots need. -/
inductive Taken : Path → Prop
  | owner {name : Text} {p : Path} (h : Wanted name) (hp : g.providerOf? name = some p) : Taken p
  | companion {name : Text} {p c : Path} (tests : rule.includeTests = true) (h : Wanted name)
      (hp : g.providerOf? name = some p)
      (hc : g.providerOf? (name ++ rule.testSuffix) = some c) : Taken c

end

end Closure

/-- The namespaces that a file requires other than in an advisory way. -/
def strictNames (g : DependencyGraph) (p : Path) : List Text :=
  ((g.requiresOf p).filter (! ·.isAdvisory)).map Require.name

theorem mem_strictNames {g : DependencyGraph} {p : Path} {name : Text} :
    name ∈ g.strictNames p ↔ ∃ r ∈ g.requiresOf p, r.isAdvisory = false ∧ r.name = name := by
  simp only [strictNames, List.mem_map, List.mem_filter, Bool.not_eq_true', and_assoc]

theorem Taken.wanted {g : DependencyGraph} {roots : List Text} {rule : SelectionRule} {p : Path}
    (hp : Taken g roots rule p) {n : Text} (hn : n ∈ g.strictNames p) : Wanted g roots rule n := by
  obtain ⟨r, hr, strict, rfl⟩ := mem_strictNames.1 hn
  exact .required hp hr strict

theorem Taken.owned {g : DependencyGraph} {roots : List Text} {rule : SelectionRule} {p : Path}
    (hp : Taken g roots rule p) : ∃ n, g.providerOf? n = some p := by
  cases hp with
  | owner _ owner => exact ⟨_, owner⟩
  | companion _ _ _ companion => exact ⟨_, companion⟩

/-- All namespaces that a selection can come upon. -/
def candidates (g : DependencyGraph) (roots : List Text) : List Text :=
  roots ++ (g.required.flatMap Prod.snd).map Require.name

theorem strictNames_subset_candidates (g : DependencyGraph) (roots : List Text) (p : Path) :
    g.strictNames p ⊆ g.candidates roots := by
  intro name h
  obtain ⟨r, hr, -, rfl⟩ := mem_strictNames.1 h
  refine List.mem_append_right _ (List.mem_map_of_mem ?_)
  unfold requiresOf at hr
  cases hp : lookup? p g.required with
  | none => simp [hp] at hr
  | some rs =>
    rw [hp] at hr
    exact List.mem_flatMap.2 ⟨(p, rs), mem_of_lookup? hp, hr⟩

theorem length_candidates (g : DependencyGraph) (roots : List Text) :
    (g.candidates roots).length + 1 = g.lookBound roots := by
  simp [candidates, lookBound]

namespace Selecting

/-! ## What the operations do -/

theorem enqueue_of_mem {s : Selecting} {name : Text} (h : name ∈ s.seen) :
    s.enqueue name = s := if_pos h

theorem enqueue_of_not_mem {s : Selecting} {name : Text} (h : name ∉ s.seen) :
    s.enqueue name = ⟨s.selected, name :: s.seen, s.pending ++ [name]⟩ := if_neg h

@[simp] theorem enqueue_selected (s : Selecting) (name : Text) :
    (s.enqueue name).selected = s.selected := by
  unfold enqueue
  split <;> rfl

theorem mem_seen_enqueue {s : Selecting} {name n : Text} :
    n ∈ (s.enqueue name).seen ↔ n ∈ s.seen ∨ n = name := by
  by_cases h : name ∈ s.seen
  · rw [enqueue_of_mem h]
    exact ⟨Or.inl, fun hn => hn.elim id fun e => e ▸ h⟩
  · rw [enqueue_of_not_mem h, List.mem_cons, or_comm]

theorem mem_pending_enqueue {s : Selecting} {name n : Text} :
    n ∈ (s.enqueue name).pending ↔ n ∈ s.pending ∨ n = name ∧ n ∉ s.seen := by
  by_cases h : name ∈ s.seen
  · rw [enqueue_of_mem h]
    exact ⟨Or.inl, fun hn => hn.elim id fun ⟨e, hs⟩ => absurd (e ▸ h) hs⟩
  · rw [enqueue_of_not_mem h, List.mem_append, List.mem_singleton]
    exact or_congr_right ⟨fun e => ⟨e, e ▸ h⟩, And.left⟩

@[simp] theorem foldl_enqueue_selected (names : List Text) (s : Selecting) :
    (names.foldl enqueue s).selected = s.selected := by
  induction names generalizing s with
  | nil => rfl
  | cons name names ih => rw [List.foldl_cons, ih, enqueue_selected]

theorem mem_seen_foldl_enqueue {names : List Text} {s : Selecting} {n : Text} :
    n ∈ (names.foldl enqueue s).seen ↔ n ∈ s.seen ∨ n ∈ names := by
  induction names generalizing s with
  | nil => simp
  | cons name names ih => rw [List.foldl_cons, ih, mem_seen_enqueue, List.mem_cons, or_assoc]

theorem mem_pending_foldl_enqueue {names : List Text} {s : Selecting} {n : Text} :
    n ∈ (names.foldl enqueue s).pending ↔ n ∈ s.pending ∨ n ∈ names ∧ n ∉ s.seen := by
  induction names generalizing s with
  | nil => simp
  | cons name names ih =>
    rw [List.foldl_cons, ih, mem_pending_enqueue, mem_seen_enqueue, List.mem_cons]
    by_cases h : n ∈ s.seen <;> by_cases e : n = name <;> simp [h, e]

variable (g : DependencyGraph)

theorem expand_eq (s : Selecting) (p : Path) :
    s.expand g p = (g.strictNames p).foldl enqueue
      (if p ∈ s.selected then s else { s with selected := p :: s.selected }) := rfl

theorem mem_selected_expand {s : Selecting} {p q : Path} :
    q ∈ (s.expand g p).selected ↔ q = p ∨ q ∈ s.selected := by
  rw [expand_eq, foldl_enqueue_selected]
  split
  · rename_i h
    exact ⟨Or.inr, fun hq => hq.elim (fun e => e ▸ h) id⟩
  · exact List.mem_cons

theorem mem_seen_expand {s : Selecting} {p : Path} {n : Text} :
    n ∈ (s.expand g p).seen ↔ n ∈ s.seen ∨ n ∈ g.strictNames p := by
  rw [expand_eq, mem_seen_foldl_enqueue]
  split <;> exact Iff.rfl

theorem mem_pending_expand {s : Selecting} {p : Path} {n : Text} :
    n ∈ (s.expand g p).pending ↔ n ∈ s.pending ∨ n ∈ g.strictNames p ∧ n ∉ s.seen := by
  rw [expand_eq, mem_pending_foldl_enqueue]
  split <;> exact Iff.rfl

/-- The companion is either passed over or collected in the same way as an owner. -/
theorem expandCompanion_cases (rule : SelectionRule) (s : Selecting) (name : Text) :
    (s.expandCompanion g rule name = s ∧
      (rule.includeTests = true → ∀ c, g.providerOf? (name ++ rule.testSuffix) = some c →
        c ∈ s.selected)) ∨
    ∃ c, rule.includeTests = true ∧ g.providerOf? (name ++ rule.testSuffix) = some c ∧
      s.expandCompanion g rule name = s.expand g c := by
  unfold expandCompanion
  split
  · rename_i tests
    cases hc : g.providerOf? (name ++ rule.testSuffix) with
    | none => exact Or.inl ⟨rfl, fun _ c h => nomatch h⟩
    | some c =>
      by_cases h : c ∈ s.selected
      · exact Or.inl ⟨if_pos h, fun _ c' e => Option.some.inj e ▸ h⟩
      · exact Or.inr ⟨c, tests, rfl, if_neg h⟩
  · rename_i tests
    exact Or.inl ⟨rfl, fun h => absurd h tests⟩

/-! ## What a round keeps -/

variable (roots : List Text) (rule : SelectionRule)

/-- Everything seen or pending is wanted, and everything collected is taken. -/
structure Sound (s : Selecting) : Prop where
  seen : ∀ n ∈ s.seen, Wanted g roots rule n
  pending : ∀ n ∈ s.pending, Wanted g roots rule n
  selected : ∀ p ∈ s.selected, Taken g roots rule p

/-- The owner of a namespace is collected and, with tests, so is its companion. -/
def HasFollowed (s : Selecting) (n : Text) : Prop :=
  ∃ p, g.providerOf? n = some p ∧ p ∈ s.selected ∧
    (rule.includeTests = true → ∀ c, g.providerOf? (n ++ rule.testSuffix) = some c →
      c ∈ s.selected)

/-- Nothing is missed: what is seen is looked at just now (`busy`), is pending, or has been
followed up. -/
structure Followed (busy : List Text) (s : Selecting) : Prop where
  roots_seen : roots ⊆ s.seen
  required_seen : ∀ p ∈ s.selected, g.strictNames p ⊆ s.seen
  followed : ∀ n ∈ s.seen, n ∈ busy ∨ n ∈ s.pending ∨ HasFollowed g rule s n

/-- Nothing is noted twice, and the pending namespaces can be looked at in `fuel` rounds. -/
structure Counted (fuel : Nat) (s : Selecting) : Prop where
  selected_nodup : s.selected.Nodup
  nodup : s.seen.Nodup
  subset : s.seen ⊆ g.candidates roots
  enough : s.pending.length + g.lookBound roots ≤ fuel + s.seen.length

variable {g roots rule}

theorem Sound.expand {s : Selecting} (h : Sound g roots rule s) {p : Path}
    (hp : Taken g roots rule p) : Sound g roots rule (s.expand g p) where
  seen n hn := ((mem_seen_expand g).1 hn).elim (h.seen n) hp.wanted
  pending n hn := ((mem_pending_expand g).1 hn).elim (h.pending n) fun hn => hp.wanted hn.1
  selected q hq := by
    rcases (mem_selected_expand g).1 hq with rfl | hq
    · exact hp
    · exact h.selected q hq

theorem HasFollowed.mono {s s' : Selecting} (hs : ∀ p ∈ s.selected, p ∈ s'.selected) {n : Text}
    (h : HasFollowed g rule s n) : HasFollowed g rule s' n := by
  obtain ⟨p, hp, hsel, hc⟩ := h
  exact ⟨p, hp, hs p hsel, fun tests c e => hs c (hc tests c e)⟩

theorem Followed.hasFollowed {s : Selecting} (h : Followed g roots rule [] s)
    (hpending : s.pending = []) {n : Text} (hn : n ∈ s.seen) : HasFollowed g rule s n := by
  have := h.followed n hn
  rw [hpending] at this
  simpa only [List.not_mem_nil, false_or] using this

theorem Followed.expand {busy : List Text} {s : Selecting} (h : Followed g roots rule busy s)
    (p : Path) : Followed g roots rule busy (s.expand g p) where
  roots_seen _ hn := (mem_seen_expand g).2 (Or.inl (h.roots_seen hn))
  required_seen q hq n hn := by
    rcases (mem_selected_expand g).1 hq with rfl | hq
    · exact (mem_seen_expand g).2 (Or.inr hn)
    · exact (mem_seen_expand g).2 (Or.inl (h.required_seen q hq hn))
  followed n hn := by
    have mono : ∀ q ∈ s.selected, q ∈ (s.expand g p).selected := fun q hq =>
      (mem_selected_expand g).2 (Or.inr hq)
    by_cases hs : n ∈ s.seen
    · rcases h.followed n hs with hb | hb | hb
      · exact Or.inl hb
      · exact Or.inr (Or.inl ((mem_pending_expand g).2 (Or.inl hb)))
      · exact Or.inr (Or.inr (hb.mono mono))
    · have hnew := ((mem_seen_expand g).1 hn).resolve_left hs
      exact Or.inr (Or.inl ((mem_pending_expand g).2 (Or.inr ⟨hnew, hs⟩)))

theorem Counted.enqueue {fuel : Nat} {s : Selecting} (h : Counted g roots fuel s) {name : Text}
    (hname : name ∈ g.candidates roots) : Counted g roots fuel (s.enqueue name) := by
  by_cases hs : name ∈ s.seen
  · rwa [enqueue_of_mem hs]
  · have := h.enough
    rw [enqueue_of_not_mem hs]
    refine ⟨h.selected_nodup, List.nodup_cons.2 ⟨hs, h.nodup⟩,
      List.cons_subset.2 ⟨hname, h.subset⟩, ?_⟩
    simp only [List.length_append, List.length_cons, List.length_nil]
    omega

theorem Counted.foldl_enqueue {fuel : Nat} {names : List Text} {s : Selecting}
    (h : Counted g roots fuel s) (hnames : names ⊆ g.candidates roots) :
    Counted g roots fuel (names.foldl Selecting.enqueue s) := by
  induction names generalizing s with
  | nil => exact h
  | cons name names ih =>
    obtain ⟨hname, hnames⟩ := List.cons_subset.1 hnames
    exact ih (h.enqueue hname) hnames

theorem Counted.expand {fuel : Nat} {s : Selecting} (h : Counted g roots fuel s) (p : Path) :
    Counted g roots fuel (s.expand g p) := by
  rw [expand_eq]
  refine Counted.foldl_enqueue ?_ (g.strictNames_subset_candidates roots p)
  split
  · exact h
  · rename_i hp
    exact ⟨List.nodup_cons.2 ⟨hp, h.selected_nodup⟩, h.nodup, h.subset, h.enough⟩

/-- The state with the first pending namespace taken off. -/
def pop (s : Selecting) (rest : List Text) : Selecting := { s with pending := rest }

section Pop

variable {s : Selecting} {name : Text} {rest : List Text} (hpending : s.pending = name :: rest)

include hpending

theorem Sound.pop (h : Sound g roots rule s) : Sound g roots rule (s.pop rest) :=
  ⟨h.seen, fun n hn => h.pending n (by rw [hpending]; exact List.mem_cons_of_mem _ hn), h.selected⟩

theorem Followed.pop (h : Followed g roots rule [] s) :
    Followed g roots rule [name] (s.pop rest) := by
  refine ⟨h.roots_seen, h.required_seen, fun n hn => ?_⟩
  have := h.followed n hn
  rw [hpending, List.mem_cons] at this
  simp only [List.not_mem_nil, false_or, or_assoc] at this
  exact this.imp_left List.mem_singleton.2

theorem Counted.pop {fuel : Nat} (h : Counted g roots (fuel + 1) s) :
    Counted g roots fuel (s.pop rest) := by
  have := h.enough
  rw [hpending, List.length_cons] at this
  exact ⟨h.selected_nodup, h.nodup, h.subset, by simp only [Selecting.pop]; omega⟩

end Pop

theorem Followed.finish {s : Selecting} {name : Text} (h : Followed g roots rule [name] s)
    (done : HasFollowed g rule s name) : Followed g roots rule [] s := by
  refine ⟨h.roots_seen, h.required_seen, fun n hn => ?_⟩
  rcases h.followed n hn with hb | hb
  · exact Or.inr (Or.inr (List.mem_singleton.1 hb ▸ done))
  · exact Or.inr hb

/-- **One round**: looking at the first pending namespace, whose owner is `p`, keeps all three
properties, with one round less to go. -/
theorem round_keeps {s : Selecting} {name : Text} {rest : List Text} {p : Path} {fuel : Nat}
    (hpending : s.pending = name :: rest) (hp : g.providerOf? name = some p)
    (hs : Sound g roots rule s) (hf : Followed g roots rule [] s)
    (hc : Counted g roots (fuel + 1) s) :
    let s' := ((s.pop rest).expand g p).expandCompanion g rule name
    Sound g roots rule s' ∧ Followed g roots rule [] s' ∧ Counted g roots fuel s' := by
  have hname : Wanted g roots rule name := hs.pending name (by simp [hpending])
  have sound := (hs.pop hpending).expand (.owner hname hp)
  have followed := (hf.pop hpending).expand p
  have counted := (hc.pop hpending).expand p
  have hsel : p ∈ ((s.pop rest).expand g p).selected := (mem_selected_expand g).2 (Or.inl rfl)
  -- the namespace is done once its companion has been dealt with
  rcases expandCompanion_cases g rule ((s.pop rest).expand g p) name with
    ⟨he, hcomp⟩ | ⟨c, tests, hcomp, he⟩
  · simp only [he]
    exact ⟨sound, followed.finish ⟨p, hp, hsel, hcomp⟩, counted⟩
  · simp only [he]
    refine ⟨sound.expand (.companion tests hname hp hcomp), (followed.expand c).finish ?_,
      counted.expand c⟩
    refine ⟨p, hp, (mem_selected_expand g).2 (Or.inr hsel), fun _ c' hc' => ?_⟩
    rw [hcomp] at hc'
    exact (mem_selected_expand g).2 (Or.inl (Option.some.inj hc').symm)

/-- **The whole run** ends with nothing pending, or at a wanted namespace without an owner. -/
theorem runFor_keeps {fuel : Nat} {s : Selecting} (hs : Sound g roots rule s)
    (hf : Followed g roots rule [] s) (hc : Counted g roots fuel s) :
    (∃ s', runFor g rule fuel s = .ok s' ∧ s'.pending = [] ∧ Sound g roots rule s' ∧
      Followed g roots rule [] s' ∧ s'.selected.Nodup) ∨
    ∃ n, runFor g rule fuel s = .error (.unresolved [n]) ∧ Wanted g roots rule n ∧
      g.providerOf? n = none := by
  induction fuel generalizing s with
  | zero =>
    -- more namespaces would have been looked at than there are
    have := hc.nodup.length_le_of_subset hc.subset
    have := hc.enough
    have := g.length_candidates roots
    omega
  | succ fuel ih =>
    cases hpending : s.pending with
    | nil => exact Or.inl ⟨s, by simp only [runFor, hpending], hpending, hs, hf, hc.selected_nodup⟩
    | cons name rest =>
      cases hp : g.providerOf? name with
      | none =>
        refine Or.inr ⟨name, ?_, hs.pending name (by simp [hpending]), hp⟩
        simp only [runFor, hpending, hp]
        rfl
      | some p =>
        obtain ⟨hs', hf', hc'⟩ := round_keeps hpending hp hs hf hc
        simp only [runFor, hpending, hp]
        exact ih hs' hf' hc'

theorem start_keeps (g : DependencyGraph) (roots : List Text) (rule : SelectionRule) :
    let s := roots.foldl enqueue ⟨[], [], []⟩
    Sound g roots rule s ∧ Followed g roots rule [] s ∧ Counted g roots (g.lookBound roots) s := by
  have hseen : ∀ n, n ∈ (roots.foldl enqueue ⟨[], [], []⟩).seen ↔ n ∈ roots := fun n => by
    simp [mem_seen_foldl_enqueue]
  have hpending : ∀ n, n ∈ (roots.foldl enqueue ⟨[], [], []⟩).pending ↔ n ∈ roots := fun n => by
    simp [mem_pending_foldl_enqueue]
  refine ⟨⟨fun n hn => .root ((hseen n).1 hn), fun n hn => .root ((hpending n).1 hn), ?_⟩,
    ⟨fun n hn => (hseen n).2 hn, ?_, fun n hn => ?_⟩, ?_⟩
  · simp
  · simp
  · exact Or.inr (Or.inl ((hpending n).2 ((hseen n).1 hn)))
  · refine Counted.foldl_enqueue ⟨List.nodup_nil, List.nodup_nil, List.nil_subset _, ?_⟩
      (List.subset_append_left ..)
    simp

/-! ## A finished run -/

mutual

theorem mem_seen_of_wanted {s : Selecting} (hf : Followed g roots rule [] s)
    (hpending : s.pending = []) {n : Text} (h : Wanted g roots rule n) : n ∈ s.seen :=
  match h with
  | .root h => hf.roots_seen h
  | .required hp hr strict =>
    hf.required_seen _ (mem_selected_of_taken hf hpending hp)
      (mem_strictNames.2 ⟨_, hr, strict, rfl⟩)

theorem mem_selected_of_taken {s : Selecting} (hf : Followed g roots rule [] s)
    (hpending : s.pending = []) {p : Path} (h : Taken g roots rule p) : p ∈ s.selected :=
  match h with
  | .owner h hp => by
    obtain ⟨p', hp', hsel, -⟩ := hf.hasFollowed hpending (mem_seen_of_wanted hf hpending h)
    exact Option.some.inj (hp.symm.trans hp') ▸ hsel
  | .companion tests h hp hc => by
    obtain ⟨-, -, -, hcomp⟩ := hf.hasFollowed hpending (mem_seen_of_wanted hf hpending h)
    exact hcomp tests _ hc

end

end Selecting

/-- **A selection is a dependency closure.** When every wanted namespace has an owner, it gives
exactly the taken files, each once; otherwise it fails and names a single wanted namespace, which
has no owner. -/
theorem select_eq_closure (g : DependencyGraph) (roots : List Text) (rule : SelectionRule) :
    ((∀ n, Wanted g roots rule n → (g.providerOf? n).isSome) →
      ∃ files, g.select roots rule = .ok files ∧ files.Nodup ∧
        ∀ p, p ∈ files ↔ Taken g roots rule p) ∧
    ((¬ ∀ n, Wanted g roots rule n → (g.providerOf? n).isSome) →
      ∃ n, g.select roots rule = .error (.unresolved [n]) ∧ Wanted g roots rule n ∧
        g.providerOf? n = none) := by
  obtain ⟨hs, hf, hc⟩ := Selecting.start_keeps g roots rule
  rcases Selecting.runFor_keeps hs hf hc with
    ⟨s, hrun, hpending, hs, hf, hnodup⟩ | ⟨n, hrun, hn, hp⟩
  · have owned : ∀ n, Wanted g roots rule n → (g.providerOf? n).isSome := fun n hn => by
      obtain ⟨p, hp, -⟩ := hf.hasFollowed hpending (Selecting.mem_seen_of_wanted hf hpending hn)
      rw [hp]
      rfl
    refine ⟨fun _ => ⟨Path.sort s.selected, ?_, ?_, fun p => ?_⟩, fun h => absurd owned h⟩
    · rw [select, closure, hrun]
      rfl
    · exact (sortBy_perm _ _).nodup_iff.2 hnodup
    · exact (mem_sortBy _).trans ⟨hs.selected p, Selecting.mem_selected_of_taken hf hpending⟩
  · refine ⟨fun owned => ?_, fun _ => ⟨n, ?_, hn, hp⟩⟩
    · have := owned n hn
      rw [hp] at this
      cases this
    · rw [select, closure, hrun]
      rfl

/-- Two files that require each other, and the test companion of the second one. -/
example :
    let file (name : Text) : Path := ⟨.root, [name]⟩
    let need (name : Text) : Require := ⟨name, .explicit, .plain, none⟩
    let g : DependencyGraph :=
      ⟨[(['a'], file ['x']), (['b'], file ['y']), (['b', 'T'], file ['z'])], [],
        [(file ['x'], [need ['b']]), (file ['y'], [need ['a']])]⟩
    g.select [['a']] ⟨true, ['T']⟩ = .ok [file ['x'], file ['y'], file ['z']] := by
  rfl

end Modulize.DependencyGraph
