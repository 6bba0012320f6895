import Modulize.Proofs.Graph.Registration
import Modulize.Proofs.Text
import Modulize.Recast.Imports

/-!
# Siblings of required namespaces

A namespace that a text mentions is required along with another one when it stands below that one
and the same other file provides both (`IsSibling`). The siblings are gathered in one walk over the
required namespaces, which does not come back to those that it has found (`mem_gatherSiblings`,
`nodup_gatherSiblings`).

One walk is enough (`isSibling_append_iff`): what stands below a sibling, in the file that provides
it, stands below the required namespace too. So `withSiblings` adds exactly the siblings, and adds
nothing to what it has completed (`withSiblings_complete`).
-/

namespace Modulize.Recast.FileContext

variable {ctx : FileContext} {t name above : Text} {required names : List Text}

/-- A namespace is provided along with another one above it, by a file that is not the one that is
recast. -/
def ProvidedBelow (ctx : FileContext) (above name : Text) : Prop :=
  above ++ ['.'] <+: name ∧ ∃ p, ctx.graph.providerOf? above = some p ∧ p ≠ ctx.path ∧
    name ∈ (ctx.graph.providesOf p).map Provide.name

/-- A namespace is a sibling of required ones: it is mentioned and not required itself, and is
provided below one of them. -/
def IsSibling (ctx : FileContext) (t : Text) (required : List Text) (name : Text) : Prop :=
  name ∉ required ∧ name <:+: t ∧ ∃ above ∈ required, ctx.ProvidedBelow above name

/-! ## One walk over the required namespaces -/

theorem mem_siblings : name ∈ ctx.siblings t required above ↔
    name ∉ required ∧ name <:+: t ∧ ctx.ProvidedBelow above name := by
  unfold siblings ProvidedBelow
  cases owner : ctx.graph.providerOf? above with
  | none => simp
  | some p =>
    by_cases own : p = ctx.path
    · simp [own]
    · simp only [if_neg own, List.mem_filter, decide_eq_true_eq, Text.startsWith_iff_prefix,
        Text.contains_iff_infix]
      constructor
      · rintro ⟨provided, new, below, mentioned⟩
        exact ⟨new, mentioned, below, p, rfl, own, provided⟩
      · rintro ⟨new, mentioned, below, q, same, -, provided⟩
        obtain rfl := Option.some.inj same
        exact ⟨provided, new, below, mentioned⟩

/-- The walk finds what is provided below the namespaces that it goes through. -/
theorem mem_gatherSiblings : name ∈ ctx.gatherSiblings t required names ↔
    name ∉ required ∧ name <:+: t ∧ ∃ above ∈ names, ctx.ProvidedBelow above name := by
  induction names generalizing required with
  | nil => simp [gatherSiblings]
  | cons above names ih =>
    simp only [gatherSiblings, List.mem_append, mem_dedup, mem_siblings, ih, not_or,
      List.exists_mem_cons_iff]
    by_cases below : ctx.ProvidedBelow above name
    · simp only [below, and_true, true_or]
      tauto
    · simp only [below, and_false, false_or, not_false_eq_true, and_true]

/-- The walk finds nothing twice. -/
theorem nodup_gatherSiblings (ctx : FileContext) (t : Text) (required names : List Text) :
    (ctx.gatherSiblings t required names).Nodup := by
  induction names generalizing required with
  | nil => exact List.nodup_nil
  | cons above names ih =>
    refine List.nodup_append.2 ⟨nodup_dedup _, ih _, fun name found name' later => ?_⟩
    rintro rfl
    exact (mem_gatherSiblings.1 later).1 (List.mem_append_right _ found)

/-! ## One walk is enough -/

/-- What is provided below a namespace that is provided below a third one is provided below that. -/
theorem ProvidedBelow.trans (consistent : ctx.graph.Consistent) {top : Text}
    (h : ctx.ProvidedBelow top above) (h' : ctx.ProvidedBelow above name) :
    ctx.ProvidedBelow top name := by
  obtain ⟨below, p, owner, other, provided⟩ := h
  obtain ⟨below', q, owner', -, provided'⟩ := h'
  obtain ⟨d, hd, rfl⟩ := List.mem_map.1 provided
  -- the file in the middle is the one that provides the namespace in the middle
  obtain rfl : p = q := Option.some.inj ((consistent.owned p d hd).symm.trans owner')
  have further : top ++ ['.'] <+: name := below.trans ((List.prefix_append _ _).trans below')
  exact ⟨further, p, owner, other, provided'⟩

/-- Siblings of siblings are siblings. -/
theorem isSibling_append_iff (consistent : ctx.graph.Consistent) {added : List Text}
    (siblings : ∀ above ∈ added, ctx.IsSibling t required above) :
    ctx.IsSibling t (required ++ added) name ↔ ctx.IsSibling t required name ∧ name ∉ added := by
  constructor
  · rintro ⟨new, mentioned, above, hab, below⟩
    rw [List.mem_append, not_or] at new
    refine ⟨⟨new.1, mentioned, ?_⟩, new.2⟩
    rcases List.mem_append.1 hab with old | late
    · exact ⟨above, old, below⟩
    · obtain ⟨-, -, top, htop, below'⟩ := siblings above late
      exact ⟨top, htop, below'.trans consistent below⟩
  · rintro ⟨⟨new, mentioned, above, old, below⟩, other⟩
    exact ⟨by simp [new, other], mentioned, above, List.mem_append_left _ old, below⟩

/-- The namespaces that are added to the dependencies of a file. -/
def addedSiblings (ctx : FileContext) (t : Text) : List Text :=
  let required := dedup ((ctx.graph.requiresOf ctx.path).map Require.name)
  ctx.gatherSiblings t required (sortTexts required)

theorem withSiblings_eq (ctx : FileContext) (t : Text) : ctx.withSiblings t =
    ctx.graph.requiresOf ctx.path ++ (ctx.addedSiblings t).map Require.implied := rfl

theorem mem_addedSiblings : name ∈ ctx.addedSiblings t ↔
    ctx.IsSibling t ((ctx.graph.requiresOf ctx.path).map Require.name) name := by
  rw [addedSiblings, mem_gatherSiblings]
  simp only [IsSibling, sortTexts, mem_sortBy, mem_dedup]

theorem withSiblings_eq_self
    (none : ∀ name, ¬ ctx.IsSibling t ((ctx.graph.requiresOf ctx.path).map Require.name) name) :
    ctx.withSiblings t = ctx.graph.requiresOf ctx.path := by
  have nothing : ctx.addedSiblings t = [] :=
    List.eq_nil_iff_forall_not_mem.2 fun name mem => none name (mem_addedSiblings.1 mem)
  rw [withSiblings_eq, nothing, List.map_nil, List.append_nil]

open DependencyGraph in
/-- Registering dependencies alone leaves it as it is what is provided, and by whom. -/
theorem providedBelow_register (ctx : FileContext) (rs : List Require) :
    ({ ctx with graph := (ctx.graph.register ⟨ctx.path, [], rs⟩).1 } : FileContext).ProvidedBelow
      above name ↔ ctx.ProvidedBelow above name := by
  have free : Free ctx.graph.owners [] := free_nil
  set r : Registration := ⟨ctx.path, [], rs⟩ with hr
  have provided p : (ctx.graph.register r).1.providesOf p = ctx.graph.providesOf p := by
    rw [providesOf_register_of_free free, hr]
    simp
  have owner p : (ctx.graph.register r).1.providerOf? above = some p ↔
      ctx.graph.providerOf? above = some p := by
    rw [providerOf?_register_of_free free, hr]
    simp
  simp only [ProvidedBelow, owner, provided]

open DependencyGraph in
/-- **The siblings are found in one walk.** After any row of registrations, for any file and text:
what follows the file's own dependencies is one implied dependency for each sibling, each once; the
completed dependencies have no siblings; and when the file is registered with those that were added,
nothing is added any more. -/
theorem withSiblings_complete (rs : List Registration) (settings : RecastSettings) (path : Path)
    (t : Text) :
    let ctx : FileContext := ⟨(DependencyGraph.empty.registerAll rs).1, settings, path⟩
    ∃ added : List Text,
      ctx.withSiblings t = ctx.graph.requiresOf path ++ added.map Require.implied ∧
      added.Nodup ∧
      (∀ name, name ∈ added ↔
        ctx.IsSibling t ((ctx.graph.requiresOf path).map Require.name) name) ∧
      (∀ name, ¬ ctx.IsSibling t ((ctx.withSiblings t).map Require.name) name) ∧
      ({ ctx with
          graph := (ctx.graph.register ⟨path, [], added.map Require.implied⟩).1 } : FileContext
        ).withSiblings t = ctx.withSiblings t := by
  intro ctx
  have consistent : ctx.graph.Consistent := consistent_registerAll rs
  have names : (ctx.withSiblings t).map Require.name =
      (ctx.graph.requiresOf path).map Require.name ++ ctx.addedSiblings t := by
    rw [withSiblings_eq, List.map_append, List.map_map]
    exact congrArg _ (List.map_id _)
  have closed name : ¬ ctx.IsSibling t ((ctx.withSiblings t).map Require.name) name := by
    rw [names, isSibling_append_iff consistent fun above mem => mem_addedSiblings.1 mem]
    rintro ⟨sibling, other⟩
    exact other (mem_addedSiblings.2 sibling)
  refine ⟨ctx.addedSiblings t, withSiblings_eq ctx t, nodup_gatherSiblings .., fun name =>
    mem_addedSiblings, closed, ?_⟩
  let r : Registration := ⟨path, [], (ctx.addedSiblings t).map Require.implied⟩
  have required : (ctx.graph.register r).1.requiresOf path = ctx.withSiblings t := by
    rw [requiresOf_register_of_free free_nil, withSiblings_eq, if_pos rfl]
  rw [withSiblings_eq_self, required]
  intro name
  rw [required]
  rintro ⟨new, mentioned, above, hab, below⟩
  exact closed name ⟨new, mentioned, above, hab, (providedBelow_register ctx _).1 below⟩

end Modulize.Recast.FileContext
