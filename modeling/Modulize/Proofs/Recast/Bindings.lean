import Mathlib.Data.List.Nodup
import Modulize.Proofs.Recast.Turns

/-!
# The names that a file declares

The conversion of a file declares local names: those of its defines, and on the turn of a namespace
the name of the value or the names of the members. This module records them, in the order in which
they are declared (`declaredNames`), together with whether they are exported. A name is recorded by
the step that declares it, and only if this step finds a declaration to turn.

* The names that are exported are listed in the entries of the converted file
  (`lists_of_mem_declaredNames`).
* The members of one namespace are declared under different names, unless one of them is reserved
  and another has the name that it is declared under (`nodup_boundByMembers`).
-/

namespace Modulize.Recast

/-! ## Recorded runs -/

section Trace

variable {σ α β ε : Type} {s s' : σ} {l : List α}

/-- What the steps of a run give, one after another, up to the first step that fails. -/
def trace (step : σ → α → Except ε σ) (out : σ → α → List β) : σ → List α → List β
  | _, [] => []
  | s, a :: l =>
    match step s a with
    | .ok s' => out s a ++ trace step out s' l
    | .error _ => []

variable {step : σ → α → Except ε σ} (out : σ → α → List β)

/-- What holds of everything that a step gives, when the step has been made, and is kept by the
steps after it, holds in the end of everything that the run gives. -/
theorem forall_mem_trace {Q : σ → β → Prop}
    (keep : ∀ s a s', step s a = .ok s' → ∀ b, Q s b → Q s' b)
    (new : ∀ s a s', step s a = .ok s' → ∀ b ∈ out s a, Q s' b)
    (h : l.foldlM step s = .ok s') :
    (∀ b, Q s b → Q s' b) ∧ ∀ b ∈ trace step out s l, Q s' b := by
  induction l generalizing s with
  | nil =>
    obtain rfl := Except.ok.inj h
    exact ⟨fun _ => id, fun _ hb => (List.not_mem_nil hb).elim⟩
  | cons a l ih =>
    rw [List.foldlM_cons] at h
    obtain ⟨s₁, first, h⟩ := bind_eq_ok h
    obtain ⟨kept, given⟩ := ih h
    refine ⟨fun b hb => kept b (keep s a s₁ first b hb), fun b hb => ?_⟩
    simp only [trace, first, List.mem_append] at hb
    rcases hb with hb | hb
    · exact kept b (new s a s₁ first b hb)
    · exact given b hb

/-- A run keeps apart what it gives, if every step keeps what it gives apart from itself and from
all that is known to the state. -/
theorem pairwise_trace {Q : σ → β → Prop} {R : β → β → Prop}
    (keep : ∀ s a s', step s a = .ok s' → ∀ b, Q s b → Q s' b)
    (new : ∀ s a s', step s a = .ok s' → ∀ b ∈ out s a, Q s' b)
    (apart : ∀ s a s', step s a = .ok s' → ∀ b, Q s b → ∀ b' ∈ out s a, R b b')
    (within : ∀ s a s', step s a = .ok s' → (out s a).Pairwise R) (s : σ) (l : List α) :
    (trace step out s l).Pairwise R ∧ ∀ b, Q s b → ∀ b' ∈ trace step out s l, R b b' := by
  induction l generalizing s with
  | nil => exact ⟨List.Pairwise.nil, fun _ _ _ hb' => (List.not_mem_nil hb').elim⟩
  | cons a l ih =>
    cases first : step s a with
    | error f => simp [trace, first]
    | ok s₁ =>
      obtain ⟨later, fromState⟩ := ih s₁
      simp only [trace, first]
      refine ⟨List.pairwise_append.2 ⟨within s a s₁ first, later, fun b hb =>
        fromState b (new s a s₁ first b hb)⟩, fun b hb b' hb' => ?_⟩
      rcases List.mem_append.1 hb' with hb' | hb'
      · exact apart s a s₁ first b hb b' hb'
      · exact fromState b (keep s a s₁ first b hb) b' hb'

/-- A run gives no more than its steps can give at most. -/
theorem filterMap_trace_sublist (step : σ → α → Except ε σ) (out : σ → α → List β) {γ : Type}
    {f : β → Option γ} {most : α → List γ}
    (each : ∀ s a s', step s a = .ok s' → ((out s a).filterMap f).Sublist (most a)) (s : σ)
    (l : List α) : ((trace step out s l).filterMap f).Sublist (l.flatMap most) := by
  induction l generalizing s with
  | nil => exact List.Sublist.refl _
  | cons a l ih =>
    cases first : step s a with
    | error f => simp [trace, first]
    | ok s₁ =>
      simp only [trace, first, List.filterMap_append, List.flatMap_cons]
      exact (each s a s₁ first).append (ih s₁)

end Trace

/-! ## The record -/

/-- A local name that a converted file declares, and whether it is exported. -/
structure DeclaredName where
  name : Text
  exported : Bool
  deriving DecidableEq, Repr

variable {reserved : List Text} {c c' : Converted} {name : Text} {form : MemberForm}

/-- The name that a value is declared under. -/
def boundByValue (reserved : List Text) (name : Text) (c : Converted) : List DeclaredName :=
  if (valueDeclaration name).occursIn c.text then
    [⟨valueName reserved name, isPublic (Qualified.lastSegment name)⟩]
  else []

/-- The name that a member is declared under. -/
def boundByMember (reserved : List Text) (name : Text) (form : MemberForm) (c : Converted)
    (member : Text) : List DeclaredName :=
  if (memberDeclaration name form (.literal member)).occursIn c.text then
    [⟨memberName reserved member, isPublic member⟩]
  else []

/-- The names that the members of a namespace are declared under. -/
def boundByMembers (reserved : List Text) (name : Text) (form : MemberForm) (c : Converted) :
    List DeclaredName :=
  trace (bindMember reserved name form) (boundByMember reserved name form) c
    (memberNames c.text name form)

/-- The names that are declared on the turn of a namespace. -/
def boundByProvide (reserved : List Text) (c : Converted) (d : Provide) : List DeclaredName :=
  match Declaration.shapeOf c.text d.name with
  | .value => boundByValue reserved d.name c
  | .object =>
    boundByMembers reserved d.name .assigned c ++
      match bindMembers reserved d.name .assigned c with
      | .ok c' => boundByMembers reserved d.name .bare c'
      | .error _ => []

/-- The defines of a text that have no binding yet. -/
def lineDefines (root t : Text) : List ExportEntry :=
  (bindDefines root t).entries.drop ((letDefine root).allMatches t).length

/-- The names that the conversion of a file declares: its defines, the namespaces and members turn
by turn, and the defines that come to stand at the beginning of a line meanwhile. These are not
exported. -/
def declaredNames (root : Text) (reserved : List Text) (t : Text) (provides : List Provide) :
    List DeclaredName :=
  let c := bindDefines root t
  let turns := longestFirst Provide.name provides
  c.entries.map (fun e => ⟨e.internal, true⟩) ++
    trace (bindProvide reserved) (boundByProvide reserved) c turns ++
    match turns.foldlM (bindProvide reserved) c with
    | .ok c' => (lineDefines root c'.text).map fun e => ⟨e.internal, false⟩
    | .error _ => []

/-! ## What is exported -/

/-- The local names of what a converted text is going to export. -/
def Converted.internals (c : Converted) : List Text := c.entries.map ExportEntry.internal

/-- The entries account for a local name: if it is exported, then they list it. -/
def Converted.Lists (c : Converted) (b : DeclaredName) : Prop :=
  b.exported = true → b.name ∈ c.internals

theorem internal_of_exportOf {localName : Text} {es : List ExportEntry}
    (h : exportOf name localName = .ok es) (pub : isPublic name = true) :
    es.map ExportEntry.internal = [localName] := by
  unfold exportOf at h
  rw [if_pos pub] at h
  unfold ExportEntry.make at h
  split at h
  · cases h
  · obtain rfl := Except.ok.inj h
    rfl

theorem Converted.Lists.of_entries {b : DeclaredName} (h : c.Lists b)
    (same : c'.entries = c.entries) : c'.Lists b := fun exported =>
  show b.name ∈ c'.entries.map _ from same ▸ h exported

/-- A step that adds the entry of a name accounts for it, and for everything that has been
accounted for before. -/
theorem lists_of_exportOf {localName : Text} {es : List ExportEntry} {b : DeclaredName}
    (exported : exportOf name localName = .ok es) (entries : c'.entries = c.entries ++ es)
    (h : c.Lists b ∨ b = ⟨localName, isPublic name⟩) : c'.Lists b := by
  intro isExported
  unfold Converted.internals
  rw [entries, List.map_append, List.mem_append]
  rcases h with h | rfl
  · exact Or.inl (h isExported)
  · rw [internal_of_exportOf exported isExported]
    exact Or.inr (List.mem_singleton_self _)

theorem lists_bindValue {b : DeclaredName} (h : bindValue reserved name c = .ok c')
    (hb : c.Lists b ∨ b ∈ boundByValue reserved name c) : c'.Lists b := by
  obtain ⟨es, exported, h⟩ := bind_eq_ok h
  obtain rfl := Except.ok.inj h
  refine lists_of_exportOf exported rfl (hb.imp_right fun hb => ?_)
  exact List.mem_singleton.1 ((ite_nil_sublist _ _).subset hb)

theorem lists_bindMember {b : DeclaredName} {member : Text}
    (h : bindMember reserved name form c member = .ok c')
    (hb : c.Lists b ∨ b ∈ boundByMember reserved name form c member) : c'.Lists b := by
  obtain ⟨es, exported, h⟩ := bind_eq_ok h
  obtain rfl := Except.ok.inj h
  refine lists_of_exportOf exported rfl (hb.imp_right fun hb => ?_)
  exact List.mem_singleton.1 ((ite_nil_sublist _ _).subset hb)

theorem lists_bindMembers {b : DeclaredName} (h : bindMembers reserved name form c = .ok c')
    (hb : c.Lists b ∨ b ∈ boundByMembers reserved name form c) : c'.Lists b := by
  obtain ⟨kept, given⟩ := forall_mem_trace (boundByMember reserved name form)
    (Q := Converted.Lists) (fun _ _ _ first _ hb => lists_bindMember first (Or.inl hb))
    (fun _ _ _ first _ hb => lists_bindMember first (Or.inr hb)) h
  exact hb.elim (kept b) (given b)

/-- One turn accounts for the names that it declares. -/
theorem lists_bindProvide {d : Provide} {b : DeclaredName} (h : bindProvide reserved c d = .ok c')
    (hb : c.Lists b ∨ b ∈ boundByProvide reserved c d) : c'.Lists b := by
  rcases cases_bindProvide h with ⟨shape, c₁, bound, same⟩ | ⟨shape, c₁, c₂, assigned, bare, same⟩
  · simp only [boundByProvide, shape] at hb
    exact (lists_bindValue bound hb).of_entries same
  · simp only [boundByProvide, shape, assigned, List.mem_append] at hb
    refine (lists_bindMembers bare ?_).of_entries same
    rcases hb with hb | hb | hb
    · exact Or.inl (lists_bindMembers assigned (Or.inl hb))
    · exact Or.inl (lists_bindMembers assigned (Or.inr hb))
    · exact Or.inr hb

/-- **The names that a file declares and exports** are listed in its entries. -/
theorem lists_of_mem_declaredNames {root t : Text} {provides : List Provide} {b : DeclaredName}
    (h : convertProvided root reserved t provides = .ok c)
    (hb : b ∈ declaredNames root reserved t provides) : c.Lists b := by
  obtain ⟨c₁, turns, -, rfl⟩ := exists_of_convertProvided h
  have listed : c₁.Lists b := by
    obtain ⟨kept, given⟩ := forall_mem_trace (boundByProvide reserved)
      (Q := Converted.Lists) (fun _ _ _ first _ hb => lists_bindProvide first (Or.inl hb))
      (fun _ _ _ first _ hb => lists_bindProvide first (Or.inr hb)) turns
    simp only [declaredNames, turns, List.mem_append, List.mem_map] at hb
    rcases hb with (⟨e, he, rfl⟩ | hb) | ⟨e, -, rfl⟩
    · exact kept _ fun _ => List.mem_map_of_mem he
    · exact given b hb
    · exact fun isExported => nomatch isExported
  intro isExported
  obtain ⟨e, he, internal⟩ := List.mem_map.1 (listed isExported)
  exact List.mem_map.2 ⟨e, by simpa [ExportEntry.sort] using he, internal⟩

/-! ## The members of one namespace -/

/-- A reserved member is declared under its name behind an underscore, every other one under its
own name. So two members are declared under one name only if one of them is reserved and the other
is its substitute. -/
theorem memberName_inj {m m' : Text} (h : memberName reserved m = memberName reserved m')
    (apart : m ∈ reserved → m' = '_' :: m → m' ∈ reserved)
    (apart' : m' ∈ reserved → m = '_' :: m' → m ∈ reserved) : m = m' := by
  unfold memberName at h
  split at h <;> split at h
  · exact List.cons_injective h
  · rename_i hm hm'
    exact absurd (apart hm h.symm) hm'
  · rename_i hm hm'
    exact absurd (apart' hm' h) hm
  · exact h

/-- **The members of one namespace** that are declared in one form are bound under different names,
unless there are among them a reserved one and its substitute. -/
theorem nodup_boundByMembers
    (apart : ∀ m ∈ memberNames c.text name form, m ∈ reserved →
      '_' :: m ∈ memberNames c.text name form → '_' :: m ∈ reserved) :
    ((boundByMembers reserved name form c).map DeclaredName.name).Nodup := by
  have each (c : Converted) (member : Text) :
      ((boundByMember reserved name form c member).filterMap fun b => some b.name).Sublist
        [memberName reserved member] := (ite_nil_sublist _ _).filterMap _
  have sub := filterMap_trace_sublist (bindMember reserved name form)
    (boundByMember reserved name form) (fun c member _ _ => each c member) c
    (memberNames c.text name form)
  rw [List.filterMap_eq_map', ← List.map_eq_flatMap] at sub
  refine sub.nodup ((nodup_dedup _).map_on fun m hm m' hm' h => ?_)
  exact memberName_inj h (fun res sub => sub ▸ apart m hm res (sub ▸ hm'))
    fun res sub => sub ▸ apart m' hm' res (sub ▸ hm)

end Modulize.Recast
