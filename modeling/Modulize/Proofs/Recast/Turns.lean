import Modulize.Proofs.Collections
import Modulize.Proofs.Pattern.Replacing
import Modulize.Recast.Provided

/-!
# The names that a file exports

The namespaces of a file have their turns one after another, each on the text that the turns before
it have left (`Turn`). On its turn a namespace is bound under some names (`Binds`): a value under
its last segment, an object under those of its members. This module follows the names that a file is
going to export (`Converted.exports`) through the turns.

* Every namespace has a turn (`exists_turn`), and only one (`Turn.unique`).
* One turn exports the public ones among the names that it binds (`mem_exports_bindProvide`).
* The file exports its defines and the public names that any turn binds
  (`mem_exports_convertProvided`), in a clause at its end (`text_convertProvided`).
* A file with one value and without defines exports the name of the value
  (`mem_exports_of_only_value`).
-/

namespace Modulize.Recast

/-- The names that a converted text is going to export. -/
def Converted.exports (c : Converted) : List Text := c.entries.map ExportEntry.external

/-- The names that a namespace is bound under when its turn comes in the state `c`. Members that are
declared by their names alone are looked for behind those that are assigned. -/
inductive Binds (reserved : List Text) (name : Text) (c : Converted) : Text → Prop
  | value (shape : Declaration.shapeOf c.text name = .value) :
      Binds reserved name c (Qualified.lastSegment name)
  | assigned {member : Text} (shape : Declaration.shapeOf c.text name = .object)
      (declared : member ∈ memberNames c.text name .assigned) : Binds reserved name c member
  | bare {member : Text} {c' : Converted} (shape : Declaration.shapeOf c.text name = .object)
      (bound : bindMembers reserved name .assigned c = .ok c')
      (declared : member ∈ memberNames c'.text name .bare) : Binds reserved name c member

/-- The turn of a namespace in a row comes in the state `c'` when the first turn comes in the state
`c`. -/
inductive ComesTo (reserved : List Text) : Converted → List Provide → Provide → Converted → Prop
  | here (c : Converted) (d : Provide) (ds : List Provide) : ComesTo reserved c (d :: ds) d c
  | later {c c₁ c' : Converted} {d d' : Provide} {ds : List Provide}
      (turn : bindProvide reserved c d = .ok c₁) (rest : ComesTo reserved c₁ ds d' c') :
      ComesTo reserved c (d :: ds) d' c'

/-- In the conversion of a file the turn of a namespace comes in a state. -/
def Turn (root : Text) (reserved : List Text) (t : Text) (provides : List Provide) :
    Provide → Converted → Prop :=
  ComesTo reserved (bindDefines root t) (longestFirst Provide.name provides)

variable {reserved : List Text} {c c' : Converted} {d : Provide} {ds : List Provide} {x : Text}

/-! ## Turns -/

theorem ComesTo.mem (h : ComesTo reserved c ds d c') : d ∈ ds := by
  induction h with
  | here => exact List.mem_cons_self
  | later _ _ ih => exact List.mem_cons_of_mem _ ih

/-- In a conversion that does not fail every namespace has its turn. -/
theorem exists_comesTo (h : ds.foldlM (bindProvide reserved) c = .ok c') (hd : d ∈ ds) :
    ∃ c₁, ComesTo reserved c ds d c₁ := by
  induction ds generalizing c with
  | nil => cases hd
  | cons first ds ih =>
    rw [List.foldlM_cons] at h
    obtain ⟨c₁, turn, h⟩ := bind_eq_ok h
    rcases List.mem_cons.1 hd with rfl | hd
    · exact ⟨c, .here c d ds⟩
    · obtain ⟨c₂, rest⟩ := ih h hd
      exact ⟨c₂, .later turn rest⟩

/-- Namespaces of one name have one turn. -/
theorem ComesTo.unique {d' : Provide} {c'' : Converted} (nodup : (ds.map Provide.name).Nodup)
    (h : ComesTo reserved c ds d c') (h' : ComesTo reserved c ds d' c'')
    (same : d.name = d'.name) : c' = c'' := by
  induction h with
  | here =>
    cases h' with
    | here => rfl
    | later _ rest => exact absurd (same ▸ List.mem_map_of_mem rest.mem) (List.nodup_cons.1 nodup).1
  | later turn rest ih =>
    cases h' with
    | here => exact absurd (same ▸ List.mem_map_of_mem rest.mem) (List.nodup_cons.1 nodup).1
    | later turn' rest' =>
      obtain rfl := Except.ok.inj (turn.symm.trans turn')
      exact ih (List.nodup_cons.1 nodup).2 rest' same

/-! ## The exports of one turn -/

theorem external_of_exportOf {name localName : Text} {es : List ExportEntry}
    (h : exportOf name localName = .ok es) :
    es.map ExportEntry.external = [name].filter isPublic := by
  unfold exportOf at h
  split at h
  · rename_i isPub
    unfold ExportEntry.make at h
    split at h
    · cases h
    · obtain rfl := Except.ok.inj h
      simp [isPub]
  · rename_i isPub
    obtain rfl := Except.ok.inj h
    simp [isPub]

theorem exports_bindValue {name : Text} (h : bindValue reserved name c = .ok c') :
    c'.exports = c.exports ++ [Qualified.lastSegment name].filter isPublic := by
  obtain ⟨es, exported, h⟩ := bind_eq_ok h
  obtain rfl := Except.ok.inj h
  rw [← external_of_exportOf exported]
  exact List.map_append

theorem exports_bindMember {name member : Text} {form : MemberForm}
    (h : bindMember reserved name form c member = .ok c') :
    c'.exports = c.exports ++ [member].filter isPublic := by
  obtain ⟨es, exported, h⟩ := bind_eq_ok h
  obtain rfl := Except.ok.inj h
  rw [← external_of_exportOf exported]
  exact List.map_append

theorem exports_foldlM_bindMember {name : Text} {form : MemberForm} {members : List Text}
    (h : members.foldlM (bindMember reserved name form) c = .ok c') :
    c'.exports = c.exports ++ members.filter isPublic := by
  induction members generalizing c with
  | nil =>
    obtain rfl := Except.ok.inj h
    simp
  | cons member members ih =>
    rw [List.foldlM_cons] at h
    obtain ⟨c₁, first, h⟩ := bind_eq_ok h
    rw [ih h, exports_bindMember first, List.append_assoc, ← List.filter_append,
      List.singleton_append]

theorem exports_bindMembers {name : Text} {form : MemberForm}
    (h : bindMembers reserved name form c = .ok c') :
    c'.exports = c.exports ++ (memberNames c.text name form).filter isPublic :=
  exports_foldlM_bindMember h

theorem entries_of_removeHeader
    (h : (match d.matched with
      | some (a :: header) => pure { c with text := removeFirst c.text (a :: header) }
      | _ => pure c : Except Failure Converted) = .ok c') : c'.entries = c.entries := by
  split at h
  · obtain rfl := Except.ok.inj h
    rfl
  · obtain rfl := Except.ok.inj h
    rfl

/-- What the turn of a namespace does, by its shape. -/
theorem cases_bindProvide (h : bindProvide reserved c d = .ok c') :
    (Declaration.shapeOf c.text d.name = .value ∧
      ∃ c₁, bindValue reserved d.name c = .ok c₁ ∧ c'.entries = c₁.entries) ∨
    (Declaration.shapeOf c.text d.name = .object ∧
      ∃ c₁ c₂, bindMembers reserved d.name .assigned c = .ok c₁ ∧
        bindMembers reserved d.name .bare c₁ = .ok c₂ ∧ c'.entries = c₂.entries) := by
  unfold bindProvide at h
  cases shape : Declaration.shapeOf c.text d.name with
  | value =>
    simp only [shape] at h
    obtain ⟨c₁, bound, h⟩ := bind_eq_ok h
    exact Or.inl ⟨rfl, c₁, bound, entries_of_removeHeader h⟩
  | object =>
    simp only [shape] at h
    obtain ⟨c₂, bound, h⟩ := bind_eq_ok h
    obtain ⟨c₁, assigned, bare⟩ := bind_eq_ok bound
    exact Or.inr ⟨rfl, c₁, c₂, assigned, bare, entries_of_removeHeader h⟩

/-- **One turn** exports the public names that it binds. -/
theorem mem_exports_bindProvide (h : bindProvide reserved c d = .ok c') :
    x ∈ c'.exports ↔ x ∈ c.exports ∨ isPublic x = true ∧ Binds reserved d.name c x := by
  rcases cases_bindProvide h with ⟨shape, c₁, bound, same⟩ | ⟨shape, c₁, c₂, assigned, bare, same⟩
  · have same : c'.exports = c₁.exports := congrArg (List.map ExportEntry.external) same
    simp only [same, exports_bindValue bound, List.mem_append, List.mem_filter, List.mem_singleton]
    constructor
    · rintro (hx | ⟨rfl, isPub⟩)
      · exact Or.inl hx
      · exact Or.inr ⟨isPub, .value shape⟩
    · rintro (hx | ⟨isPub, binds⟩)
      · exact Or.inl hx
      · cases binds with
        | value => exact Or.inr ⟨rfl, isPub⟩
        | assigned object => cases shape.symm.trans object
        | bare object => cases shape.symm.trans object
  · have same : c'.exports = c₂.exports := congrArg (List.map ExportEntry.external) same
    simp only [same, exports_bindMembers bare, exports_bindMembers assigned, List.mem_append,
      List.mem_filter]
    constructor
    · rintro ((hx | ⟨hx, isPub⟩) | ⟨hx, isPub⟩)
      · exact Or.inl hx
      · exact Or.inr ⟨isPub, .assigned shape hx⟩
      · exact Or.inr ⟨isPub, .bare shape assigned hx⟩
    · rintro (hx | ⟨isPub, binds⟩)
      · exact Or.inl (Or.inl hx)
      · cases binds with
        | value value => cases shape.symm.trans value
        | assigned _ hx => exact Or.inl (Or.inr ⟨hx, isPub⟩)
        | bare _ assigned' hx =>
          obtain rfl := Except.ok.inj (assigned'.symm.trans assigned)
          exact Or.inr ⟨hx, isPub⟩

/-! ## The exports of a file -/

theorem mem_exports_foldlM (h : ds.foldlM (bindProvide reserved) c = .ok c') :
    x ∈ c'.exports ↔ x ∈ c.exports ∨
      isPublic x = true ∧ ∃ d c₁, ComesTo reserved c ds d c₁ ∧ Binds reserved d.name c₁ x := by
  induction ds generalizing c with
  | nil =>
    obtain rfl := Except.ok.inj h
    constructor
    · exact Or.inl
    · rintro (hx | ⟨-, _, _, turn, -⟩)
      · exact hx
      · cases turn
  | cons d ds ih =>
    rw [List.foldlM_cons] at h
    obtain ⟨c₁, first, h⟩ := bind_eq_ok h
    rw [ih h, mem_exports_bindProvide first]
    constructor
    · rintro ((hx | ⟨isPub, binds⟩) | ⟨isPub, d', c₂, turn, binds⟩)
      · exact Or.inl hx
      · exact Or.inr ⟨isPub, d, c, .here c d ds, binds⟩
      · exact Or.inr ⟨isPub, d', c₂, .later first turn, binds⟩
    · rintro (hx | ⟨isPub, d', c₂, turn, binds⟩)
      · exact Or.inl (Or.inl hx)
      · cases turn with
        | here => exact Or.inl (Or.inr ⟨isPub, binds⟩)
        | later first' turn =>
          obtain rfl := Except.ok.inj (first'.symm.trans first)
          exact Or.inr ⟨isPub, d', c₂, turn, binds⟩

/-- What a conversion that does not fail has done: all turns, and a clause for their entries, which
are some. -/
theorem exists_of_convertProvided {root t : Text} {provides : List Provide}
    (h : convertProvided root reserved t provides = .ok c) :
    ∃ c₁, (longestFirst Provide.name provides).foldlM (bindProvide reserved) (bindDefines root t) =
        .ok c₁ ∧ c₁.entries ≠ [] ∧
      c = ⟨appendExports (bindDefines root c₁.text).text (ExportEntry.sort (dedup c₁.entries)),
        ExportEntry.sort (dedup c₁.entries)⟩ := by
  obtain ⟨c₁, turns, h⟩ := bind_eq_ok h
  split at h
  · cases h
  · rename_i some
    exact ⟨c₁, turns, fun none => some (by simp [none]), (Except.ok.inj h).symm⟩

/-- **The exports of a file**: its defines, and the public names that its namespaces are bound
under. -/
theorem mem_exports_convertProvided {root t : Text} {provides : List Provide}
    (h : convertProvided root reserved t provides = .ok c) :
    x ∈ c.exports ↔ x ∈ (bindDefines root t).exports ∨
      isPublic x = true ∧
        ∃ d c₁, Turn root reserved t provides d c₁ ∧ Binds reserved d.name c₁ x := by
  obtain ⟨c₁, turns, -, rfl⟩ := exists_of_convertProvided h
  unfold Turn
  rw [← mem_exports_foldlM turns]
  simp [Converted.exports, ExportEntry.sort]

/-- Every namespace of a file that has been converted has had its turn. -/
theorem exists_turn {root t : Text} {provides : List Provide}
    (h : convertProvided root reserved t provides = .ok c) (hd : d ∈ provides) :
    ∃ c₁, Turn root reserved t provides d c₁ := by
  obtain ⟨c₁, turns, -, -⟩ := exists_of_convertProvided h
  exact exists_comesTo turns ((mem_sortBy _).2 hd)

theorem Turn.unique {root t : Text} {provides : List Provide} {d' : Provide}
    (nodup : (provides.map Provide.name).Nodup) (h : Turn root reserved t provides d c)
    (h' : Turn root reserved t provides d' c') (same : d.name = d'.name) : c = c' :=
  ComesTo.unique (((sortBy_perm _ _).map _).nodup_iff.2 nodup) h h' same

/-- A converted file exports something. -/
theorem exports_ne_nil {root t : Text} {provides : List Provide}
    (h : convertProvided root reserved t provides = .ok c) : c.exports ≠ [] := by
  obtain ⟨c₁, -, some, rfl⟩ := exists_of_convertProvided h
  obtain ⟨e, he⟩ := List.exists_mem_of_ne_nil _ some
  refine List.ne_nil_of_mem (List.mem_map_of_mem (a := e) ?_)
  simpa [ExportEntry.sort] using he

/-- A converted file ends with the clause that lists its exports. -/
theorem text_convertProvided {root t : Text} {provides : List Provide}
    (h : convertProvided root reserved t provides = .ok c) :
    ∃ body, c.text = appendExports body c.entries := by
  obtain ⟨c₁, -, -, rfl⟩ := exists_of_convertProvided h
  exact ⟨(bindDefines root c₁.text).text, rfl⟩

/-! ## A file with one namespace -/

/-- A text without defines stays as it is. -/
theorem bindDefines_eq_self {root t : Text} (lets : (letDefine root).occursIn t = false)
    (lines : (lineDefine root).occursIn t = false) : bindDefines root t = ⟨t, []⟩ := by
  simp [bindDefines, Pattern.allMatches_eq_nil lets, Pattern.allMatches_eq_nil lines,
    Pattern.replace, Pattern.rebuild]

/-- **A file with one namespace**, a value, and without defines exports the name of the namespace
when it is converted, and nothing else. -/
theorem mem_exports_of_only_value {root t : Text} (h : convertProvided root reserved t [d] = .ok c)
    (lets : (letDefine root).occursIn t = false) (lines : (lineDefine root).occursIn t = false)
    (value : Declaration.shapeOf t d.name = .value) :
    x ∈ c.exports ↔ x = Qualified.lastSegment d.name := by
  have only (y : Text) :
      y ∈ c.exports ↔ isPublic y = true ∧ y = Qualified.lastSegment d.name := by
    rw [mem_exports_convertProvided h, Turn, bindDefines_eq_self lets lines]
    constructor
    · rintro (hy | ⟨isPub, d', c₁, turn, binds⟩)
      · cases hy
      · cases turn with
        | here =>
          cases binds with
          | value => exact ⟨isPub, rfl⟩
          | assigned object => cases value.symm.trans object
          | bare object => cases value.symm.trans object
        | later _ rest => cases rest
    · rintro ⟨isPub, rfl⟩
      exact Or.inr ⟨isPub, d, _, .here _ d [], .value value⟩
  obtain ⟨y, hy⟩ := List.exists_mem_of_ne_nil _ (exports_ne_nil h)
  obtain ⟨isPub, rfl⟩ := (only y).1 hy
  rw [only]
  exact ⟨And.right, fun same => ⟨same ▸ isPub, same⟩⟩

end Modulize.Recast
