import Modulize.Proofs.Files.Plain

/-!
# Changes below a folder

A change to a tree without links is confined to a folder (`Confined`) when the tree still has no
links and the same files outside the folder. So is each change that is made at a path which leads
below the folder: writing, removing and copying a file, and clearing the folder itself. Making
folders changes no files at all.
-/

namespace Modulize.FileStore

open Modulize.Path (IsResolved IsBelow LeadsBelow)

/-- Two trees have the same file under a full name, or neither has one. -/
def SameFile (fs fs' : FileStore) (names : List Text) : Prop :=
  ∀ c, fs'.entry? names = some (.file c) ↔ fs.entry? names = some (.file c)

/-- What a tree without links has become by changes to the files below a folder. -/
structure Confined (base : Path) (fs fs' : FileStore) : Prop where
  plain : fs'.Plain
  outside : ∀ names, ¬ base.names <+: names → SameFile fs fs' names

variable {fs fs' fs'' : FileStore} {base p source : Path} {names : List Text} {c : Content}

theorem Confined.refl (plain : fs.Plain) : Confined base fs fs := ⟨plain, fun _ _ _ => Iff.rfl⟩

theorem Confined.trans (h : Confined base fs fs') (h' : Confined base fs' fs'') :
    Confined base fs fs'' :=
  ⟨h'.plain, fun names far c => (h'.outside names far c).trans (h.outside names far c)⟩

/-! ## Single entries -/

theorem Plain.put {e : Entry} (plain : fs.Plain) (hnames : parentName ∉ names)
    (he : ∀ target, e ≠ .link target) : (fs.put names e).Plain := by
  constructor
  · intro x hx
    rcases mem_of_mem_assign hx with rfl | hx
    · exact hnames
    · exact plain.names x hx
  · intro x hx
    rcases mem_of_mem_assign hx with rfl | hx
    · exact he
    · exact plain.links x hx

theorem Plain.filter (plain : fs.Plain) (keep : List Text × Entry → Bool) :
    { fs with entries := fs.entries.filter keep : FileStore }.Plain :=
  ⟨fun x hx => plain.names x (List.mem_filter.1 hx).1,
    fun x hx => plain.links x (List.mem_filter.1 hx).1⟩

theorem confined_put_file (plain : fs.Plain) (hnames : parentName ∉ names)
    (below : base.names <+: names) (c : Content) :
    Confined base fs (fs.put names (.file c)) := by
  refine ⟨plain.put hnames fun _ => nofun, fun q far c' => ?_⟩
  have other : q ≠ names := by
    rintro rfl
    exact far below
  rw [entry?_put_of_ne other]

theorem confined_put_folder (plain : fs.Plain) (hnames : parentName ∉ names)
    (free : fs.entry? names = none) : Confined base fs (fs.put names .folder) := by
  refine ⟨plain.put hnames fun _ => nofun, fun q _ c => ?_⟩
  rw [entry?_put]
  split
  · rename_i same
    rw [same.1, free]
    constructor <;> nofun
  · rfl

theorem confined_remove (plain : fs.Plain) (below : base.names <+: names) :
    Confined base fs (fs.remove names) := by
  refine ⟨plain.filter _, fun q far c => ?_⟩
  have other : q ≠ names := by
    rintro rfl
    exact far below
  rw [entry?_remove, if_neg fun same => other same.1]

/-! ## Changes at paths -/

theorem Plain.not_mem_normalize (absolute : p.isAbsolute = true) :
    parentName ∉ p.normalize.names := by
  rw [Path.normalize, absolute]
  exact Path.not_mem_foldNames List.not_mem_nil

theorem confined_write (plain : fs.Plain) (below : LeadsBelow base p)
    (h : fs.write p c = .ok fs') : Confined base fs fs' := by
  unfold write at h
  split at h
  · cases h
  · rename_i names located
    obtain rfl := plain.locate_eq below.absolute located
    split at h
    · cases h
    · obtain rfl := Except.ok.inj h
      exact confined_put_file plain (Plain.not_mem_normalize below.absolute) below.names c

theorem confined_unlink (plain : fs.Plain) (below : LeadsBelow base p)
    (h : fs.unlink p = .ok fs') : Confined base fs fs' := by
  unfold unlink at h
  split at h
  · cases h
  · rename_i names located
    obtain rfl := plain.locateLink_eq below.absolute located
    split at h
    · cases h
    · cases h
    · obtain rfl := Except.ok.inj h
      exact confined_remove plain below.names

/-- Making folders changes no files. -/
theorem confined_makeFolder (plain : fs.Plain) (absolute : p.isAbsolute = true)
    (h : fs.makeFolder p = .ok fs') : Confined base fs fs' := by
  unfold makeFolder at h
  split at h
  · cases h
  · split at h
    · obtain rfl := Except.ok.inj h
      exact .refl plain
    · cases h
  · rename_i names located
    obtain rfl := plain.locateLink_eq absolute located
    split at h
    · split at h
      · obtain rfl := Except.ok.inj h
        exact .refl plain
      · cases h
    · rename_i free
      obtain rfl := Except.ok.inj h
      exact confined_put_folder plain (Plain.not_mem_normalize absolute) free

theorem confined_makeFoldersTo {anchor : Anchor} (absolute : anchor ≠ .here) {above : List Text}
    (plain : fs.Plain) (h : fs.makeFoldersTo anchor above = .ok fs') : Confined base fs fs' := by
  have rooted (names : List Text) : (⟨anchor, names⟩ : Path).isAbsolute = true := by
    simpa [Path.isAbsolute] using absolute
  induction above generalizing fs' with
  | nil => exact confined_makeFolder plain (rooted []) h
  | cons name above ih =>
    rw [makeFoldersTo] at h
    split at h
    · obtain ⟨fs₁, made, h⟩ := bind_eq_ok h
      have first := ih made
      exact first.trans (confined_makeFolder first.plain (rooted _) h)
    · exact confined_makeFolder plain (rooted _) h

theorem confined_makeFolders (plain : fs.Plain) (absolute : p.isAbsolute = true)
    (h : fs.makeFolders p = .ok fs') : Confined base fs fs' :=
  confined_makeFoldersTo (by simpa [Path.isAbsolute] using absolute) plain h

theorem confined_clear (plain : fs.Plain) (resolved : base.IsResolved)
    (h : fs.clear base = .ok fs') : Confined base fs fs' := by
  obtain ⟨fs₁, made, h⟩ := bind_eq_ok h
  have first : Confined base fs fs₁ := confined_makeFolders plain resolved.isAbsolute made
  refine first.trans ?_
  split at h
  · cases h
  · rename_i names located
    obtain rfl := first.plain.locate_eq resolved.isAbsolute located
    obtain rfl := Except.ok.inj h
    refine ⟨first.plain.filter _, fun q far c => ?_⟩
    by_cases root : q = []
    · simp [root]
    · have filtered := lookup?_filter (fun full => !(base.normalize.names.isPrefixOf full &&
        full ≠ base.normalize.names)) fs₁.entries q
      rw [entry?_of_ne_nil root, entry?_of_ne_nil root]
      have kept : (!(base.normalize.names.isPrefixOf q && q ≠ base.normalize.names)) = true := by
        rw [resolved.normalize, Bool.not_eq_true', Bool.and_eq_false_iff]
        exact Or.inl (Bool.eq_false_iff.2 fun h => far (List.isPrefixOf_iff_prefix.1 h))
      rw [filtered, if_pos kept]

/-- The destination of a copy may be a folder, which gets a file of the same name. -/
theorem confined_copy (plain : fs.Plain) (resolved : base.IsResolved) (below : IsBelow base p)
    (hname : source.name ≠ parentName) (h : fs.copy source p = .ok fs') : Confined base fs fs' := by
  unfold copy at h
  have into (intoFolder : Bool) :
      LeadsBelow base (if intoFolder then p.child source.name else p) := by
    split
    · exact (below.child hname).leadsBelow resolved
    · exact below.leadsBelow resolved
  obtain ⟨c, -, h⟩ := bind_eq_ok (eq_ok_of_ite h)
  exact confined_write plain (into _) h

end Modulize.FileStore
