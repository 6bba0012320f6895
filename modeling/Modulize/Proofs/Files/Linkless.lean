import Modulize.Proofs.Files.Removed

/-!
# Paths in trees without links

In a tree without links (`IsLinkless`) a path without double dots leads where its names say
(`locateFrom_of_unlinked`), so that it leads to a file exactly if there is one under its names
(`IsLinkless.isFile_iff`). Making the folders of a path makes them on its way only
(`entry?_makeFolders`).
-/

namespace Modulize

namespace FileStore

/-- A tree without links: what lies above an entry is folders. -/
structure IsLinkless (fs : FileStore) : Prop where
  down : ∀ q, (fs.entry? q).isSome → fs.LeadsDown [] q
  unlinked : ∀ q target, fs.entry? q ≠ some (.link target)

variable {fs fs' : FileStore} {p : Path} {q done rest : List Text} {throughLast : Bool}
  {links : Nat}

theorem IsTree.isLinkless (tree : fs.IsTree)
    (unlinked : ∀ x ∈ fs.entries, ∀ target, x.2 ≠ .link target) : fs.IsLinkless where
  down _ found := tree.leadsDown found
  unlinked q target link := by
    have some : q ≠ [] := by
      rintro rfl
      cases link
    have mem := mem_of_lookup? ((entry?_of_ne_nil some).symm.trans link)
    exact unlinked _ mem target rfl

/-! ## Where paths lead -/

section Unlinked

variable (unlinked : ∀ q target, fs.entry? q ≠ some (.link target))

include unlinked in
theorem advance_of_unlinked (folder : fs.entry? done = some .folder) (plain : parentName ∉ rest)
    (h : fs.advance throughLast done rest = .arrived q) :
    q = done ++ rest ∧ fs.LeadsDown done rest := by
  induction rest generalizing done with
  | nil =>
    rw [advance] at h
    exact ⟨by rw [List.append_nil, Walk.arrived.inj h], leadsDown_nil fs done⟩
  | cons n rest ih =>
    rw [List.mem_cons, not_or] at plain
    have other : n ≠ parentName := Ne.symm plain.1
    rw [advance, if_neg other] at h
    -- the last name leads to a place, the others to folders
    have last (e : rest = []) (arrived : Walk.arrived (done ++ [n]) = .arrived q) :
        q = done ++ n :: rest ∧ fs.LeadsDown done (n :: rest) := by
      subst e
      exact ⟨(Walk.arrived.inj arrived).symm,
        leadsDown_cons_iff.2 ⟨other, folder, leadsDown_nil ..⟩⟩
    split at h
    · split at h
      · exact last ‹_› h
      · cases h
    · rename_i inner
      obtain ⟨rfl, down⟩ := ih inner plain.2 h
      exact ⟨by simp, leadsDown_cons_iff.2 ⟨other, folder, down⟩⟩
    · split at h
      · exact last ‹_› h
      · cases h
    · rename_i link
      exact absurd link (unlinked _ _)

include unlinked in
theorem advance_ne_jump (done rest : List Text) (done' rest' : List Text) :
    fs.advance throughLast done rest ≠ .jump done' rest' := by
  induction rest generalizing done with
  | nil => simp [advance]
  | cons n rest ih =>
    rw [advance]
    split
    · exact ih _
    · split
      · split <;> simp
      · exact ih _
      · split <;> simp
      · rename_i link
        exact absurd link (unlinked _ _)

include unlinked in
/-- A path without double dots leads where its names say. -/
theorem locateFrom_of_unlinked (plain : parentName ∉ rest)
    (h : fs.locateFrom throughLast links [] rest = .ok q) : q = rest ∧ fs.LeadsDown [] rest := by
  unfold locateFrom at h
  split at h
  · rename_i arrived
    obtain rfl := Except.ok.inj h
    exact advance_of_unlinked unlinked rfl plain arrived
  · cases h
  · rename_i jump
    exact absurd jump (advance_ne_jump unlinked _ _ _ _)

end Unlinked

theorem fullNames_congr (h : fs'.here = fs.here) (p : Path) : fs'.fullNames p = fs.fullNames p := by
  rw [fullNames, fullNames, h]

theorem fullNames_parent_prefix (fs : FileStore) (p : Path) :
    fs.fullNames p.parent <+: fs.fullNames p := by
  unfold fullNames Path.parent Path.isAbsolute
  split
  · exact List.dropLast_prefix _
  · exact (List.prefix_append_right_inj _).2 (List.dropLast_prefix _)

theorem locate_fullNames (down : fs.LeadsDown [] (fs.fullNames p))
    (stays : ∀ target, fs.entry? (fs.fullNames p) ≠ some (.link target)) :
    fs.locate p = .ok (fs.fullNames p) :=
  locateFrom_of_arrived (advance_of_leadsDown down fun _ => stays) _

theorem IsLinkless.isFile_iff (linkless : fs.IsLinkless) (plain : parentName ∉ fs.fullNames p) :
    fs.isFile p = true ↔ ∃ c, fs.entry? (fs.fullNames p) = some (.file c) := by
  constructor
  · intro isFile
    obtain ⟨q, c, located, file⟩ := exists_file_of_isFile isFile
    obtain ⟨rfl, -⟩ := locateFrom_of_unlinked linkless.unlinked plain located
    exact ⟨c, file⟩
  · rintro ⟨c, file⟩
    have down := linkless.down _ (by rw [file]; rfl)
    rw [isFile, find?, locate_fullNames down (linkless.unlinked _)]
    simp only [file]

/-! ## Where folders are made -/

theorem Grows.unlinked (grows : Grows fs fs')
    (unlinked : ∀ q target, fs.entry? q ≠ some (.link target)) (q : List Text) (target : Path) :
    fs'.entry? q ≠ some (.link target) := by
  rcases grows.entry q with same | ⟨-, folder⟩
  · exact same ▸ unlinked q target
  · rw [folder]
    nofun

theorem entry?_makeFolder (unlinked : ∀ q target, fs.entry? q ≠ some (.link target))
    (plain : parentName ∉ fs.fullNames p) (h : fs.makeFolder p = .ok fs')
    (other : q ≠ fs.fullNames p) : fs'.entry? q = fs.entry? q := by
  unfold makeFolder at h
  split at h
  · cases h
  · split at h
    · rw [Except.ok.inj h]
    · cases h
  · rename_i names located
    split at h
    · split at h
      · rw [Except.ok.inj h]
      · cases h
    · obtain rfl := Except.ok.inj h
      obtain ⟨rfl, -⟩ := locateFrom_of_unlinked unlinked plain located
      exact entry?_put_of_ne other

theorem entry?_makeFoldersTo {anchor : Anchor} {above : List Text}
    (unlinked : ∀ q target, fs.entry? q ≠ some (.link target))
    (plain : parentName ∉ fs.fullNames ⟨anchor, above.reverse⟩)
    (h : fs.makeFoldersTo anchor above = .ok fs')
    (other : ¬ q <+: fs.fullNames ⟨anchor, above.reverse⟩) : fs'.entry? q = fs.entry? q := by
  have itself {names : List Text} (other : ¬ q <+: names) : q ≠ names := fun same =>
    other (same ▸ List.prefix_refl q)
  induction above generalizing fs' with
  | nil => exact entry?_makeFolder unlinked plain h (itself other)
  | cons name above ih =>
    have split := fs.fullNames_append ⟨anchor, above.reverse⟩ [name]
    rw [makeFoldersTo] at h
    split at h
    · obtain ⟨fs₁, made, h⟩ := bind_eq_ok h
      have grows := grows_makeFoldersTo made
      have same := fullNames_congr grows.here ⟨anchor, (name :: above).reverse⟩
      have last := entry?_makeFolder (grows.unlinked unlinked) (same ▸ plain) h
        (same ▸ itself other)
      rw [List.reverse_cons, split] at plain other
      rw [last, ih (fun mem => plain (List.mem_append_left _ mem)) made fun below =>
        other (below.trans (List.prefix_append _ _))]
    · exact entry?_makeFolder unlinked plain h (itself other)

/-- Folders are made on the way of a path only. -/
theorem entry?_makeFolders (unlinked : ∀ q target, fs.entry? q ≠ some (.link target))
    (plain : parentName ∉ fs.fullNames p) (h : fs.makeFolders p = .ok fs')
    (other : ¬ q <+: fs.fullNames p) : fs'.entry? q = fs.entry? q :=
  entry?_makeFoldersTo unlinked (by rwa [List.reverse_reverse]) h (by rwa [List.reverse_reverse])

end FileStore

end Modulize
