import Modulize.Proofs.Files.Tree

/-!
# Trees after some files have been removed

Removing files, or links that lead to files, leaves all other paths to files as they are
(`locateLink_without`): no path leads on through a file (`locateFrom_of_file`), so that none of
those paths goes through what is removed. So files with different places can be removed one after
another (`unlink_without`).

Making folders adds folders only (`grows_makeFolders`), and a file that has been written is found
at its path (`contentAt_of_write`).
-/

namespace Modulize.FileStore

/-- The tree without the entries with some full names. -/
def without (fs : FileStore) (places : List (List Text)) : FileStore :=
  { fs with entries := fs.entries.filter (·.1 ∉ places) }

/-- Everything from the root down to a place is folders. -/
def IsSolid (fs : FileStore) (done : List Text) : Prop :=
  ∀ way, way <+: done → fs.entry? way = some .folder

/-- No path leads on from the place: it holds a file, or a link that leads to one. -/
def IsEnd (fs : FileStore) (q : List Text) : Prop :=
  (∃ c, fs.entry? q = some (.file c)) ∨
    ∃ target, fs.entry? q = some (.link target) ∧ ∃ done links names c, fs.IsSolid done ∧
      done = (if target.isAbsolute then [] else q.dropLast) ∧
      fs.locateFrom true links done target.names = .ok names ∧
      fs.entry? names = some (.file c)

variable {fs fs' fs'' : FileStore} {places : List (List Text)} {names q done rest : List Text}
  {n : Text} {p : Path} {c : Content} {throughLast : Bool} {links : Nat}

/-! ## Fewer entries -/

theorem entry?_without (fs : FileStore) (places : List (List Text)) (q : List Text) :
    entry? (fs.without places) q = if q ∈ places ∧ q ≠ [] then none else fs.entry? q := by
  by_cases root : q = []
  · simp [root]
  · have filtered := lookup?_filter (fun n => decide (n ∉ places)) fs.entries q
    rw [entry?_of_ne_nil root, entry?_of_ne_nil root]
    refine filtered.trans ?_
    by_cases mem : q ∈ places <;> simp [mem, root]

theorem entry?_without_of_not_mem (h : q ∉ places) :
    entry? (fs.without places) q = fs.entry? q := by
  rw [entry?_without, if_neg fun both => h both.1]

theorem without_nil (fs : FileStore) : fs.without [] = fs := by
  rw [without, List.filter_eq_self.2 fun _ _ => by simp]

theorem remove_without (fs : FileStore) (places : List (List Text)) (q : List Text) :
    (fs.without places).remove q = fs.without (places ++ [q]) := by
  simp only [remove, without, List.filter_filter, List.mem_append, List.mem_singleton, not_or]
  congr 1
  refine List.filter_congr fun x _ => ?_
  rw [← Bool.decide_and]
  exact decide_eq_decide.2 and_comm

/-! ## Solid ground -/

theorem isSolid_nil (fs : FileStore) : fs.IsSolid [] := by
  rintro way below
  rw [List.prefix_nil.1 below]
  rfl

theorem IsSolid.folder (solid : fs.IsSolid done) : fs.entry? done = some .folder :=
  solid done (List.prefix_refl done)

theorem IsSolid.dropLast (solid : fs.IsSolid done) : fs.IsSolid done.dropLast :=
  fun way below => solid way (below.trans (List.dropLast_prefix done))

theorem IsSolid.concat (solid : fs.IsSolid done) (folder : fs.entry? (done ++ [n]) = some .folder) :
    fs.IsSolid (done ++ [n]) := by
  intro way below
  rcases List.prefix_concat_iff.1 below with rfl | below
  · exact folder
  · exact solid way below

/-- Names are followed over solid ground. -/
theorem IsSolid.jump (solid : fs.IsSolid done) {done' rest' : List Text}
    (h : fs.advance throughLast done rest = .jump done' rest') : fs.IsSolid done' := by
  induction rest generalizing done with
  | nil =>
    rw [advance] at h
    cases h
  | cons n rest ih =>
    rw [advance] at h
    split at h
    · exact ih solid.dropLast h
    · split at h
      · split at h <;> cases h
      · rename_i folder
        exact ih (solid.concat folder) h
      · split at h <;> cases h
      · split at h
        · cases h
        · obtain ⟨rfl, -⟩ := Walk.jump.inj h
          split
          · exact isSolid_nil fs
          · exact solid

theorem locateFrom_of_arrived (h : fs.advance throughLast done rest = .arrived q) (links : Nat) :
    fs.locateFrom throughLast links done rest = .ok q := by
  unfold locateFrom
  rw [h]

theorem locateFrom_of_jump {done' rest' : List Text}
    (h : fs.advance throughLast done rest = .jump done' rest') (links : Nat) :
    fs.locateFrom throughLast (links + 1) done rest =
      fs.locateFrom throughLast links done' rest' := by
  rw [locateFrom, h]

/-- Induction on the links that are gone through until a place is come to. -/
theorem locateFrom_induction {motive : Nat → List Text → List Text → Prop}
    (arrived : ∀ links done rest, fs.IsSolid done →
      fs.advance throughLast done rest = .arrived q → motive links done rest)
    (jump : ∀ links done rest done' rest', fs.IsSolid done →
      fs.advance throughLast done rest = .jump done' rest' → fs.IsSolid done' →
      fs.locateFrom throughLast links done' rest' = .ok q → motive links done' rest' →
      motive (links + 1) done rest)
    (solid : fs.IsSolid done) (h : fs.locateFrom throughLast links done rest = .ok q) :
    motive links done rest := by
  induction links generalizing done rest with
  | zero =>
    unfold locateFrom at h
    split at h
    · rename_i there
      obtain rfl := Except.ok.inj h
      exact arrived 0 done rest solid there
    · cases h
    · cases h
  | succ links ih =>
    unfold locateFrom at h
    split at h
    · rename_i there
      obtain rfl := Except.ok.inj h
      exact arrived _ done rest solid there
    · cases h
    · rename_i jumped
      have solid' := solid.jump jumped
      exact jump links done rest _ _ solid jumped solid' h (ih solid' h)

/-! ## Ends of paths -/

/-- No path leads on through a file. -/
theorem advance_of_file (solid : fs.IsSolid done)
    (arrived : fs.advance true done names = .arrived q) (file : fs.entry? q = some (.file c))
    (some : rest ≠ []) : fs.advance throughLast done (names ++ rest) = .blocked .notDirectory := by
  induction names generalizing done with
  | nil =>
    rw [advance] at arrived
    rw [← Walk.arrived.inj arrived, solid.folder] at file
    cases file
  | cons n names ih =>
    rw [advance] at arrived
    rw [List.cons_append, advance]
    split at arrived
    · rename_i up
      rw [if_pos up]
      exact ih solid.dropLast arrived
    · rename_i other
      rw [if_neg other]
      split at arrived
      · rename_i missing
        split at arrived
        · rw [← Walk.arrived.inj arrived, missing] at file
          cases file
        · cases arrived
      · rename_i folder
        exact ih (solid.concat folder) arrived
      · split at arrived
        · exact if_neg (by simp [some])
        · cases arrived
      · split at arrived
        · rename_i last
          exact absurd last.2 (by simp)
        · cases arrived

/-- Names that lead to a file do not lead on from there. -/
theorem locateFrom_of_file (throughLast : Bool) (solid : fs.IsSolid done)
    (located : fs.locateFrom true links done names = .ok q)
    (file : fs.entry? q = some (.file c)) (some : rest ≠ []) (links' : Nat) :
    ∃ problem, fs.locateFrom throughLast links' done (names ++ rest) = .error problem := by
  refine locateFrom_induction (motive := fun _ done names => ∀ links', ∃ problem,
    fs.locateFrom throughLast links' done (names ++ rest) = .error problem)
    ?_ ?_ solid located links'
  · intro _ done names solid arrived links'
    unfold locateFrom
    rw [advance_of_file solid arrived file some]
    exact ⟨_, rfl⟩
  · intro _ done names done' names' _ jump _ _ ih links'
    unfold locateFrom
    rw [advance_append_of_jump jump (Or.inr some)]
    cases links' with
    | zero => exact ⟨_, rfl⟩
    | succ links' => exact ih links'

/-- Where names lead to without going through a link at their end. -/
theorem advance_false (done names : List Text) :
    fs.advance false done names = fs.advance true done names ∨
      ∃ q target, fs.advance false done names = .arrived q ∧ fs.entry? q = some (.link target) ∧
        fs.advance true done names =
          .jump (if target.isAbsolute then [] else q.dropLast) target.names := by
  induction names generalizing done with
  | nil => exact Or.inl rfl
  | cons n names ih =>
    rw [advance, advance]
    split
    · exact ih _
    · split
      · exact Or.inl rfl
      · exact ih _
      · exact Or.inl rfl
      · rename_i target link
        by_cases last : names = []
        · exact Or.inr ⟨_, target, if_pos ⟨last, rfl⟩, link, by simp [last]⟩
        · exact Or.inl (by simp [last])

theorem exists_file_of_isFile (h : fs.isFile p = true) :
    ∃ names c, fs.locate p = .ok names ∧ fs.entry? names = some (.file c) := by
  unfold isFile at h
  split at h
  · rename_i found
    unfold find? at found
    split at found
    · rename_i located
      exact ⟨_, _, located, found⟩
    · cases found
  · cases h

/-- A path that leads to a file is a file itself, or a link that leads to one. -/
theorem exists_locateLink_of_isFile (h : fs.isFile p = true) :
    ∃ q, fs.locateLink p = .ok q ∧ fs.IsEnd q := by
  obtain ⟨names, c, located, file⟩ := exists_file_of_isFile h
  refine locateFrom_induction (motive := fun links done rest => ∃ q,
    fs.locateFrom false links done rest = .ok q ∧ fs.IsEnd q) ?_ ?_ (isSolid_nil fs) located
  · intro links done rest _ arrived
    rcases fs.advance_false done rest with same | ⟨q, target, -, -, jump⟩
    · exact ⟨names, locateFrom_of_arrived (same.trans arrived) links, Or.inl ⟨c, file⟩⟩
    · cases arrived.symm.trans jump
  · intro links done rest done' rest' _ jump solid' on ih
    rcases fs.advance_false done rest with same | ⟨q, target, arrived, link, jump'⟩
    · rwa [locateFrom_of_jump (same.trans jump)]
    · obtain ⟨rfl, rfl⟩ := Walk.jump.inj (jump.symm.trans jump')
      exact ⟨q, locateFrom_of_arrived arrived _,
        Or.inr ⟨target, link, _, links, names, c, solid', rfl, on, file⟩⟩

/-! ## Removing files -/

section Without

variable (ends : ∀ q ∈ places, fs.IsEnd q)

include ends in
theorem not_mem_of_folder (folder : fs.entry? q = some .folder) : q ∉ places := by
  intro mem
  rcases ends q mem with ⟨c, file⟩ | ⟨target, link, -⟩
  · cases folder.symm.trans file
  · cases folder.symm.trans link

include ends in
/-- Names that lead to another place than those removed lead there still, unless they go through a
link that has been removed. -/
theorem advance_without (h : fs.advance false done rest = .arrived q) (other : q ∉ places) :
    (fs.without places).advance false done rest = .arrived q := by
  induction rest generalizing done with
  | nil => exact h
  | cons n rest ih =>
    rw [advance] at h ⊢
    split
    · rename_i up
      rw [if_pos up] at h
      exact ih h
    · rename_i down
      rw [if_neg down] at h
      -- the entry is still there, or the names end at it
      cases found : fs.entry? (done ++ [n]) with
      | none =>
        have gone : entry? (fs.without places) (done ++ [n]) = none := by
          rw [entry?_without, found, ite_self]
        rw [gone]
        simpa only [found] using h
      | some e =>
        rw [found] at h
        have here (last : q = done ++ [n]) :
            entry? (fs.without places) (done ++ [n]) = some e := by
          rw [entry?_without_of_not_mem (last ▸ other), found]
        cases e with
        | folder =>
          rw [entry?_without_of_not_mem (not_mem_of_folder ends found), found]
          exact ih h
        | file c =>
          dsimp only at h
          split at h
          · rename_i last
            rw [here (Walk.arrived.inj h).symm]
            exact (if_pos last).trans h
          · cases h
        | link target =>
          dsimp only at h
          split at h
          · rename_i last
            rw [here (Walk.arrived.inj h).symm]
            exact (if_pos last).trans h
          · cases h

include ends in
/-- Names that come to a link come to it still, unless it has been removed. -/
theorem advance_without_of_jump {done' rest' : List Text}
    (h : fs.advance false done rest = .jump done' rest') :
    (fs.without places).advance false done rest = .jump done' rest' ∨
      ∃ q ∈ places, ∃ target further, fs.entry? q = some (.link target) ∧ further ≠ [] ∧
        done' = (if target.isAbsolute then [] else q.dropLast) ∧
        rest' = target.names ++ further := by
  induction rest generalizing done with
  | nil =>
    rw [advance] at h
    cases h
  | cons n rest ih =>
    rw [advance] at h ⊢
    split
    · rename_i up
      rw [if_pos up] at h
      exact ih h
    · rename_i down
      rw [if_neg down] at h
      split at h
      · split at h <;> cases h
      · rename_i folder
        rw [entry?_without_of_not_mem (not_mem_of_folder ends folder), folder]
        exact ih h
      · split at h <;> cases h
      · rename_i target link
        split at h
        · cases h
        · rename_i through
          obtain ⟨rfl, rfl⟩ := Walk.jump.inj h
          by_cases mem : done ++ [n] ∈ places
          · exact Or.inr ⟨_, mem, target, rest, link, fun last => through ⟨last, rfl⟩, by simp, rfl⟩
          · rw [entry?_without_of_not_mem mem, link]
            exact Or.inl (if_neg through)

include ends in
/-- **A path to another place than those removed** leads there still. -/
theorem locateLink_without (h : fs.locateLink p = .ok q) (other : q ∉ places) :
    (fs.without places).locateLink p = .ok q := by
  refine locateFrom_induction (motive := fun links done rest =>
    locateFrom (fs.without places) false links done rest = .ok q) ?_ ?_ (isSolid_nil fs) h
  · intro links done rest _ arrived
    exact locateFrom_of_arrived (advance_without ends arrived other) links
  · intro links done rest done' rest' _ jump _ on ih
    rcases advance_without_of_jump ends jump with
      same | ⟨l, hl, target, further, link, some, rfl, rfl⟩
    · rwa [locateFrom_of_jump same]
    · -- the way would have to lead on from a file
      obtain ⟨c, file⟩ | ⟨target', link', done', links', names, c, solid', base, located, file⟩ :=
        ends l hl
      · cases link.symm.trans file
      · obtain rfl := Entry.link.inj (Option.some.inj (link.symm.trans link'))
        subst base
        obtain ⟨problem, failed⟩ :=
          locateFrom_of_file false solid' located file some links
        cases failed.symm.trans on

include ends in
/-- Another file can be removed as well. -/
theorem unlink_without (h : fs.locateLink p = .ok q) (isEnd : fs.IsEnd q) (other : q ∉ places) :
    (fs.without places).unlink p = .ok (fs.without (places ++ [q])) := by
  rw [unlink, locateLink_without ends h other]
  dsimp only
  rw [entry?_without_of_not_mem other, ← remove_without]
  rcases isEnd with ⟨c, file⟩ | ⟨target, link, -⟩
  · rw [file]
  · rw [link]

end Without

/-! ## Writing files -/

/-- Names are followed up to a link, and through it. -/
theorem not_link_of_advance (solid : fs.IsSolid done)
    (h : fs.advance true done rest = .arrived q) (target : Path) :
    fs.entry? q ≠ some (.link target) := by
  intro link
  induction rest generalizing done with
  | nil =>
    rw [advance] at h
    rw [← Walk.arrived.inj h, solid.folder] at link
    cases link
  | cons n rest ih =>
    rw [advance] at h
    split at h
    · exact ih solid.dropLast h
    · split at h
      · rename_i missing
        split at h
        · rw [← Walk.arrived.inj h, missing] at link
          cases link
        · cases h
      · rename_i folder
        exact ih (solid.concat folder) h
      · rename_i file
        split at h
        · rw [← Walk.arrived.inj h, file] at link
          cases link
        · cases h
      · split at h
        · rename_i last
          exact absurd last.2 (by simp)
        · cases h

theorem not_link_of_locate (h : fs.locate p = .ok q) (target : Path) :
    fs.entry? q ≠ some (.link target) :=
  locateFrom_induction (motive := fun _ _ _ => fs.entry? q ≠ some (.link target))
    (fun _ _ _ solid arrived => not_link_of_advance solid arrived target)
    (fun _ _ _ _ _ _ _ _ _ ih => ih) (isSolid_nil fs) h

/-- A file in place of a file, or of nothing, does not change where names lead. -/
theorem advance_put (free : fs.entry? q = none ∨ ∃ c, fs.entry? q = some (.file c)) (c : Content)
    (h : ∀ problem, fs.advance throughLast done rest ≠ .blocked problem) :
    (fs.put q (.file c)).advance throughLast done rest = fs.advance throughLast done rest := by
  induction rest generalizing done with
  | nil => rfl
  | cons n rest ih =>
    rw [advance] at h
    rw [advance, advance]
    split
    · rename_i up
      rw [if_pos up] at h
      exact ih h
    · rename_i down
      rw [if_neg down] at h
      by_cases same : done ++ [n] = q
      · subst same
        rw [entry?_put, if_pos ⟨rfl, by simp⟩]
        dsimp only
        rcases free with missing | ⟨c', file⟩
        · rw [missing] at h ⊢
          dsimp only at h ⊢
          split
          · rfl
          · rename_i more
            exact absurd (if_neg more) (h _)
        · rw [file]
      · rw [entry?_put_of_ne same]
        split
        · rfl
        · rename_i folder
          rw [folder] at h
          exact ih h
        · rfl
        · rfl

theorem locate_put (free : fs.entry? q = none ∨ ∃ c, fs.entry? q = some (.file c)) (c : Content)
    (h : fs.locate p = .ok names) : (fs.put q (.file c)).locate p = .ok names := by
  have same {done rest : List Text}
      (on : ∀ problem, fs.advance true done rest ≠ .blocked problem) := advance_put free c on
  refine locateFrom_induction (motive := fun links done rest =>
    locateFrom (fs.put q (.file c)) true links done rest = .ok names) ?_ ?_ (isSolid_nil fs) h
  · intro links done rest _ arrived
    exact locateFrom_of_arrived ((same (by simp [arrived])).trans arrived) links
  · intro links done rest done' rest' _ jump _ _ ih
    rwa [locateFrom_of_jump ((same (by simp [jump])).trans jump)]

/-- What is written to a file, and where. -/
theorem write_eq_ok (h : fs.write p c = .ok fs') :
    ∃ q, fs.locate p = .ok q ∧ (fs.entry? q = none ∨ ∃ c', fs.entry? q = some (.file c')) ∧
      fs' = fs.put q (.file c) := by
  unfold write at h
  split at h
  · cases h
  · rename_i q located
    split at h
    · cases h
    · rename_i noFolder
      refine ⟨q, located, ?_, (Except.ok.inj h).symm⟩
      cases found : fs.entry? q with
      | none => exact Or.inl rfl
      | some e =>
        cases e with
        | file c' => exact Or.inr ⟨c', rfl⟩
        | folder => exact absurd found noFolder
        | link target => exact absurd found (not_link_of_locate located target)

/-- **A file that has been written** is found at its path. -/
theorem contentAt_of_write (h : fs.write p c = .ok fs') :
    ∃ q, fs.locate p = .ok q ∧ fs'.locate p = .ok q ∧ fs'.contentAt p = .ok c := by
  obtain ⟨q, located, free, rfl⟩ := write_eq_ok h
  have located' := locate_put free c located
  refine ⟨q, located, located', contentAt_of_entry located' ?_⟩
  have some : q ≠ [] := by
    rintro rfl
    rcases free with missing | ⟨c', file⟩
    · cases missing
    · cases file
  rw [entry?_put, if_pos ⟨rfl, some⟩]

/-! ## Making folders -/

/-- A tree with more folders. -/
structure Grows (fs fs' : FileStore) : Prop where
  here : fs'.here = fs.here
  entry : ∀ q, fs'.entry? q = fs.entry? q ∨
    fs.entry? q = none ∧ fs'.entry? q = some .folder

theorem Grows.refl (fs : FileStore) : Grows fs fs := ⟨rfl, fun _ => Or.inl rfl⟩

theorem Grows.trans (h : Grows fs fs') (h' : Grows fs' fs'') : Grows fs fs'' := by
  refine ⟨h'.here.trans h.here, fun q => ?_⟩
  rcases h.entry q with same | ⟨free, made⟩ <;> rcases h'.entry q with same' | ⟨free', made'⟩
  · exact Or.inl (same'.trans same)
  · exact Or.inr ⟨same ▸ free', made'⟩
  · exact Or.inr ⟨free, same'.trans made⟩
  · exact Or.inr ⟨free, made'⟩

theorem grows_makeFolder (h : fs.makeFolder p = .ok fs') : Grows fs fs' := by
  unfold makeFolder at h
  split at h
  · cases h
  · split at h
    · obtain rfl := Except.ok.inj h
      exact .refl fs
    · cases h
  · split at h
    · split at h
      · obtain rfl := Except.ok.inj h
        exact .refl fs
      · cases h
    · rename_i names located free
      obtain rfl := Except.ok.inj h
      refine ⟨rfl, fun q => ?_⟩
      rw [entry?_put]
      split
      · rename_i same
        exact Or.inr ⟨same.1 ▸ free, rfl⟩
      · exact Or.inl rfl

theorem grows_makeFoldersTo {anchor : Anchor} {above : List Text}
    (h : fs.makeFoldersTo anchor above = .ok fs') : Grows fs fs' := by
  induction above generalizing fs' with
  | nil => exact grows_makeFolder h
  | cons name above ih =>
    rw [makeFoldersTo] at h
    split at h
    · obtain ⟨fs₁, made, h⟩ := bind_eq_ok h
      exact (ih made).trans (grows_makeFolder h)
    · exact grows_makeFolder h

theorem grows_makeFolders (h : fs.makeFolders p = .ok fs') : Grows fs fs' := grows_makeFoldersTo h

/-! ## Refusals -/

/-- The tree of files refuses an operation. -/
def IsRefusal (f : Failure) : Prop := ∃ problem p, f = .refused problem p

theorem isRefusal_of_write {f : Failure} (h : fs.write p c = .error f) : IsRefusal f := by
  unfold write at h
  split at h
  · exact ⟨_, _, (Except.error.inj h).symm⟩
  · split at h
    · exact ⟨_, _, (Except.error.inj h).symm⟩
    · cases h

theorem isRefusal_of_makeFolder {f : Failure} (h : fs.makeFolder p = .error f) :
    IsRefusal f := by
  unfold makeFolder at h
  split at h
  · exact ⟨_, _, (Except.error.inj h).symm⟩
  · split at h
    · cases h
    · exact ⟨_, _, (Except.error.inj h).symm⟩
  · split at h
    · split at h
      · cases h
      · exact ⟨_, _, (Except.error.inj h).symm⟩
    · cases h

theorem isRefusal_of_makeFoldersTo {anchor : Anchor} {above : List Text} {f : Failure}
    (h : fs.makeFoldersTo anchor above = .error f) : IsRefusal f := by
  induction above generalizing f with
  | nil => exact isRefusal_of_makeFolder h
  | cons name above ih =>
    rw [makeFoldersTo] at h
    split at h
    · cases made : fs.makeFoldersTo anchor above with
      | error f' =>
        rw [made] at h
        obtain rfl : f' = f := Except.error.inj h
        exact ih made
      | ok fs₁ =>
        rw [made] at h
        exact isRefusal_of_makeFolder h
    · exact isRefusal_of_makeFolder h

theorem isRefusal_of_makeFolders {f : Failure} (h : fs.makeFolders p = .error f) : IsRefusal f :=
  isRefusal_of_makeFoldersTo h

end Modulize.FileStore
