import Modulize.Files.Store
import Modulize.Proofs.Collections

/-!
# Changes to a tree of files

What the tree holds under a full name after a change (`entry?_put`, `entry?_remove`), and what does
not depend on the contents of files: two trees of the same shape (`SameShape`) send every path to
the same place (`locate_congr`).

A file that can be read can be written (`write_of_contentAt`), and writing it keeps the shape
(`sameShape_put`).
-/

namespace Modulize

theorem lookup?_filter {κ ν : Type} [DecidableEq κ] (keep : κ → Bool) (table : List (κ × ν))
    (k : κ) : lookup? k (table.filter fun x => keep x.1) =
      if keep k then lookup? k table else none := by
  induction table with
  | nil => simp [lookup?]
  | cons kv table ih =>
    obtain ⟨k', v⟩ := kv
    by_cases same : k' = k
    · subst same
      by_cases kept : keep k' = true <;> simp [lookup?, kept, ih]
    · by_cases kept : keep k' = true <;> simp [lookup?, kept, ih, same]

/-- Values under keys of a table can be replaced in any order. -/
theorem assign_comm {κ ν : Type} [DecidableEq κ] {k k' : κ} {v v' : ν} {table : List (κ × ν)}
    (other : k ≠ k') (hk : (lookup? k table).isSome) (hk' : (lookup? k' table).isSome) :
    assign k v (assign k' v' table) = assign k' v' (assign k v table) := by
  induction table with
  | nil => cases hk
  | cons kv table ih =>
    obtain ⟨q, u⟩ := kv
    by_cases first : q = k
    · subst first
      simp [assign, other]
    · by_cases second : q = k'
      · subst second
        simp [assign, first]
      · simp only [lookup?, first, second, if_false] at hk hk'
        simp [assign, first, second, ih hk hk']

namespace FileStore

variable {fs fs' fs'' : FileStore} {names q : List Text} {e : Entry} {p : Path} {c : Content}

/-! ## Single entries -/

@[simp] theorem entry?_nil (fs : FileStore) : fs.entry? [] = some .folder := rfl

theorem entry?_of_ne_nil (h : names ≠ []) : fs.entry? names = lookup? names fs.entries := if_neg h

theorem ne_nil_of_file (h : fs.entry? names = some (.file c)) : names ≠ [] := by
  rintro rfl
  cases h

theorem entry?_put (fs : FileStore) (names : List Text) (e : Entry) (q : List Text) :
    entry? (fs.put names e) q = if q = names ∧ q ≠ [] then some e else fs.entry? q := by
  by_cases root : q = []
  · simp [root]
  · rw [entry?_of_ne_nil root, put, lookup?_assign, entry?_of_ne_nil root]
    simp [root, eq_comm]

theorem entry?_put_of_ne (h : q ≠ names) : entry? (fs.put names e) q = fs.entry? q := by
  rw [entry?_put, if_neg fun both => h both.1]

theorem entry?_remove (fs : FileStore) (names q : List Text) :
    entry? (fs.remove names) q = if q = names ∧ q ≠ [] then none else fs.entry? q := by
  by_cases root : q = []
  · simp [root]
  · have filtered := lookup?_filter (fun n => decide (n ≠ names)) fs.entries q
    rw [entry?_of_ne_nil root, entry?_of_ne_nil root]
    refine filtered.trans ?_
    by_cases same : q = names
    · subst same
      simp [root]
    · simp [same]

/-! ## Shapes -/

end FileStore

/-- An entry without the contents of a file. -/
def Entry.shape : Entry → Entry
  | .file _ => .file .empty
  | e => e

namespace FileStore

variable {fs fs' fs'' : FileStore} {names q : List Text} {e : Entry} {p : Path} {c c' : Content}

/-- Trees that differ in the contents of files only. -/
structure SameShape (fs fs' : FileStore) : Prop where
  here : fs'.here = fs.here
  entry : ∀ names, (fs'.entry? names).map Entry.shape = (fs.entry? names).map Entry.shape

theorem SameShape.refl (fs : FileStore) : SameShape fs fs := ⟨rfl, fun _ => rfl⟩

theorem SameShape.trans (h : SameShape fs fs') (h' : SameShape fs' fs'') : SameShape fs fs'' :=
  ⟨h'.here.trans h.here, fun names => (h'.entry names).trans (h.entry names)⟩

/-- New contents for a file keep the shape. -/
theorem sameShape_put (h : fs.entry? names = some (.file c)) (c' : Content) :
    SameShape fs (fs.put names (.file c')) := by
  refine ⟨rfl, fun q => ?_⟩
  rw [entry?_put]
  split
  · rename_i same
    rw [same.1, h]
    rfl
  · rfl

theorem advance_congr (h : SameShape fs fs') (throughLast : Bool) (done rest : List Text) :
    fs'.advance throughLast done rest = fs.advance throughLast done rest := by
  induction rest generalizing done with
  | nil => rfl
  | cons n rest ih =>
    unfold advance
    split
    · exact ih _
    · have shape := h.entry (done ++ [n])
      cases found : fs.entry? (done ++ [n]) with
      | none =>
        rw [found, Option.map_none, Option.map_eq_none_iff] at shape
        rw [shape]
      | some e =>
        rw [found, Option.map_some, Option.map_eq_some_iff] at shape
        obtain ⟨e', found', same⟩ := shape
        rw [found']
        cases e <;> cases e' <;> cases same
        · rfl
        · exact ih _
        · rfl

theorem locateFrom_congr (h : SameShape fs fs') (throughLast : Bool) (links : Nat)
    (done rest : List Text) :
    fs'.locateFrom throughLast links done rest = fs.locateFrom throughLast links done rest := by
  induction links generalizing done rest with
  | zero =>
    unfold locateFrom
    rw [advance_congr h]
  | succ links ih =>
    unfold locateFrom
    rw [advance_congr h]
    split <;> first | rfl | exact ih ..

/-- Where a path leads to does not depend on the contents of files. -/
theorem locate_congr (h : SameShape fs fs') (p : Path) : fs'.locate p = fs.locate p := by
  rw [locate, locate, locateFrom_congr h, fullNames, fullNames, h.here]

/-! ## Reading and writing -/

theorem exists_of_contentAt (h : fs.contentAt p = .ok c) :
    ∃ names, fs.locate p = .ok names ∧ fs.entry? names = some (.file c) := by
  unfold contentAt at h
  split at h
  · cases h
  · rename_i names located
    split at h
    · rename_i found
      exact ⟨names, located, Except.ok.inj h ▸ found⟩
    all_goals cases h

theorem contentAt_of_entry (located : fs.locate p = .ok names)
    (h : fs.entry? names = some (.file c)) : fs.contentAt p = .ok c := by
  simp only [contentAt, located, h]

/-- What is read at a path depends on where it leads to and on what is there. -/
theorem contentAt_congr (h : SameShape fs fs')
    (same : ∀ names, fs.locate p = .ok names → fs'.entry? names = fs.entry? names) :
    fs'.contentAt p = fs.contentAt p := by
  unfold contentAt
  rw [locate_congr h]
  split
  · rfl
  · rename_i names located
    rw [same names located]

theorem sourceAt_congr (h : fs'.contentAt p = fs.contentAt p) : fs'.sourceAt p = fs.sourceAt p := by
  rw [sourceAt, sourceAt, textAt, textAt, rawTextAt, rawTextAt, h]

theorem exists_contentAt_of_sourceAt {t : Text} (h : fs.sourceAt p = .ok t) :
    ∃ c, fs.contentAt p = .ok c := by
  unfold sourceAt textAt rawTextAt at h
  cases found : fs.contentAt p with
  | error f =>
    rw [found] at h
    cases h
  | ok c => exact ⟨c, rfl⟩

/-- A file that can be read can be written. -/
theorem write_of_contentAt (located : fs.locate p = .ok names)
    (h : fs.entry? names = some (.file c)) (c' : Content) :
    fs.write p c' = .ok (fs.put names (.file c')) := by
  simp only [write, located, h]

end FileStore

end Modulize
