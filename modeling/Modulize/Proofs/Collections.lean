import Modulize.Text.Basic

/-!
# Lists

What the list operations of the library do to membership and order.

* `sortBy` permutes its list (`sortBy_perm`) and puts it in order (`sortBy_pairwise`).
* `dedup` keeps the members (`mem_dedup`), each once (`nodup_dedup`).
* Texts are in a total order (`Text.precedes_total`, `Text.precedes_antisymm`,
  `Text.precedes_trans`), so that a sorted list of texts, each once, is known by its members
  (`sortTexts_dedup_congr`).
* `lookup?` finds a pair of the table (`mem_of_lookup?`), the first one (`lookup?_append`) and the
  one put last (`lookup?_assign`).
* A traversal that does not fail relates members and results (`exists_of_mem_mapM`,
  `exists_mem_of_mapM`); members may be visited in any order (`exists_mapM_perm`) and left out
  before it or after it (`mapM_filter_eq_ok`, `mapM_distinctBy_eq_ok`). One that fails does so at
  its first member that fails (`mapM_eq_error`).
-/

namespace Modulize

section Sorting

variable {α : Type} (le : α → α → Bool)

theorem insertBy_perm (a : α) (l : List α) : (insertBy le a l).Perm (a :: l) := by
  induction l with
  | nil => exact List.Perm.refl _
  | cons b r ih =>
    unfold insertBy
    split
    · exact List.Perm.refl _
    · exact (ih.cons b).trans (List.Perm.swap a b r)

theorem sortBy_perm (l : List α) : (sortBy le l).Perm l := by
  induction l with
  | nil => exact List.Perm.refl _
  | cons a r ih => exact (insertBy_perm le a (sortBy le r)).trans (ih.cons a)

@[simp] theorem mem_sortBy {a : α} {l : List α} : a ∈ sortBy le l ↔ a ∈ l :=
  (sortBy_perm le l).mem_iff

variable {le}

theorem insertBy_pairwise {R : α → α → Prop} (before : ∀ a b, le a b = true → R a b)
    (behind : ∀ a b, le a b = false → R b a) (trans : ∀ a b c, R a b → R b c → R a c) (a : α)
    {l : List α} (h : l.Pairwise R) : (insertBy le a l).Pairwise R := by
  induction l with
  | nil => exact List.pairwise_singleton _ _
  | cons b r ih =>
    obtain ⟨hb, hr⟩ := List.pairwise_cons.1 h
    unfold insertBy
    split
    · rename_i hab
      refine List.pairwise_cons.2 ⟨fun x hx => ?_, h⟩
      rcases List.mem_cons.1 hx with rfl | hx
      · exact before a x hab
      · exact trans a b x (before a b hab) (hb x hx)
    · rename_i hab
      have hba : R b a := behind a b (Bool.eq_false_iff.2 hab)
      refine List.pairwise_cons.2 ⟨fun x hx => ?_, ih hr⟩
      rcases List.mem_cons.1 ((insertBy_perm le a r).mem_iff.1 hx) with rfl | hx
      · exact hba
      · exact hb x hx

/-- A sorted list is in order for every transitive relation that the comparison decides. -/
theorem sortBy_pairwise {R : α → α → Prop} (before : ∀ a b, le a b = true → R a b)
    (behind : ∀ a b, le a b = false → R b a) (trans : ∀ a b c, R a b → R b c → R a c)
    (l : List α) : (sortBy le l).Pairwise R := by
  induction l with
  | nil => exact List.Pairwise.nil
  | cons a r ih => exact insertBy_pairwise before behind trans a ih

/-- Two members of a list whose members are all related are the same, or related one way. -/
theorem pairwise_cases {R : α → α → Prop} {l : List α} (h : l.Pairwise R) {a b : α} (ha : a ∈ l)
    (hb : b ∈ l) : a = b ∨ R a b ∨ R b a := by
  induction h with
  | nil => cases ha
  | cons first _ ih =>
    rcases List.mem_cons.1 ha with rfl | ha' <;> rcases List.mem_cons.1 hb with rfl | hb'
    · exact Or.inl rfl
    · exact Or.inr (Or.inl (first b hb'))
    · exact Or.inr (Or.inr (first a ha'))
    · exact ih ha' hb'

end Sorting

/-! ## Deduplication -/

section Dedup

variable {α : Type} [DecidableEq α]

@[simp] theorem mem_dedup {a : α} {l : List α} : a ∈ dedup l ↔ a ∈ l := by
  induction l with
  | nil => exact Iff.rfl
  | cons b r ih =>
    simp only [dedup, List.mem_cons, List.mem_filter, ih, decide_eq_true_eq, ne_eq]
    by_cases h : a = b <;> simp [h]

theorem nodup_dedup (l : List α) : (dedup l).Nodup := by
  induction l with
  | nil => exact List.nodup_nil
  | cons a r ih =>
    exact List.nodup_cons.2 ⟨by simp, ih.sublist List.filter_sublist⟩

theorem dedup_eq_self {l : List α} (h : l.Nodup) : dedup l = l := by
  induction l with
  | nil => rfl
  | cons a r ih =>
    obtain ⟨new, rest⟩ := List.nodup_cons.1 h
    rw [dedup, ih rest, List.filter_eq_self.2]
    intro b hb
    simpa using fun e : b = a => new (e ▸ hb)

end Dedup

/-! ## Lists put together -/

/-- A list is not longer than what its members, none of them empty, come to together. -/
theorem length_le_flatMap {α β : Type} {f : α → List β} (h : ∀ a, f a ≠ []) (l : List α) :
    l.length ≤ (l.flatMap f).length := by
  induction l with
  | nil => exact Nat.le_refl 0
  | cons a l ih =>
    have first := List.length_pos_iff.2 (h a)
    rw [List.flatMap_cons, List.length_append, List.length_cons]
    omega

/-- Putting some members of a list first leaves the list as it is when they come first already. -/
theorem filter_append_filter_eq_self_iff {α : Type} {p : α → Bool} {l : List α} :
    l.filter p ++ l.filter (! p ·) = l ↔ l.Pairwise fun a b => p b = true → p a = true := by
  induction l with
  | nil => simp
  | cons a l ih =>
    by_cases here : p a = true
    · simp [here, ih]
    · rw [List.filter_cons_of_neg here, List.filter_cons_of_pos (by simpa using here),
        List.pairwise_cons]
      cases first : l.filter p with
      | nil =>
        have others := List.filter_eq_nil_iff.1 first
        rw [first, List.nil_append] at ih
        rw [List.nil_append, List.cons_inj_right, ih]
        exact ⟨fun later => ⟨fun b hb some => absurd some (others b hb), later⟩, And.right⟩
      | cons b r =>
        have hb := List.mem_filter.1 (first ▸ List.mem_cons_self : b ∈ l.filter p)
        constructor
        · intro e
          obtain ⟨rfl, -⟩ := List.cons.inj e
          exact absurd hb.2 here
        · rintro ⟨before, -⟩
          exact absurd (before b hb.1 hb.2) here

/-! ## Texts in order -/

namespace Text

theorem precedes_cons {a b : Char} {r s : Text} :
    precedes (a :: r) (b :: s) = true ↔ a.toNat < b.toNat ∨ a = b ∧ precedes r s = true := by
  simp [precedes]

theorem precedes_total {s t : Text} (h : precedes s t = false) : precedes t s = true := by
  induction s generalizing t with
  | nil => cases h
  | cons a s ih =>
    cases t with
    | nil => rfl
    | cons b t =>
      rw [← Bool.not_eq_true, precedes_cons, not_or, not_and] at h
      rw [precedes_cons]
      by_cases same : a = b
      · exact Or.inr ⟨same.symm, ih (Bool.not_eq_true _ ▸ h.2 same)⟩
      · have : a.toNat ≠ b.toNat := fun e => same (Char.toNat_inj.1 e)
        exact Or.inl (by omega)

theorem precedes_antisymm {s t : Text} (h : precedes s t = true) (h' : precedes t s = true) :
    s = t := by
  induction s generalizing t with
  | nil =>
    cases t with
    | nil => rfl
    | cons b t => cases h'
  | cons a s ih =>
    cases t with
    | nil => cases h
    | cons b t =>
      rcases precedes_cons.1 h with lt | ⟨same, rest⟩
      · rcases precedes_cons.1 h' with lt' | ⟨rfl, -⟩ <;> omega
      · subst same
        rcases precedes_cons.1 h' with lt' | ⟨-, rest'⟩
        · omega
        · rw [ih rest rest']

theorem precedes_trans {s t u : Text} (h : precedes s t = true) (h' : precedes t u = true) :
    precedes s u = true := by
  induction s generalizing t u with
  | nil => rfl
  | cons a s ih =>
    cases t with
    | nil => cases h
    | cons b t =>
      cases u with
      | nil => cases h'
      | cons c u =>
        rw [precedes_cons]
        rcases precedes_cons.1 h with lt | ⟨rfl, rest⟩ <;>
          rcases precedes_cons.1 h' with lt' | ⟨rfl, rest'⟩
        · exact Or.inl (Nat.lt_trans lt lt')
        · exact Or.inl lt
        · exact Or.inl lt'
        · exact Or.inr ⟨rfl, ih rest rest'⟩

end Text

theorem sortTexts_pairwise (l : List Text) :
    (sortTexts l).Pairwise fun s t => Text.precedes s t = true :=
  sortBy_pairwise (R := fun s t => Text.precedes s t = true) (fun _ _ h => h)
    (fun _ _ h => Text.precedes_total h) (fun _ _ _ h h' => Text.precedes_trans h h') l

/-- Lists with the same members are the same when each member is kept once and put in order. -/
theorem sortTexts_dedup_congr {l l' : List Text} (h : ∀ t, t ∈ l ↔ t ∈ l') :
    sortTexts (dedup l) = sortTexts (dedup l') := by
  refine List.Perm.eq_of_pairwise (fun _ _ _ _ h h' => Text.precedes_antisymm h h')
    (sortTexts_pairwise _)
    (sortTexts_pairwise _) ((sortBy_perm _ _).trans (.trans ?_ (sortBy_perm _ _).symm))
  exact (List.perm_ext_iff_of_nodup (nodup_dedup l) (nodup_dedup l')).2 fun t => by simp [h]

/-- Keep the first member of each key. -/
def distinctBy {α β : Type} [DecidableEq β] (key : α → β) : List α → List α
  | [] => []
  | a :: l => a :: (distinctBy key l).filter (key · ≠ key a)

/-! ## Lists that may be left out -/

theorem ite_nil_sublist {α : Type} (p : Prop) [Decidable p] (l : List α) :
    (if p then l else []).Sublist l := by
  split
  · exact List.Sublist.refl _
  · exact List.nil_sublist _

/-! ## Tables -/

theorem mem_of_lookup? {κ ν : Type} [DecidableEq κ] {k : κ} {v : ν} {table : List (κ × ν)}
    (h : lookup? k table = some v) : (k, v) ∈ table := by
  induction table with
  | nil => simp [lookup?] at h
  | cons kv r ih =>
    obtain ⟨k', v'⟩ := kv
    simp only [lookup?] at h
    split at h
    · rename_i hk
      obtain rfl := Option.some.inj h
      exact hk ▸ List.mem_cons_self
    · exact List.mem_cons_of_mem _ (ih h)

theorem lookup?_append {κ ν : Type} [DecidableEq κ] (k : κ) (l l' : List (κ × ν)) :
    lookup? k (l ++ l') = (lookup? k l).or (lookup? k l') := by
  induction l with
  | nil => rfl
  | cons kv r ih =>
    simp only [List.cons_append, lookup?]
    split
    · rfl
    · exact ih

theorem lookup?_assign {κ ν : Type} [DecidableEq κ] (k : κ) (v : ν) (table : List (κ × ν)) (q : κ) :
    lookup? q (assign k v table) = if k = q then some v else lookup? q table := by
  induction table with
  | nil => rfl
  | cons kv r ih =>
    simp only [assign]
    split
    · rename_i same
      by_cases h : k = q <;> simp [lookup?, same, h]
    · rename_i other
      simp only [lookup?, ih]
      grind

/-- Nothing is found under a key that no pair has. -/
theorem lookup?_eq_none {κ ν : Type} [DecidableEq κ] {k : κ} {table : List (κ × ν)}
    (h : k ∉ table.map Prod.fst) : lookup? k table = none := by
  cases e : lookup? k table with
  | none => rfl
  | some v => exact absurd (List.mem_map_of_mem (mem_of_lookup? e)) h

theorem lookup?_filter_ne {κ ν : Type} [DecidableEq κ] {k q : κ} (h : q ≠ k)
    (table : List (κ × ν)) : lookup? q (table.filter (·.1 ≠ k)) = lookup? q table := by
  induction table with
  | nil => rfl
  | cons e table ih =>
    obtain ⟨k', v⟩ := e
    by_cases same : k' = k
    · subst same
      rw [List.filter_cons_of_neg (by simp), ih, lookup?, if_neg h.symm]
    · rw [List.filter_cons_of_pos (by simpa using same), lookup?, lookup?, ih]

/-- Where all keys are different, a key does not occur before. -/
theorem not_mem_of_nodup {κ ν : Type} {before rest : List (κ × ν)} {k : κ} {v : ν}
    (h : ((before ++ (k, v) :: rest).map Prod.fst).Nodup) : k ∉ before.map Prod.fst := by
  rw [List.map_append, List.nodup_append] at h
  exact fun mem => h.2.2 k mem k (by simp) rfl

/-- A value under a new key comes last. -/
theorem assign_eq_append {κ ν : Type} [DecidableEq κ] {k : κ} {table : List (κ × ν)}
    (h : k ∉ table.map Prod.fst) (v : ν) : assign k v table = table ++ [(k, v)] := by
  induction table with
  | nil => rfl
  | cons kv table ih =>
    obtain ⟨hk, rest⟩ := not_or.1 (mt List.mem_cons.2 h)
    rw [assign, if_neg (Ne.symm hk), ih rest, List.cons_append]

/-- The value under the last key is replaced in place. -/
theorem assign_append {κ ν : Type} [DecidableEq κ] {k : κ} {table : List (κ × ν)}
    (h : k ∉ table.map Prod.fst) (v w : ν) :
    assign k v (table ++ [(k, w)]) = table ++ [(k, v)] := by
  induction table with
  | nil => simp [assign]
  | cons kv table ih =>
    obtain ⟨hk, rest⟩ := not_or.1 (mt List.mem_cons.2 h)
    rw [List.cons_append, assign, if_neg (Ne.symm hk), ih rest, List.cons_append]

theorem lookup?_append_last {κ ν : Type} [DecidableEq κ] {k : κ} {table : List (κ × ν)}
    (h : k ∉ table.map Prod.fst) (v : ν) : lookup? k (table ++ [(k, v)]) = some v := by
  rw [lookup?_append, lookup?_eq_none h]
  simp [lookup?]

theorem map_fst_assign {κ ν : Type} [DecidableEq κ] (k : κ) (v : ν) (table : List (κ × ν)) :
    (assign k v table).map Prod.fst =
      if k ∈ table.map Prod.fst then table.map Prod.fst else table.map Prod.fst ++ [k] := by
  induction table with
  | nil => rfl
  | cons kv table ih =>
    obtain ⟨k', v'⟩ := kv
    by_cases h : k' = k
    · simp [assign, h]
    · simp only [assign, h, if_false, List.map_cons, ih, List.mem_cons, Ne.symm h, false_or]
      split <;> rfl

/-- Putting a value under a key keeps the keys different. -/
theorem nodup_map_fst_assign {κ ν : Type} [DecidableEq κ] {table : List (κ × ν)}
    (h : (table.map Prod.fst).Nodup) (k : κ) (v : ν) :
    ((assign k v table).map Prod.fst).Nodup := by
  rw [map_fst_assign]
  split
  · exact h
  · rename_i new
    exact List.nodup_append.2 ⟨h, by simp, fun a ha b hb e => new (by simp_all)⟩

/-- Putting a value under a key brings no other pairs into a table. -/
theorem mem_of_mem_assign {κ ν : Type} [DecidableEq κ] {k : κ} {v : ν} {table : List (κ × ν)}
    {x : κ × ν} (h : x ∈ assign k v table) : x = (k, v) ∨ x ∈ table := by
  induction table with
  | nil => exact Or.inl (List.mem_singleton.1 h)
  | cons kv table ih =>
    unfold assign at h
    split at h
    · exact (List.mem_cons.1 h).imp_right (List.mem_cons_of_mem _)
    · rcases List.mem_cons.1 h with rfl | h
      · exact Or.inr List.mem_cons_self
      · exact (ih h).imp_right (List.mem_cons_of_mem _)

/-! ## Traversals that can fail -/

section Traversal

variable {α β ε : Type} {f : α → Except ε β} {l : List α} {ys : List β}

theorem bind_eq_ok {x : Except ε α} {k : α → Except ε β} {b : β} (h : x >>= k = .ok b) :
    ∃ a, x = .ok a ∧ k a = .ok b := by
  cases x with
  | error e => cases h
  | ok a => exact ⟨a, rfl, h⟩

theorem map_eq_ok {x : Except ε α} {g : α → β} {b : β} (h : x.map g = .ok b) :
    ∃ a, x = .ok a ∧ g a = b := by
  cases x with
  | error e => cases h
  | ok a => exact ⟨a, rfl, Except.ok.inj h⟩

theorem eq_ok_of_ite {p : Prop} [Decidable p] {e : ε} {x : Except ε α} {a : α}
    (h : (if p then .error e else x) = .ok a) : x = .ok a := by
  split at h
  · cases h
  · exact h

theorem mapM_cons_eq_ok {a : α} (h : (a :: l).mapM f = .ok ys) :
    ∃ b bs, f a = .ok b ∧ l.mapM f = .ok bs ∧ ys = b :: bs := by
  rw [List.mapM_cons] at h
  obtain ⟨b, hb, h⟩ := bind_eq_ok h
  obtain ⟨bs, hbs, h⟩ := bind_eq_ok h
  exact ⟨b, bs, hb, hbs, (Except.ok.inj h).symm⟩

/-- Every result of a traversal comes from a member. -/
theorem exists_of_mem_mapM (h : l.mapM f = .ok ys) {y : β} (hy : y ∈ ys) :
    ∃ x ∈ l, f x = .ok y := by
  induction l generalizing ys with
  | nil =>
    obtain rfl := Except.ok.inj h
    cases hy
  | cons a l ih =>
    obtain ⟨b, bs, hb, hbs, rfl⟩ := mapM_cons_eq_ok h
    rcases List.mem_cons.1 hy with rfl | hy
    · exact ⟨a, List.mem_cons_self, hb⟩
    · obtain ⟨x, hx, hxy⟩ := ih hbs hy
      exact ⟨x, List.mem_cons_of_mem _ hx, hxy⟩

/-- Every member gives a result of the traversal. -/
theorem exists_mem_of_mapM (h : l.mapM f = .ok ys) {x : α} (hx : x ∈ l) :
    ∃ y ∈ ys, f x = .ok y := by
  induction l generalizing ys with
  | nil => cases hx
  | cons a l ih =>
    obtain ⟨b, bs, hb, hbs, rfl⟩ := mapM_cons_eq_ok h
    rcases List.mem_cons.1 hx with rfl | hx
    · exact ⟨b, List.mem_cons_self, hb⟩
    · obtain ⟨y, hy, hxy⟩ := ih hbs hx
      exact ⟨y, List.mem_cons_of_mem _ hy, hxy⟩

/-- The results of a traversal whose results are changed are changed results. -/
theorem mapM_map_eq_ok {γ : Type} {g : β → γ} {zs : List γ}
    (h : l.mapM (fun a => (f a).map g) = .ok zs) : ∃ ys, l.mapM f = .ok ys ∧ zs = ys.map g := by
  induction l generalizing zs with
  | nil => exact ⟨[], rfl, (Except.ok.inj h).symm⟩
  | cons a l ih =>
    obtain ⟨c, cs, hc, hcs, rfl⟩ := mapM_cons_eq_ok h
    obtain ⟨b, hb, rfl⟩ := map_eq_ok hc
    obtain ⟨bs, hbs, rfl⟩ := ih hcs
    refine ⟨b :: bs, ?_, rfl⟩
    rw [List.mapM_cons, hb, hbs]
    rfl

theorem mapM_cons_of_eq_ok {a : α} {b : β} {bs : List β} (h : f a = .ok b)
    (hs : l.mapM f = .ok bs) : (a :: l).mapM f = .ok (b :: bs) := by
  rw [List.mapM_cons, h, hs]
  rfl

theorem mapM_append_eq_ok {l' : List α} {ys' : List β} (h : l.mapM f = .ok ys)
    (h' : l'.mapM f = .ok ys') : (l ++ l').mapM f = .ok (ys ++ ys') := by
  rw [List.mapM_append, h, h']
  rfl

theorem length_of_mapM_eq_ok (h : l.mapM f = .ok ys) : ys.length = l.length := by
  induction l generalizing ys with
  | nil =>
    obtain rfl := Except.ok.inj h
    rfl
  | cons a l ih =>
    obtain ⟨b, bs, -, hbs, rfl⟩ := mapM_cons_eq_ok h
    rw [List.length_cons, List.length_cons, ih hbs]

/-- A traversal does not fail if no member fails. -/
theorem exists_mapM_eq_ok_iff : (∃ ys, l.mapM f = .ok ys) ↔ ∀ x ∈ l, ∃ y, f x = .ok y := by
  constructor
  · rintro ⟨ys, h⟩ x hx
    obtain ⟨y, -, hy⟩ := exists_mem_of_mapM h hx
    exact ⟨y, hy⟩
  · intro h
    induction l with
    | nil => exact ⟨[], rfl⟩
    | cons a l ih =>
      obtain ⟨b, hb⟩ := h a List.mem_cons_self
      obtain ⟨bs, hbs⟩ := ih fun x hx => h x (List.mem_cons_of_mem _ hx)
      exact ⟨b :: bs, mapM_cons_of_eq_ok hb hbs⟩

/-- The members of a traversal can be visited in any order. -/
theorem exists_mapM_perm {l' : List α} (perm : l'.Perm l) (h : l.mapM f = .ok ys) :
    ∃ ys', l'.mapM f = .ok ys' ∧ ys'.Perm ys := by
  induction perm generalizing ys with
  | nil => exact ⟨ys, h, .refl ys⟩
  | cons a perm ih =>
    obtain ⟨b, bs, hb, hbs, rfl⟩ := mapM_cons_eq_ok h
    obtain ⟨bs', hbs', perm'⟩ := ih hbs
    exact ⟨b :: bs', mapM_cons_of_eq_ok hb hbs', perm'.cons b⟩
  | swap a a' l =>
    obtain ⟨b, zs, hb, hzs, rfl⟩ := mapM_cons_eq_ok h
    obtain ⟨b', bs, hb', hbs, rfl⟩ := mapM_cons_eq_ok hzs
    exact ⟨b' :: b :: bs, mapM_cons_of_eq_ok hb' (mapM_cons_of_eq_ok hb hbs), .swap b b' bs⟩
  | trans first second ih ih' =>
    obtain ⟨zs, hzs, perm⟩ := ih' h
    obtain ⟨ys', hys', perm'⟩ := ih hzs
    exact ⟨ys', hys', perm'.trans perm⟩

/-- A traversal fails at the first member that fails. -/
theorem mapM_eq_error {e : ε} (h : l.mapM f = .error e) :
    ∃ before a later ys, l = before ++ a :: later ∧ before.mapM f = .ok ys ∧ f a = .error e := by
  induction l with
  | nil => cases h
  | cons a l ih =>
    rw [List.mapM_cons] at h
    cases first : f a with
    | error e' =>
      rw [first] at h
      obtain rfl : e' = e := Except.error.inj h
      exact ⟨[], a, l, [], rfl, rfl, first⟩
    | ok b =>
      rw [first] at h
      cases rest : l.mapM f with
      | ok bs =>
        rw [rest] at h
        cases h
      | error e' =>
        rw [rest] at h
        obtain rfl : e' = e := Except.error.inj h
        obtain ⟨before, a', later, ys, rfl, done, failed⟩ := ih rest
        exact ⟨a :: before, a', later, b :: ys, rfl, mapM_cons_of_eq_ok first done, failed⟩

/-- A traversal whose failures are known beforehand fails at the first one, if there is one. -/
theorem mapM_eq_of_ite {p : α → Bool} {e : α → ε} {g : α → β}
    (h : ∀ a, f a = if p a then .error (e a) else .ok (g a)) (l : List α) :
    l.mapM f = match l.find? p with
      | some a => .error (e a)
      | none => .ok (l.map g) := by
  induction l with
  | nil => rfl
  | cons a l ih =>
    rw [List.mapM_cons, h, List.find?_cons]
    cases p a with
    | true => rfl
    | false =>
      simp only [Bool.false_eq_true, if_false, ih, List.map_cons]
      cases l.find? p <;> rfl

theorem takeWhile_isOk_append (h : l.mapM f = .ok ys) (l' : List α) :
    (l ++ l').takeWhile (fun x => (f x).isOk) = l ++ l'.takeWhile fun x => (f x).isOk := by
  refine List.takeWhile_append_of_pos fun x hx => ?_
  obtain ⟨y, -, hy⟩ := exists_mem_of_mapM h hx
  rw [hy]
  rfl

theorem takeWhile_isOk_eq_self (h : l.mapM f = .ok ys) :
    l.takeWhile (fun x => (f x).isOk) = l := by
  have all := takeWhile_isOk_append h []
  rwa [List.append_nil, List.takeWhile_nil, List.append_nil] at all

/-- Traversals one after another are one traversal. -/
theorem mapM_flatMap_eq_ok {γ : Type} {g : γ → List α} {k : γ → Except ε (List β)} {cs : List γ}
    {yss : List (List β)} (h : cs.mapM k = .ok yss) (hk : ∀ c ∈ cs, k c = (g c).mapM f) :
    (cs.flatMap g).mapM f = .ok yss.flatten := by
  induction cs generalizing yss with
  | nil =>
    obtain rfl := Except.ok.inj h
    rfl
  | cons c cs ih =>
    obtain ⟨ys, rest, hys, hrest, rfl⟩ := mapM_cons_eq_ok h
    rw [hk c List.mem_cons_self] at hys
    exact mapM_append_eq_ok hys (ih hrest fun c hc => hk c (List.mem_cons_of_mem _ hc))

/-- Members may be left out before a traversal or their results after it. -/
theorem mapM_filter_eq_ok (p : α → Bool) (q : β → Bool) (h : l.mapM f = .ok ys)
    (same : ∀ a b, f a = .ok b → q b = p a) : (l.filter p).mapM f = .ok (ys.filter q) := by
  induction l generalizing ys with
  | nil =>
    obtain rfl := Except.ok.inj h
    rfl
  | cons a l ih =>
    obtain ⟨b, bs, hb, hbs, rfl⟩ := mapM_cons_eq_ok h
    rw [List.filter_cons, List.filter_cons, same a b hb]
    split
    · exact mapM_cons_of_eq_ok hb (ih hbs)
    · exact ih hbs

theorem mapM_distinctBy_eq_ok {κ κ' : Type} [DecidableEq κ] [DecidableEq κ'] (key : α → κ)
    (key' : β → κ') {code : κ → κ'} (h : l.mapM f = .ok ys)
    (inj : ∀ k k', code k = code k' → k = k') (same : ∀ a b, f a = .ok b → key' b = code (key a)) :
    (distinctBy key l).mapM f = .ok (distinctBy key' ys) := by
  induction l generalizing ys with
  | nil =>
    obtain rfl := Except.ok.inj h
    rfl
  | cons a l ih =>
    obtain ⟨b, bs, hb, hbs, rfl⟩ := mapM_cons_eq_ok h
    refine mapM_cons_of_eq_ok hb (mapM_filter_eq_ok _ _ (ih hbs) fun a' b' hb' => ?_)
    rw [same a b hb, same a' b' hb']
    exact decide_eq_decide.2 (not_congr ⟨inj _ _, congrArg code⟩)

end Traversal

end Modulize
