import Modulize.Text.CharClass

/-!
# Characters and pieces of texts

* Spaces and tabs are blanks (`isBlank_of_isSpaceOrTab`), and blanks are no identifier characters
  (`isIdent_eq_false_of_isBlank`).
* A text is taken apart behind a run of characters of a class in one way only
  (`append_inj_of_all`, `takeWhile_append_of_all`), and a character outside of the class comes
  behind the run (`append_eq_append_cons`).
* A trimmed text does not begin with a blank (`Text.head_trim`), and the characters that
  `Text.dropEndWhile` takes away belong to the class (`Text.exists_dropEndWhile`). A text stays as
  it is when it is stripped exactly if it neither begins nor ends with a character of the class
  (`Text.strip_eq_self_iff`).
* A text is cut where a character occurs first (`Text.cut?_append_cons`), and what it is cut at
  stood between the parts (`Text.append_of_cut?`).
* What occurs in a text is a part of it (`Text.contains_iff_infix`).
* A piece of a text is found again by its offsets (`Text.slice_append`, `Text.slice_bracket`), and
  neighbouring pieces make a piece (`Text.slice_append_slice`).
-/

namespace Modulize

/-! ## Classes of characters -/

/-- The code points of the blanks. -/
def blankCodes : List Nat :=
  List.range' 0x9 5 ++ List.range' 0x1c 5 ++ [0x85, 0xa0, 0x1680] ++ List.range' 0x2000 11 ++
    [0x2028, 0x2029, 0x202f, 0x205f, 0x3000]

theorem toNat_mem_blankCodes {a : Char} (h : isBlank a = true) : a.toNat ∈ blankCodes := by
  have space : a = ' ' → a.toNat = 0x20 := by
    rintro rfl
    rfl
  simp only [isBlank, Bool.or_eq_true, Bool.and_eq_true, beq_iff_eq, decide_eq_true_eq] at h
  replace h := h.imp_left (Or.imp_left (Or.imp_left space))
  simp only [blankCodes, List.mem_append, List.mem_range'_1, List.mem_cons, List.not_mem_nil]
  omega

/-- Blanks are no identifier characters. -/
theorem isIdent_eq_false_of_isBlank {a : Char} (h : isBlank a = true) : isIdent a = false := by
  have codes : ∀ n ∈ blankCodes, isIdent (Char.ofNat n) = false := by decide +kernel
  rw [← Char.ofNat_toNat a]
  exact codes _ (toNat_mem_blankCodes h)

/-- A blank is no character that is not one. -/
theorem ne_of_isBlank {a b : Char} (ha : isBlank a = true) (hb : isBlank b = false) : a ≠ b := by
  rintro rfl
  rw [ha] at hb
  cases hb

/-- Spaces and tabs are blanks. -/
theorem isBlank_of_isSpaceOrTab {a : Char} (h : isSpaceOrTab a = true) : isBlank a = true := by
  simp only [isSpaceOrTab, Bool.or_eq_true, beq_iff_eq] at h
  rcases h with rfl | rfl <;> rfl

theorem isBlank_of_gap {w : Text} (gap : w.all isSpaceOrTab = true) : w.all isBlank = true :=
  List.all_eq_true.2 fun a ha => isBlank_of_isSpaceOrTab (List.all_eq_true.1 gap a ha)

/-! ## Runs of characters -/

/-- The run of characters of a class at the beginning of a text that goes on with another one. -/
theorem takeWhile_append_of_all {p : Char → Bool} {t r : Text} (h : t.all p = true)
    (hr : ∀ a ∈ r.head?, p a = false) : (t ++ r).takeWhile p = t := by
  have behind : r.takeWhile p = [] := by
    cases r with
    | nil => rfl
    | cons a r => exact List.takeWhile_cons_of_neg (by simp [hr a rfl])
  rw [List.takeWhile_append_of_pos (List.all_eq_true.1 h), behind, List.append_nil]

/-- What follows that run. -/
theorem dropWhile_append_of_all {p : Char → Bool} {t r : Text} (h : t.all p = true)
    (hr : ∀ a ∈ r.head?, p a = false) : (t ++ r).dropWhile p = r := by
  rw [List.dropWhile_append_of_pos (List.all_eq_true.1 h)]
  cases r with
  | nil => rfl
  | cons a r => exact List.dropWhile_cons_of_neg (by simp [hr a rfl])

/-- A text that begins with characters of a class and goes on with another one can be taken apart
there in one way only. -/
theorem append_inj_of_all {p : Char → Bool} {s s' x x' : Text} (hs : s.all p = true)
    (hs' : s'.all p = true) (hx : ∀ a ∈ x.head?, p a = false) (hx' : ∀ a ∈ x'.head?, p a = false)
    (h : s ++ x = s' ++ x') : s = s' ∧ x = x' := by
  induction s generalizing s' with
  | nil =>
    cases s' with
    | nil => exact ⟨rfl, h⟩
    | cons a s' =>
      obtain rfl : x = a :: (s' ++ x') := h
      have ha := (Bool.and_eq_true_iff.1 hs').1
      rw [hx a rfl] at ha
      cases ha
  | cons a s ih =>
    obtain ⟨ha, hs⟩ := Bool.and_eq_true_iff.1 hs
    cases s' with
    | nil =>
      obtain rfl : a :: (s ++ x) = x' := h
      rw [hx' a rfl] at ha
      cases ha
    | cons b s' =>
      obtain ⟨rfl, e⟩ := List.cons.inj h
      obtain ⟨rfl, hx⟩ := ih hs (Bool.and_eq_true_iff.1 hs').2 e
      exact ⟨rfl, hx⟩

/-- A character outside of a class comes behind a run of characters of the class. -/
theorem append_eq_append_cons {p : Char → Bool} {s x y t : Text} {a : Char} (hs : s.all p = true)
    (ha : p a = false) (h : s ++ t = x ++ a :: y) : ∃ x', x = s ++ x' ∧ t = x' ++ a :: y := by
  induction s generalizing x with
  | nil => exact ⟨x, rfl, h⟩
  | cons b s ih =>
    obtain ⟨hb, hs⟩ := Bool.and_eq_true_iff.1 hs
    cases x with
    | nil =>
      obtain ⟨rfl, -⟩ := List.cons.inj h
      rw [ha] at hb
      cases hb
    | cons c x =>
      obtain ⟨rfl, e⟩ := List.cons.inj h
      obtain ⟨x', rfl, ht⟩ := ih hs e
      exact ⟨x', rfl, ht⟩

/-- A character outside of a class does not occur in a run of characters of the class. -/
theorem not_mem_of_all {p : Char → Bool} {t : Text} {a : Char} (h : t.all p = true)
    (ha : p a = false) : a ∉ t := fun mem => by
  simp [List.all_eq_true.1 h a mem] at ha

/-- A beginning of a run of characters ends with one of them. -/
theorem exists_concat_of_all {p : Char → Bool} {s x y : Text} (hs : s.all p = true) (hx : x ≠ [])
    (h : s = x ++ y) : ∃ x' b, x = x' ++ [b] ∧ p b = true := by
  refine ⟨x.dropLast, x.getLast hx, (List.dropLast_concat_getLast hx).symm, ?_⟩
  exact List.all_eq_true.1 hs _ (h ▸ List.mem_append_left _ (List.getLast_mem hx))

namespace Text

/-! ## Ends of texts -/

theorem exists_dropEndWhile (p : Char → Bool) (t : Text) :
    ∃ w, t = dropEndWhile p t ++ w ∧ w.all p = true := by
  refine ⟨(t.reverse.takeWhile p).reverse, ?_, ?_⟩
  · rw [dropEndWhile, ← List.reverse_append, List.takeWhile_append_dropWhile, List.reverse_reverse]
  · rw [List.all_reverse]
    exact List.all_takeWhile

theorem last_dropEndWhile {p : Char → Bool} {t r : Text} {a : Char}
    (h : dropEndWhile p t = r ++ [a]) : p a = false := by
  have head := congrArg List.reverse h
  rw [dropEndWhile, List.reverse_reverse, List.reverse_append] at head
  have := List.head?_dropWhile_not p t.reverse
  rw [head] at this
  simpa using this

theorem dropEndWhile_concat {p : Char → Bool} {t : Text} {a : Char} (h : p a = false) :
    dropEndWhile p (t ++ [a]) = t ++ [a] := by
  simp [dropEndWhile, h]

/-- Nothing is taken away between two characters outside of the class. -/
theorem dropEndWhile_dropWhile_eq_self {p : Char → Bool} {t : Text}
    (first : ∀ a ∈ t.head?, p a = false) (last : ∀ a ∈ t.getLast?, p a = false) :
    dropEndWhile p (t.dropWhile p) = t := by
  have start : t.dropWhile p = t := by
    cases t with
    | nil => rfl
    | cons a t => exact List.dropWhile_cons_of_neg (by simp [first a rfl])
  rw [start]
  by_cases hne : t = []
  · subst hne
    rfl
  · rw [← List.dropLast_concat_getLast hne]
    exact dropEndWhile_concat (last _ (List.getLast?_eq_some_getLast hne))

theorem head_dropEndWhile_dropWhile {p : Char → Bool} {t r : Text} {a : Char}
    (h : dropEndWhile p (t.dropWhile p) = a :: r) : p a = false := by
  obtain ⟨w, hw, -⟩ := exists_dropEndWhile p (t.dropWhile p)
  have first := List.head?_dropWhile_not p t
  rw [hw, h] at first
  simpa using first

/-- A text that has been trimmed does not begin with a blank. -/
theorem head_trim {t r : Text} {a : Char} (h : t.trim = a :: r) : isBlank a = false :=
  head_dropEndWhile_dropWhile h

/-! ## Stripped texts -/

/-- Without the characters of a class at both ends. -/
def strip (p : Char → Bool) (t : Text) : Text := dropEndWhile p (t.dropWhile p)

/-- The text neither begins nor ends with a character of a class. -/
def IsTight (p : Char → Bool) (t : Text) : Prop :=
  (∀ a ∈ t.head?, p a = false) ∧ ∀ a ∈ t.getLast?, p a = false

section

variable {p q : Char → Bool} {t : Text}

theorem head?_append_left {s : Text} (h : s ≠ []) (t : Text) : (s ++ t).head? = s.head? := by
  obtain ⟨a, r, rfl⟩ := List.exists_cons_of_ne_nil h
  rfl

theorem mem_getLast?_append {s t : Text} {a : Char} (h : a ∈ t.getLast?) :
    a ∈ (s ++ t).getLast? := by
  rw [Option.mem_def] at h ⊢
  rw [List.getLast?_append, h, Option.some_or]

theorem joinWith_concat {glue : Text} {ts : List Text} (h : ts ≠ []) (t : Text) :
    joinWith glue (ts ++ [t]) = joinWith glue ts ++ (glue ++ t) := by
  induction ts with
  | nil => exact absurd rfl h
  | cons s ts ih =>
    cases ts with
    | nil => simp [joinWith]
    | cons s' ts => simpa [joinWith] using ih (by simp)

theorem getLast?_append_right (s : Text) {t : Text} (h : t ≠ []) :
    (s ++ t).getLast? = t.getLast? := by
  rw [List.getLast?_append, List.getLast?_eq_some_getLast h, Option.some_or]

theorem strip_sublist (p : Char → Bool) (t : Text) : (strip p t).Sublist t := by
  obtain ⟨w, hw, -⟩ := exists_dropEndWhile p (t.dropWhile p)
  have start : (strip p t).Sublist (t.dropWhile p) := by
    rw [hw]
    exact List.sublist_append_left _ w
  exact start.trans (List.dropWhile_sublist p)

theorem exists_strip (p : Char → Bool) (t : Text) :
    ∃ w w', t = w ++ (strip p t ++ w') ∧ w.all p = true ∧ w'.all p = true := by
  obtain ⟨w', split, behind⟩ := exists_dropEndWhile p (t.dropWhile p)
  refine ⟨t.takeWhile p, w', ?_, List.all_takeWhile, behind⟩
  rw [strip, ← split, List.takeWhile_append_dropWhile]

theorem isTight_strip (p : Char → Bool) (t : Text) : IsTight p (strip p t) := by
  constructor
  · intro a ha
    obtain ⟨r, e⟩ := List.head?_eq_some_iff.1 ha
    exact head_dropEndWhile_dropWhile e
  · intro a ha
    obtain ⟨r, e⟩ := List.getLast?_eq_some_iff.1 ha
    exact last_dropEndWhile e

/-- What is stripped off is the characters of the class around a text that has none at its ends. -/
theorem strip_append {w w' : Text} (hw : w.all p = true) (hw' : w'.all p = true)
    (h : IsTight p t) : strip p (w ++ (t ++ w')) = t := by
  rw [strip, List.dropWhile_append_of_pos (by simpa using hw)]
  by_cases empty : t = []
  · subst empty
    rw [List.nil_append, ← List.append_nil w', List.dropWhile_append_of_pos (by simpa using hw')]
    rfl
  · have head (a : Char) (ha : (t ++ w').head? = some a) : p a = false :=
      h.1 a (head?_append_left empty w' ▸ ha)
    have start : (t ++ w').dropWhile p = t ++ w' := by
      obtain ⟨a, r, e⟩ := List.exists_cons_of_ne_nil (List.append_ne_nil_of_left_ne_nil empty w')
      rw [e, List.dropWhile_cons_of_neg (by simp [head a (by rw [e]; rfl)])]
    rw [start, dropEndWhile, List.reverse_append,
      List.dropWhile_append_of_pos (by simpa using hw')]
    obtain ⟨r, a, rfl⟩ := (List.eq_nil_or_concat t).resolve_left empty
    have last : p a = false := h.2 a (by simp)
    simp [last]

/-- **Stripping changes a text exactly if it begins or ends with a character of the class.** -/
theorem strip_eq_self_iff : strip p t = t ↔ IsTight p t :=
  ⟨fun h => h ▸ isTight_strip p t, fun h => dropEndWhile_dropWhile_eq_self h.1 h.2⟩

instance (p : Char → Bool) (t : Text) : Decidable (IsTight p t) :=
  decidable_of_iff _ strip_eq_self_iff

theorem IsTight.mono (h : IsTight p t) (hq : ∀ a, q a = true → p a = true) : IsTight q t := by
  have other {a : Char} (ha : p a = false) : q a = false := by
    cases e : q a with
    | false => rfl
    | true => rw [hq a e] at ha; cases ha
  exact ⟨fun a ha => other (h.1 a ha), fun a ha => other (h.2 a ha)⟩

end

/-- A text without a mark lies on one side of the mark. -/
theorem infix_of_append_cons {w u v : Text} {c : Char} (hc : c ∉ w) (h : w <:+: u ++ c :: v) :
    w <:+: u ∨ w <:+: v := by
  obtain ⟨x, y, e⟩ := h
  have others : w.all (· != c) = true :=
    List.all_eq_true.2 fun a ha => bne_iff_ne.2 (ne_of_mem_of_not_mem ha hc)
  have mark : (c != c) = false := bne_self_eq_false c
  rw [List.append_assoc] at e
  rcases List.append_eq_append_iff.1 e with ⟨z, rfl, tail⟩ | ⟨z, rfl, tail⟩
  · obtain ⟨z', rfl, -⟩ := append_eq_append_cons others mark tail
    exact Or.inl ⟨x, z', by simp⟩
  · cases z with
    | nil =>
      obtain ⟨z', begins, -⟩ := append_eq_append_cons (x := []) others mark tail.symm
      obtain ⟨rfl, -⟩ := List.append_eq_nil_iff.1 begins.symm
      exact Or.inl List.nil_infix
    | cons b z =>
      obtain ⟨rfl, rfl⟩ := List.cons.inj tail
      exact Or.inr ⟨z, y, by simp⟩

/-! ## Joined pieces -/

theorem not_mem_joinWith {glue : Text} {pieces : List Text} {a : Char} (hg : a ∉ glue)
    (h : ∀ piece ∈ pieces, a ∉ piece) : a ∉ joinWith glue pieces := by
  induction pieces with
  | nil => exact List.not_mem_nil
  | cons piece pieces ih =>
    obtain ⟨first, rest⟩ := List.forall_mem_cons.1 h
    cases pieces with
    | nil => exact first
    | cons piece' pieces => simp [joinWith, first, hg, ih rest]

theorem infix_joinWith (glue : Text) {t : Text} {ts : List Text} (h : t ∈ ts) :
    t <:+: joinWith glue ts := by
  induction ts with
  | nil => cases h
  | cons s ts ih =>
    cases ts with
    | nil =>
      obtain rfl := List.mem_singleton.1 h
      exact List.infix_refl t
    | cons s' ts =>
      rcases List.mem_cons.1 h with rfl | later
      · exact ⟨[], glue ++ joinWith glue (s' :: ts), by simp [joinWith]⟩
      · exact (ih later).trans (List.suffix_append _ _).isInfix

theorem joinWith_concat_eq_flatMap (ss : List Text) (y : Text) :
    joinWith ['\n'] (ss ++ [y]) = ss.flatMap (· ++ ['\n']) ++ y := by
  induction ss with
  | nil => rfl
  | cons s ss ih =>
    have more : ss ++ [y] ≠ [] := by simp
    rw [List.cons_append, joinWith.eq_3 _ _ _ more, ih, List.flatMap_cons]
    simp only [List.append_assoc]

/-- There are not many more pieces than characters when they are joined with something between
them. -/
theorem length_le_joinWith {glue : Text} (h : glue ≠ []) (pieces : List Text) :
    pieces.length ≤ (joinWith glue pieces).length + 1 := by
  have long := List.length_pos_iff.2 h
  induction pieces with
  | nil => exact Nat.zero_le _
  | cons piece pieces ih =>
    cases pieces with
    | nil => exact Nat.le_add_left _ _
    | cons piece' pieces =>
      have split : joinWith glue (piece :: piece' :: pieces) =
          piece ++ glue ++ joinWith glue (piece' :: pieces) := rfl
      rw [split, List.length_append, List.length_append, List.length_cons]
      omega

/-! ## Cutting -/

theorem append_of_cut? {s t a b : Text} (h : cut? s t = some (a, b)) : t = a ++ (s ++ b) := by
  induction t generalizing a with
  | nil =>
    unfold cut? at h
    split at h
    · rename_i empty
      obtain ⟨rfl, rfl⟩ := Prod.mk.inj (Option.some.inj h)
      simpa using empty
    · cases h
  | cons c t ih =>
    unfold cut? at h
    split at h
    · rename_i here
      obtain ⟨rfl, rfl⟩ := Prod.mk.inj (Option.some.inj h)
      obtain ⟨u, hu⟩ := List.isPrefixOf_iff_prefix.1 here
      rw [← hu, List.drop_left]
      rfl
    · obtain ⟨⟨a', b'⟩, later, e⟩ := Option.map_eq_some_iff.1 h
      obtain ⟨rfl, rfl⟩ := Prod.mk.inj e
      exact congrArg (c :: ·) (ih later)

theorem startsWith_iff_prefix {x t : Text} : startsWith x t = true ↔ x <+: t :=
  List.isPrefixOf_iff_prefix

theorem contains_iff_infix {x t : Text} : contains x t = true ↔ x <:+: t := by
  induction t with
  | nil => rw [contains, List.isEmpty_iff, List.infix_nil]
  | cons c t ih => rw [contains, Bool.or_eq_true, startsWith_iff_prefix, ih, List.infix_cons_iff]

theorem startsWith_singleton (mark a : Char) (t : Text) :
    startsWith [mark] (a :: t) = (mark == a) := by
  simp [startsWith, List.isPrefixOf]

/-- A text is cut at the first occurrence of a character. -/
theorem cut?_append_cons {mark : Char} {s : Text} (h : mark ∉ s) (t : Text) :
    cut? [mark] (s ++ mark :: t) = some (s, t) := by
  induction s with
  | nil => simp [cut?, startsWith_singleton]
  | cons a s ih =>
    obtain ⟨ha, hs⟩ := not_or.1 (mt List.mem_cons.2 h)
    simp [cut?, startsWith_singleton, ha, ih hs]

theorem cut?_eq_none {mark : Char} {s : Text} (h : mark ∉ s) : cut? [mark] s = none := by
  induction s with
  | nil => rfl
  | cons a s ih =>
    obtain ⟨ha, hs⟩ := not_or.1 (mt List.mem_cons.2 h)
    simp [cut?, startsWith_singleton, ha, ih hs]

/-! ## Pieces -/

theorem slice_append (u x r : Text) : (u ++ (x ++ r)).slice u.length (u.length + x.length) = x := by
  rw [Text.slice, List.drop_left, Nat.add_sub_cancel_left, List.take_left]

/-- What stands in a bracket, given the offset of the bracket and the offset behind the one that
closes it. -/
theorem slice_bracket (u x r : Text) (a : Char) :
    (u ++ a :: (x ++ r)).slice (u.length + 1) (u.length + 1 + x.length + 1 - 1) = x := by
  have place : u.length + 1 = (u ++ [a]).length := by simp
  rw [Nat.add_sub_cancel, place, List.append_cons, slice_append]

theorem slice_append_slice {t : Text} {i j k : Nat} (hij : i ≤ j) (hjk : j ≤ k) :
    t.slice i j ++ t.slice j k = t.slice i k := by
  obtain ⟨a, rfl⟩ := Nat.exists_eq_add_of_le hij
  obtain ⟨b, rfl⟩ := Nat.exists_eq_add_of_le hjk
  have e₁ : i + a - i = a := by omega
  have e₂ : i + a + b - (i + a) = b := by omega
  have e₃ : i + a + b - i = a + b := by omega
  rw [slice, slice, slice, e₁, e₂, e₃, List.take_add, List.drop_drop]

theorem length_slice {t : Text} {i j : Nat} (h : j ≤ t.length) : (t.slice i j).length = j - i := by
  rw [slice, List.length_take, List.length_drop]
  omega

theorem drop_slice (t : Text) (i j k : Nat) : (t.slice i j).drop k = t.slice (i + k) j := by
  rw [slice, slice, List.drop_take, List.drop_drop]
  congr 1
  omega

theorem take_slice (t : Text) {i j k : Nat} (h : i + k ≤ j) :
    (t.slice i j).take k = t.slice i (i + k) := by
  rw [slice, slice, List.take_take]
  congr 1
  omega

end Text

end Modulize
