import Modulize.Proofs.Collections
import Modulize.Proofs.Text

/-!
# Letter case, done twice

The capital form of a capital form is the form itself, and so it is with small forms
(`Text.toCapitals_toCapitals`, `Text.toSmall_toSmall`); and no form contains a blank, unless it is
the form of that blank (`isCapitalOf_of_mem_capital`, `isSmallOf_of_mem_small`). Both are read off
the tables: no shift leads to a code point that has another form itself, or to a blank. Sets of code
points are compared as numbers with a bit for each code point (`LetterCase.bits`), which is
computed at once.
-/

namespace Modulize

namespace LetterCase

/-! ## Sets of code points -/

/-- The code points of a run. -/
def Run.members (r : Run) : List Nat :=
  (List.range ((r.last - r.first) / r.step + 1)).map fun k => r.first + k * r.step

theorem Run.mem_members {r : Run} {n : Nat} (h : r.has n = true) : n ∈ r.members := by
  simp only [has, Bool.and_eq_true, decide_eq_true_eq, beq_iff_eq] at h
  obtain ⟨⟨lo, hi⟩, step⟩ := h
  refine List.mem_map.2 ⟨(n - r.first) / r.step, List.mem_range.2 ?_, ?_⟩
  · exact Nat.lt_succ_of_le (Nat.div_le_div_right (by omega))
  · rw [Nat.div_mul_cancel (Nat.dvd_of_mod_eq_zero step)]
    omega

theorem Run.mem_members_of_le {first last n : Nat} (lo : first ≤ n) (hi : n ≤ last) :
    n ∈ Run.members ⟨first, last, 1⟩ :=
  mem_members (by simp [has, lo, hi, Nat.mod_one])

/-- A set of code points as a number: the bits at the code points are set. -/
def bits (ns : List Nat) : Nat := ns.foldr (fun n m => 1 <<< n ||| m) 0

/-- The union of sets of code points as a number. -/
def unionBits (sets : List (List Nat)) : Nat := sets.foldr (fun ns m => bits ns ||| m) 0

theorem testBit_bits {ns : List Nat} {n : Nat} (h : n ∈ ns) : (bits ns).testBit n = true := by
  induction ns with
  | nil => cases h
  | cons n' ns ih =>
    rw [bits, List.foldr_cons, Nat.testBit_or, Bool.or_eq_true]
    rcases List.mem_cons.1 h with rfl | h
    · left
      simp [Nat.one_shiftLeft]
    · exact Or.inr (ih h)

theorem testBit_unionBits {sets : List (List Nat)} {ns : List Nat} (hs : ns ∈ sets) {n : Nat}
    (h : n ∈ ns) : (unionBits sets).testBit n = true := by
  induction sets with
  | nil => cases hs
  | cons ns' sets ih =>
    rw [unionBits, List.foldr_cons, Nat.testBit_or, Bool.or_eq_true]
    rcases List.mem_cons.1 hs with rfl | hs
    · exact Or.inl (testBit_bits h)
    · exact Or.inr (ih hs)

/-- Sets without a common bit have no common member. -/
theorem not_mem_of_unionBits {sets sets' : List (List Nat)}
    (apart : unionBits sets &&& unionBits sets' = 0) {n : Nat} (h : ∃ ns ∈ sets', n ∈ ns) :
    ∀ ns ∈ sets, n ∉ ns := by
  intro ns hs mem
  obtain ⟨ns', hs', mem'⟩ := h
  have both := Nat.testBit_and (unionBits sets) (unionBits sets') n
  rw [testBit_unionBits hs mem, testBit_unionBits hs' mem', apart, Nat.zero_testBit] at both
  cases both

/-! ## Tables of shifts -/

/-- The code points that a table is about. -/
def sources (shifts : List (Run × Int)) : List (List Nat) := shifts.map fun e => e.1.members

/-- The code points that a table leads to. -/
def targets (shifts : List (Run × Int)) : List (List Nat) :=
  shifts.map fun e => e.1.members.map fun n : Nat => (n + e.2).toNat

theorem shifted?_eq_none {n : Nat} {shifts : List (Run × Int)}
    (h : ∀ ns ∈ sources shifts, n ∉ ns) : shifted? n shifts = none := by
  rw [shifted?, Option.map_eq_none_iff, List.find?_eq_none]
  exact fun e he has => h _ (List.mem_map_of_mem he) (Run.mem_members has)

theorem mem_targets {n m : Nat} {shifts : List (Run × Int)} (h : shifted? n shifts = some m) :
    ∃ ns ∈ targets shifts, m ∈ ns := by
  obtain ⟨e, he, rfl⟩ := Option.map_eq_some_iff.1 h
  have has := List.find?_some he
  exact ⟨_, List.mem_map_of_mem (List.mem_of_find?_eq_some he),
    List.mem_map_of_mem (Run.mem_members has)⟩

/-- The characters that have another capital form. -/
def changedByCapital : List (List Nat) :=
  Run.members ⟨0x61, 0x7a, 1⟩ :: longCapitals.map Prod.fst :: sources capitalShifts

/-- The characters that have another small form. -/
def changedBySmall : List (List Nat) :=
  Run.members ⟨0x41, 0x5a, 1⟩ :: [0x130] :: sources smallShifts

theorem capitals_apart : unionBits (blankCodes :: changedByCapital) &&&
    unionBits (targets capitalShifts ++ longCapitals.map Prod.snd) = 0 := by decide +kernel

theorem smalls_apart :
    unionBits (blankCodes :: changedBySmall) &&& unionBits (targets smallShifts) = 0 := by
  decide +kernel

end LetterCase

open LetterCase

/-! ## Forms of characters -/

/-- A number that is no code point makes the character zero. -/
theorem toNat_ofNat (n : Nat) : (Char.ofNat n).toNat = n ∨ Char.ofNat n = Char.ofNat 0 := by
  by_cases h : n.isValidChar
  · left
    rw [Char.ofNat, dif_pos h]
    rfl
  · right
    rw [Char.ofNat, dif_neg h]
    rfl

theorem isBlank_ofNat {n : Nat} (h : n ∉ blankCodes) : isBlank (Char.ofNat n) = false := by
  rcases toNat_ofNat n with code | zero
  · cases e : isBlank (Char.ofNat n) with
    | false => rfl
    | true => exact absurd (code ▸ toNat_mem_blankCodes e) h
  · rw [zero]
    decide

theorem capital_ne_nil (c : Char) : capital c ≠ [] := by
  have forms : ∀ e ∈ longCapitals, e.2 ≠ [] := by decide
  unfold capital
  dsimp only
  split
  · exact List.cons_ne_nil _ _
  · split
    · rename_i found
      simpa using forms _ (mem_of_lookup? found)
    · exact List.cons_ne_nil _ _

theorem small_ne_nil (c : Char) : small c ≠ [] := by
  unfold small
  dsimp only
  split
  · exact List.cons_ne_nil _ _
  · split <;> exact List.cons_ne_nil _ _

/-- A character that is in none of the tables is its own capital form. -/
theorem capital_eq_self {c : Char} (h : ∀ ns ∈ changedByCapital, c.toNat ∉ ns) :
    capital c = [c] := by
  obtain ⟨letter, long, shifts⟩ := List.forall_mem_cons.1 h |>.imp_right List.forall_mem_cons.1
  by_cases ascii : c.toNat < 0x80
  · have same : c.toUpper = c :=
      dif_neg fun h => letter (Run.mem_members_of_le h.1 h.2)
    simp only [capital, ascii, if_true, same]
  · simp only [capital, ascii, if_false, lookup?_eq_none long, shifted?_eq_none shifts,
      Option.getD_none, Char.ofNat_toNat]

theorem capital_ofNat {n : Nat} (h : ∀ ns ∈ changedByCapital, n ∉ ns) :
    capital (Char.ofNat n) = [Char.ofNat n] := by
  rcases toNat_ofNat n with code | zero
  · rw [← code] at h
    exact capital_eq_self h
  · rw [zero]
    decide

/-- A character that is in none of the tables is its own small form. -/
theorem small_eq_self {c : Char} (h : ∀ ns ∈ changedBySmall, c.toNat ∉ ns) : small c = [c] := by
  obtain ⟨letter, dotted, shifts⟩ := List.forall_mem_cons.1 h |>.imp_right List.forall_mem_cons.1
  by_cases ascii : c.toNat < 0x80
  · have same : c.toLower = c :=
      dif_neg fun h => letter (Run.mem_members_of_le h.1 h.2)
    simp only [small, ascii, if_true, same]
  · have other : (c.toNat == 0x130) = false := by simpa using dotted
    simp only [small, ascii, if_false, other, Bool.false_eq_true, shifted?_eq_none shifts,
      Option.getD_none, Char.ofNat_toNat]

theorem small_ofNat {n : Nat} (h : ∀ ns ∈ changedBySmall, n ∉ ns) :
    small (Char.ofNat n) = [Char.ofNat n] := by
  rcases toNat_ofNat n with code | zero
  · rw [← code] at h
    exact small_eq_self h
  · rw [zero]
    decide

/-- Beyond ASCII a capital form is the character itself, or it is where a table leads to. -/
theorem capital_eq (c : Char) (h : ¬c.toNat < 0x80) : capital c = [c] ∨
    ∃ ms : List Nat, capital c = ms.map Char.ofNat ∧
      ∀ m ∈ ms, ∃ ns ∈ targets capitalShifts ++ longCapitals.map Prod.snd, m ∈ ns := by
  simp only [capital, h, if_false]
  cases long : lookup? c.toNat longCapitals with
  | some ms =>
    have listed : ms ∈ longCapitals.map Prod.snd := List.mem_map_of_mem (mem_of_lookup? long)
    exact Or.inr ⟨ms, rfl, fun m hm => ⟨ms, List.mem_append_right _ listed, hm⟩⟩
  | none =>
    cases shift : shifted? c.toNat capitalShifts with
    | none => exact Or.inl (congrArg (fun a => [a]) (Char.ofNat_toNat c))
    | some m =>
      obtain ⟨ns, hs, hm⟩ := mem_targets shift
      refine Or.inr ⟨[m], rfl, fun m' hm' => ?_⟩
      obtain rfl := List.mem_singleton.1 hm'
      exact ⟨ns, List.mem_append_left _ hs, hm⟩

/-- Beyond ASCII a small form is the character itself, or it is where a table leads to, but for a
capital with a dot above. -/
theorem small_eq (c : Char) (h : ¬c.toNat < 0x80) (dotted : c.toNat ≠ 0x130) : small c = [c] ∨
    ∃ m, small c = [Char.ofNat m] ∧ ∃ ns ∈ targets smallShifts, m ∈ ns := by
  have other : (c.toNat == 0x130) = false := by simpa using dotted
  simp only [small, h, if_false, other, Bool.false_eq_true]
  cases shift : shifted? c.toNat smallShifts with
  | none => exact Or.inl (congrArg (fun a => [a]) (Char.ofNat_toNat c))
  | some m => exact Or.inr ⟨m, rfl, mem_targets shift⟩

/-- The character is its own capital form, and no blank unless it is the given one. -/
def IsCapitalOf (x c : Char) : Prop := capital x = [x] ∧ (isBlank x = true → x = c)

/-- The character is its own small form, and no blank unless it is the given one. -/
def IsSmallOf (x c : Char) : Prop := small x = [x] ∧ (isBlank x = true → x = c)

instance (x c : Char) : Decidable (IsCapitalOf x c) :=
  inferInstanceAs (Decidable (capital x = [x] ∧ (isBlank x = true → x = c)))

instance (x c : Char) : Decidable (IsSmallOf x c) :=
  inferInstanceAs (Decidable (small x = [x] ∧ (isBlank x = true → x = c)))

theorem ascii_forms : ∀ n < 0x80, IsCapitalOf (Char.ofNat n).toUpper (Char.ofNat n) ∧
    IsSmallOf (Char.ofNat n).toLower (Char.ofNat n) := by
  decide +kernel

/-- The forms that are not read off the table: those of a capital with a dot above, and the form
of a letter at the end of a word. -/
theorem special_forms : IsSmallOf 'i' (Char.ofNat 0x130) ∧
    IsSmallOf (Char.ofNat 0x307) (Char.ofNat 0x130) ∧ IsSmallOf 'ς' 'Σ' ∧ small 'Σ' ≠ ['Σ'] := by
  decide +kernel

/-- **A capital form has no other capital form**, and is no blank unless it is the form of one. -/
theorem isCapitalOf_of_mem_capital {c x : Char} (h : x ∈ capital c) : IsCapitalOf x c := by
  by_cases ascii : c.toNat < 0x80
  · have form := (ascii_forms _ ascii).1
    rw [Char.ofNat_toNat] at form
    rw [capital, if_pos ascii] at h
    obtain rfl := List.mem_singleton.1 h
    exact form
  · rcases capital_eq c ascii with self | ⟨ms, form, away⟩
    · rw [self] at h
      obtain rfl := List.mem_singleton.1 h
      exact ⟨self, fun _ => rfl⟩
    · rw [form] at h
      obtain ⟨m, hm, rfl⟩ := List.mem_map.1 h
      obtain ⟨blank, other⟩ :=
        List.forall_mem_cons.1 (not_mem_of_unionBits capitals_apart (away m hm))
      exact ⟨capital_ofNat other, fun e => by simp [isBlank_ofNat blank] at e⟩

/-- **A small form has no other small form**, and is no blank unless it is the form of one. -/
theorem isSmallOf_of_mem_small {c x : Char} (h : x ∈ small c) : IsSmallOf x c := by
  by_cases ascii : c.toNat < 0x80
  · have form := (ascii_forms _ ascii).2
    rw [Char.ofNat_toNat] at form
    rw [small, if_pos ascii] at h
    obtain rfl := List.mem_singleton.1 h
    exact form
  · by_cases dotted : c.toNat = 0x130
    · obtain rfl : c = Char.ofNat 0x130 := by rw [← dotted, Char.ofNat_toNat]
      rcases List.mem_cons.1 h with rfl | h
      · exact special_forms.1
      · obtain rfl := List.mem_singleton.1 h
        exact special_forms.2.1
    · rcases small_eq c ascii dotted with self | ⟨m, form, away⟩
      · rw [self] at h
        obtain rfl := List.mem_singleton.1 h
        exact ⟨self, fun _ => rfl⟩
      · rw [form] at h
        obtain rfl := List.mem_singleton.1 h
        obtain ⟨blank, other⟩ := List.forall_mem_cons.1 (not_mem_of_unionBits smalls_apart away)
        exact ⟨small_ofNat other, fun e => by simp [isBlank_ofNat blank] at e⟩

/-! ## Forms of texts -/

namespace Text

theorem capital_of_mem_toCapitals {t : Text} {x : Char} (h : x ∈ t.toCapitals) :
    capital x = [x] := by
  obtain ⟨c, -, hx⟩ := List.mem_flatMap.1 h
  exact (isCapitalOf_of_mem_capital hx).1

theorem toCapitals_eq_self {t : Text} (h : ∀ x ∈ t, capital x = [x]) : t.toCapitals = t := by
  induction t with
  | nil => rfl
  | cons c t ih =>
    obtain ⟨first, rest⟩ := List.forall_mem_cons.1 h
    rw [toCapitals, List.flatMap_cons, first, List.singleton_append]
    exact congrArg (c :: ·) (ih rest)

/-- **Capitals stay capitals.** -/
theorem toCapitals_toCapitals (t : Text) : t.toCapitals.toCapitals = t.toCapitals :=
  toCapitals_eq_self fun _ => capital_of_mem_toCapitals

theorem smallBetween_ne_nil (before : Text) (c : Char) (after : Text) :
    smallBetween before c after ≠ [] := by
  unfold smallBetween
  split
  · exact List.cons_ne_nil _ _
  · exact small_ne_nil c

theorem isSmallOf_of_mem_smallBetween {before after : Text} {c x : Char}
    (h : x ∈ smallBetween before c after) : IsSmallOf x c := by
  unfold smallBetween at h
  split at h
  · rename_i sigma
    obtain rfl := List.mem_singleton.1 h
    exact sigma.1 ▸ special_forms.2.2.1
  · exact isSmallOf_of_mem_small h

theorem small_of_mem_toSmallBehind {before t : Text} {x : Char} (h : x ∈ toSmallBehind before t) :
    small x = [x] := by
  induction t generalizing before with
  | nil => cases h
  | cons c t ih =>
    rcases List.mem_append.1 h with h | h
    · exact (isSmallOf_of_mem_smallBetween h).1
    · exact ih h

theorem toSmallBehind_eq_self {t : Text} (h : ∀ x ∈ t, small x = [x]) (before : Text) :
    toSmallBehind before t = t := by
  induction t generalizing before with
  | nil => rfl
  | cons c t ih =>
    obtain ⟨first, rest⟩ := List.forall_mem_cons.1 h
    have other : c ≠ 'Σ' := by
      rintro rfl
      exact special_forms.2.2.2 first
    rw [toSmallBehind, ih rest, smallBetween, if_neg fun e => other e.1, first]
    rfl

/-- **Small letters stay small.** -/
theorem toSmall_toSmall (t : Text) : t.toSmall.toSmall = t.toSmall :=
  toSmallBehind_eq_self (fun _ => small_of_mem_toSmallBehind) []

end Text

end Modulize
