import Modulize.Script.Extent

/-!
# Counting braces

A plain count of braces (`bracedEnd?`) and the scan for the end of a bracket group (`groupEnd`) keep
the same depth as long as nothing in the text has a meaning for the scan only: no literal, comment
or regular expression can begin, and braces are the only brackets (`IsBraceText`). Then both come
to the same end, which is where the braces behind the opening one are first balanced (`ClosesAt`);
where they never are, neither finds an end (`bracedEnd?_and_groupEnd_of_isBraceText`).
-/

namespace Modulize.Script

/-- The character has no other meaning for a scan than a brace has. -/
def isBraceChar (c : Char) : Bool :=
  !isQuote c && c != '/' && c != '(' && c != ')' && c != '[' && c != ']'

/-- No quote, slash, parenthesis or square bracket stands in the text. -/
def IsBraceText (t : Text) : Prop := ∀ c ∈ t, isBraceChar c = true

/-- By how many the opening braces of a text exceed the closing ones. -/
def braceBalance (t : Text) : Int := (t.count '{' : Int) - t.count '}'

/-- From `start` to `stop` as many braces open as close, and so for no shorter part from `start` on
but the empty one. -/
structure ClosesAt (t : Text) (start stop : Nat) : Prop where
  lt : start < stop
  le : stop ≤ t.length
  balanced : (t.slice start stop).count '{' = (t.slice start stop).count '}'
  shortest : ∀ m, start < m → m < stop →
    (t.slice start m).count '{' ≠ (t.slice start m).count '}'

variable {t r : Text} {start e : Nat} {depth : Int}

/-! ## The scan counts braces -/

theorem step_of_isBraceChar {c : Char} (h : isBraceChar c = true) (before after : Text) :
    Context.code.step before c after = ⟨.code, false, true⟩ := by
  simp only [isBraceChar, Bool.and_eq_true, Bool.not_eq_true', bne_iff_ne] at h
  obtain ⟨⟨⟨⟨⟨quote, slash⟩, -⟩, -⟩, -⟩, -⟩ := h
  simp [Context.step, slash, quote]

theorem isOpening_of_isBraceChar {c : Char} (h : isBraceChar c = true) :
    isOpening c = decide (c = '{') := by
  simp only [isBraceChar, Bool.and_eq_true, bne_iff_ne] at h
  obtain ⟨⟨⟨⟨-, round⟩, -⟩, square⟩, -⟩ := h
  rw [isOpening, beq_false_of_ne round, beq_false_of_ne square]
  rfl

theorem isClosing_of_isBraceChar {c : Char} (h : isBraceChar c = true) :
    isClosing c = decide (c = '}') := by
  simp only [isBraceChar, Bool.and_eq_true, bne_iff_ne] at h
  obtain ⟨⟨⟨-, round⟩, -⟩, square⟩ := h
  rw [isClosing, beq_false_of_ne round, beq_false_of_ne square]
  rfl

/-- **Both counts keep the same depth**, by induction along the text. -/
theorem groupEndAmong_codeCharsFrom (plain : IsBraceText r) (depth : Int) (before : Text)
    (offset : Nat) :
    groupEndAmong depth (codeCharsFrom .code false before offset r) =
      (bracedLength depth r).map (offset + ·) := by
  induction r generalizing depth before offset with
  | nil => rfl
  | cons c r ih =>
    obtain ⟨here, plain⟩ := List.forall_mem_cons.1 plain
    -- the ends of what follows are counted from the next character
    have shift (l : Option Nat) : l.map (offset + 1 + ·) = (l.map (· + 1)).map (offset + ·) := by
      rw [Option.map_map]
      congr 1
      funext n
      exact Nat.add_right_comm offset 1 n |>.trans (Nat.add_assoc offset n 1)
    rw [codeCharsFrom, step_of_isBraceChar here, if_pos rfl, groupEndAmong,
      isOpening_of_isBraceChar here, isClosing_of_isBraceChar here, bracedLength]
    simp only [ih plain, shift, decide_eq_true_eq, apply_ite (Option.map (offset + ·)),
      Option.map_some]

theorem groupEnd_of_isBraceText (plain : IsBraceText (t.drop start)) :
    groupEnd t start = match bracedEnd? t start with
      | some e => .ok e
      | none => .error (overrunAt t start .bracketGroup) := by
  have scan : groupEndAmong 0 (codeChars t start) = bracedEnd? t start :=
    groupEndAmong_codeCharsFrom plain 0 _ start
  unfold groupEnd
  exact scan ▸ rfl

/-! ## The first balance -/

theorem braceBalance_cons (c : Char) (r : Text) :
    braceBalance (c :: r) = braceBalance [c] + braceBalance r := by
  simp only [braceBalance, List.count_cons, List.count_nil]
  omega

theorem neg_one_le_braceBalance_singleton (c : Char) : -1 ≤ braceBalance [c] := by
  by_cases closing : c = '}'
  · subst closing
    decide
  · simp only [braceBalance, List.count_singleton, beq_iff_eq, closing, if_false]
    split <;> simp

/-- Inside open braces, the count ends at a character that leaves none of them open. -/
theorem bracedLength_cons (hd : 0 < depth) (c : Char) (r : Text) :
    bracedLength depth (c :: r) =
      if depth + braceBalance [c] = 0 then some 1
      else (bracedLength (depth + braceBalance [c]) r).map (· + 1) := by
  rw [bracedLength]
  by_cases opening : c = '{'
  · have balance : braceBalance [c] = 1 := by
      subst opening
      decide
    rw [if_pos opening, balance, if_neg (by omega)]
  · by_cases closing : c = '}'
    · have balance : braceBalance [c] = -1 := by
        subst closing
        decide
      have last : depth + -1 = 0 ↔ depth = 1 := by omega
      rw [if_neg opening, if_pos closing, balance, Int.sub_eq_add_neg]
      simp only [last]
    · have balance : braceBalance [c] = 0 := by
        simp [braceBalance, opening, closing]
      rw [if_neg opening, if_neg closing, balance, if_neg (by omega), Int.add_zero]

/-- **The count comes to the first place at which none of the open braces is left open.** -/
theorem bracedLength_eq_some_iff (hd : 0 < depth) {n : Nat} :
    bracedLength depth r = some n ↔
      n ≤ r.length ∧ depth + braceBalance (r.take n) = 0 ∧
        ∀ m < n, depth + braceBalance (r.take m) ≠ 0 := by
  induction r generalizing depth n with
  | nil =>
    refine ⟨nofun, fun ⟨_, balanced, _⟩ => ?_⟩
    have none : braceBalance (([] : Text).take n) = 0 := by simp [braceBalance]
    omega
  | cons c r ih =>
    -- nothing is balanced before the first character
    have first : depth + braceBalance ((c :: r).take 0) ≠ 0 := by
      have none : braceBalance ((c :: r).take 0) = 0 := rfl
      omega
    have later (k : Nat) : depth + braceBalance ((c :: r).take (k + 1)) =
        depth + braceBalance [c] + braceBalance (r.take k) := by
      rw [List.take_succ_cons, braceBalance_cons, Int.add_assoc]
    have bound := neg_one_le_braceBalance_singleton c
    rw [bracedLength_cons hd]
    split
    · rename_i closed
      have one : depth + braceBalance ((c :: r).take 1) = 0 := by
        rw [later]
        simpa [braceBalance] using closed
      constructor
      · intro h
        obtain rfl := Option.some.inj h
        refine ⟨by simp, one, fun m hm => ?_⟩
        obtain rfl : m = 0 := by omega
        exact first
      · rintro ⟨-, balanced, shortest⟩
        rcases Nat.lt_trichotomy n 1 with none | rfl | more
        · obtain rfl : n = 0 := by omega
          exact absurd balanced first
        · rfl
        · exact absurd one (shortest 1 more)
    · rename_i still
      rw [Option.map_eq_some_iff]
      constructor
      · rintro ⟨k, found, rfl⟩
        obtain ⟨within, balanced, shortest⟩ := (ih (by omega)).1 found
        refine ⟨by simpa using within, later k ▸ balanced, fun m hm => ?_⟩
        cases m with
        | zero => exact first
        | succ m => exact later m ▸ shortest m (by omega)
      · rintro ⟨within, balanced, shortest⟩
        cases n with
        | zero => exact absurd balanced first
        | succ k =>
          refine ⟨k, (ih (by omega)).2 ⟨by simpa using within, later k ▸ balanced, ?_⟩, rfl⟩
          exact fun m hm => later m ▸ shortest (m + 1) (by omega)

theorem bracedEnd?_eq_some_iff (opens : t[start]? = some '{') :
    bracedEnd? t start = some e ↔ ClosesAt t start e := by
  have inside : start < t.length := (List.getElem?_eq_some_iff.1 opens).1
  have split : t.drop start = '{' :: t.drop (start + 1) := by
    rw [List.drop_eq_getElem_cons inside, (List.getElem?_eq_some_iff.1 opens).2]
  have length : (t.drop (start + 1)).length = t.length - (start + 1) := List.length_drop
  have slice (k : Nat) : t.slice start (start + (k + 1)) = '{' :: (t.drop (start + 1)).take k := by
    rw [Text.slice, split, Nat.add_sub_cancel_left, List.take_succ_cons]
  have balance (k : Nat) : (t.slice start (start + (k + 1))).count '{' =
      (t.slice start (start + (k + 1))).count '}' ↔
        1 + braceBalance ((t.drop (start + 1)).take k) = 0 := by
    rw [slice, braceBalance]
    simp only [List.count_cons]
    simp
    omega
  have found : bracedEnd? t start =
      (bracedLength 1 (t.drop (start + 1))).map fun k => start + (k + 1) := by
    rw [bracedEnd?, split, bracedLength, if_pos rfl, Option.map_map]
    rfl
  rw [found, Option.map_eq_some_iff]
  constructor
  · rintro ⟨k, found, rfl⟩
    obtain ⟨within, balanced, shortest⟩ := (bracedLength_eq_some_iff Int.one_pos).1 found
    refine ⟨by omega, by omega, (balance k).2 balanced, fun m hm hk => ?_⟩
    obtain ⟨j, rfl⟩ := Nat.exists_eq_add_of_lt hm
    exact fun same => shortest j (by omega) ((balance j).1 same)
  · rintro ⟨lt, le, balanced, shortest⟩
    obtain ⟨k, rfl⟩ := Nat.exists_eq_add_of_lt lt
    refine ⟨k, (bracedLength_eq_some_iff Int.one_pos).2 ⟨by omega, (balance k).1 balanced, ?_⟩, rfl⟩
    exact fun m hm same => shortest (start + (m + 1)) (by omega) (by omega) ((balance m).2 same)

/-- **The plain count and the scan agree where nothing but braces matters.** From an opening brace
on, both come to the same end, or neither finds one; and the end is where as many braces close as
open for the first time. -/
theorem bracedEnd?_and_groupEnd_of_isBraceText (opens : t[start]? = some '{')
    (plain : IsBraceText (t.drop start)) :
    (∀ e, bracedEnd? t start = some e ↔ groupEnd t start = .ok e) ∧
      (bracedEnd? t start = none ↔
        groupEnd t start = .error (overrunAt t start .bracketGroup)) ∧
      ∀ e, groupEnd t start = .ok e ↔ ClosesAt t start e := by
  have agree (e : Nat) : bracedEnd? t start = some e ↔ groupEnd t start = .ok e := by
    rw [groupEnd_of_isBraceText plain]
    cases bracedEnd? t start <;> simp
  refine ⟨agree, ?_, fun e => (agree e).symm.trans (bracedEnd?_eq_some_iff opens)⟩
  rw [groupEnd_of_isBraceText plain]
  cases bracedEnd? t start <;> simp

/-- Nested braces behind other text: `x: {a: {b}} }`. -/
def nestedBraces : Text := "x: \x7ba: \x7bb\x7d\x7d \x7d"

theorem bracedEnd?_and_groupEnd_of_isBraceText_nested :
    nestedBraces[3]? = some '{' ∧ IsBraceText (nestedBraces.drop 3) ∧
      bracedEnd? nestedBraces 3 = some 11 ∧ groupEnd nestedBraces 3 = .ok 11 ∧
      ClosesAt nestedBraces 3 11 := by
  have opens : nestedBraces[3]? = some '{' := by rfl
  have plain : IsBraceText (nestedBraces.drop 3) := List.all_eq_true.1 (by rfl)
  obtain ⟨agree, -, closes⟩ := bracedEnd?_and_groupEnd_of_isBraceText opens plain
  have found : bracedEnd? nestedBraces 3 = some 11 := by rfl
  exact ⟨opens, plain, found, (agree 11).1 found, (closes 11).1 ((agree 11).1 found)⟩

end Modulize.Script
