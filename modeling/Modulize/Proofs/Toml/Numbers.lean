import Modulize.Proofs.Pattern.Lines
import Modulize.Proofs.Pattern.Records
import Modulize.Proofs.Text
import Modulize.Toml.Reader

/-!
# Written numbers are read back

A number is written by its decimal digits, and it stands at the end of its line. Read again, the
digits are no date, no time of day and no number in another base, since a mark would have to stand
behind some of them (`head_behind_digits`); as a decimal number they are read to their end
(`head?_ends_wholePart`). So the number comes back (`numberOrMoment?_ofNat`).
-/

namespace Modulize.Toml

open Pattern

/-! ## Decimal digits -/

theorem all_isDigit_ofNat (n : Nat) : (Text.ofNat n).all Char.isDigit = true :=
  List.all_eq_true.2 fun _ h => Nat.isDigit_of_mem_toDigits (by decide) (by decide) h

theorem exists_ofNat (n : Nat) : ∃ a x, Text.ofNat n = a :: x ∧ a.isDigit = true := by
  have digits := all_isDigit_ofNat n
  obtain ⟨a, x, e⟩ := List.exists_cons_of_ne_nil (show Text.ofNat n ≠ [] from Nat.toDigits_ne_nil)
  rw [e] at digits
  exact ⟨a, x, e, (Bool.and_eq_true_iff.1 digits).1⟩

/-- The digits from one on. -/
def isLeading (c : Char) : Bool := '1' ≤ c && c ≤ '9'

/-- Only the number zero is written with a zero in front. -/
theorem ofNat_eq (n : Nat) :
    Text.ofNat n = ['0'] ∨ ∃ a x, Text.ofNat n = a :: x ∧ isLeading a = true := by
  have leading : ∀ n < 10, n ≠ 0 → isLeading n.digitChar = true := by decide
  induction n using Nat.strongRecOn with
  | ind n ih =>
    by_cases small : n < 10
    · rw [Text.ofNat, Nat.toDigits_of_lt_base small]
      by_cases zero : n = 0
      · subst zero
        exact Or.inl rfl
      · exact Or.inr ⟨_, [], rfl, leading n small zero⟩
    · have split := Nat.toDigits_of_base_le (b := 10) (by decide) (Nat.le_of_not_lt small)
      rw [Text.ofNat, split]
      rcases ih (n / 10) (by omega) with h | ⟨a, x, h, ha⟩
      · have back := congrArg (Nat.ofDigitChars 10 · 0) h
        rw [Text.ofNat, Nat.ofDigitChars_ten_toDigits] at back
        have : n / 10 = 0 := back
        omega
      · rw [Text.ofNat] at h
        exact Or.inr ⟨a, _, by rw [h]; rfl, ha⟩

/-- Decimal digits give back the number. -/
theorem ofDigits_ofNat (n : Nat) : ofDigits 10 (Text.ofNat n) = n := by
  have value : ∀ d : Char, d.isDigit = true →
      (Pattern.Notation.hexValue? d).getD 0 = d.toNat - '0'.toNat := by
    intro d hd
    simp [Pattern.Notation.hexValue?, hd]
  have plain : (Text.ofNat n).filter (· ≠ '_') = Text.ofNat n := by
    refine List.filter_eq_self.2 fun a ha => ?_
    rw [decide_eq_true_eq]
    rintro rfl
    exact Nat.underscore_not_in_toDigits ha
  have fold : ∀ (ds : Text) (m : Nat), ds.all Char.isDigit = true →
      ds.foldl (fun n d => n * 10 + (Pattern.Notation.hexValue? d).getD 0) m =
        Nat.ofDigitChars 10 ds m := by
    intro ds
    induction ds with
    | nil => exact fun _ _ => rfl
    | cons d ds ih =>
      intro m hds
      obtain ⟨hd, hds⟩ := Bool.and_eq_true_iff.1 hds
      rw [List.foldl_cons, value d hd, ih _ hds, Nat.mul_comm]
      rfl
  rw [ofDigits, plain, fold _ _ (all_isDigit_ofNat n)]
  exact Nat.ofDigitChars_ten_toDigits

theorem signedNumber_ofNat (n : Nat) : signedNumber (Text.ofNat n) = n := by
  have digits := all_isDigit_ofNat n
  unfold signedNumber
  split
  · rename_i r e
    rw [e] at digits
    exact absurd (Bool.and_eq_true_iff.1 digits).1 (by decide)
  · rename_i r e
    rw [e] at digits
    exact absurd (Bool.and_eq_true_iff.1 digits).1 (by decide)
  · rw [ofDigits_ofNat]
    rfl

/-! ## No date and no time -/

section

variable {ds r : Text}

/-- Behind some digits of a line of digits stands another digit or the end of the line. -/
theorem head_behind_digits {a : Pattern} (ha : a.ReadsOnly Char.isDigit)
    (hds : ds.all Char.isDigit = true) (hr : AtBreak r) {c d : Cursor} (hc : c.rest = ds ++ r)
    (hd : d ∈ a.ends c) : ∀ x ∈ d.rest.head?, x.isDigit = true ∨ x = '\n' := by
  obtain ⟨piece, reads, hp⟩ := ha c d hd
  intro x hx
  cases hx' : x.isDigit with
  | true => exact Or.inl rfl
  | false =>
    obtain ⟨y, hy⟩ : ∃ y, d.rest = x :: y := by
      cases h : d.rest with
      | nil => simp [h] at hx
      | cons b y => exact ⟨y, by simpa [h] using hx⟩
    have same : ds ++ r = piece ++ x :: y := by rw [← hc, reads.rest, hy]
    obtain ⟨z, rfl, e⟩ := append_eq_append_cons hds hx' same
    rw [List.all_append, Bool.and_eq_true] at hp
    cases z with
    | nil => exact Or.inr (hr x (by rw [e]; rfl))
    | cons b z =>
      have newline := hr b (by rw [e]; rfl)
      subst newline
      exact absurd (Bool.and_eq_true_iff.1 hp.2).1 (by decide)

/-- No mark stands behind digits of a line of digits. -/
theorem ends_mark_behind_digits {a : Pattern} (ha : a.ReadsOnly Char.isDigit)
    (hds : ds.all Char.isDigit = true) (hr : AtBreak r) {c e : Cursor} (hc : c.rest = ds ++ r)
    (he : e ∈ a.ends c) {mark : Char} (hmark : mark.isDigit = false) (hmark' : mark ≠ '\n') :
    (one (· == mark)).ends e = [] := by
  refine List.eq_nil_iff_forall_not_mem.2 fun d hd => ?_
  obtain ⟨_, rest, hrest, ⟨x, hx, rfl⟩, -⟩ := (describes_one _ e d).1 hd
  obtain rfl : x = mark := by simpa using hx
  rcases head_behind_digits ha hds hr hc he x (by rw [hrest]; rfl) with digit | newline
  · simp [hmark] at digit
  · exact hmark' newline

theorem ends_mark_eq_nil {a : Pattern} (ha : a.ReadsOnly Char.isDigit)
    (hds : ds.all Char.isDigit = true) (hr : AtBreak r) {c : Cursor} (hc : c.rest = ds ++ r)
    {mark : Char} (hmark : mark.isDigit = false) (hmark' : mark ≠ '\n') :
    (a ++ one (· == mark)).ends c = [] :=
  List.flatMap_eq_nil_iff.2 fun _ he => ends_mark_behind_digits ha hds hr hc he hmark hmark'

theorem readsOnly_one {p q : Char → Bool} (h : ∀ a, p a = true → q a = true) :
    (one p).ReadsOnly q :=
  (describes_one p).readsOnly fun t ⟨a, ha, e⟩ => by simp [e, h a ha]

theorem ReadsOnly.group {a : Pattern} {p : Char → Bool} (i : Nat) (h : a.ReadsOnly p) :
    (Pattern.group i a).ReadsOnly p := by
  intro c d hd
  obtain ⟨e, he, rfl⟩ := mem_ends_group.1 hd
  obtain ⟨piece, reads, hp⟩ := h c e he
  exact ⟨piece, ⟨reads.rest, reads.past, reads.offset⟩, hp⟩

theorem readsOnly_orElse {a b : Pattern} {p : Char → Bool} (ha : a.ReadsOnly p)
    (hb : b.ReadsOnly p) : (a <|> b).ReadsOnly p := by
  intro c d hd
  rcases mem_ends_orElse.1 hd with hd | hd
  · exact ha c d hd
  · exact hb c d hd

theorem isDigit_of_between {lo hi a : Char} (h : (lo ≤ a && a ≤ hi) = true) (hlo : '0' ≤ lo)
    (hhi : hi ≤ '9') : a.isDigit = true := by
  rw [Bool.and_eq_true, decide_eq_true_eq, decide_eq_true_eq] at h
  have lower := Char.le_trans hlo h.1
  have upper := Char.le_trans h.2 hhi
  simpa [Char.isDigit] using ⟨lower, upper⟩

theorem readsOnly_between {lo hi : Char} (hlo : '0' ≤ lo) (hhi : hi ≤ '9') :
    (one fun c => lo ≤ c && c ≤ hi).ReadsOnly Char.isDigit :=
  readsOnly_one fun _ h => isDigit_of_between h hlo hhi

theorem readsOnly_twoDigits {lo hi : Char} (hlo : '0' ≤ lo) (hhi : hi ≤ '9') :
    (twoDigits lo hi).ReadsOnly Char.isDigit :=
  (readsOnly_between hlo hhi).seq (readsOnly_one fun _ h => h)

theorem readsOnly_char {a : Char} (h : a.isDigit = true) :
    (one (· == a)).ReadsOnly Char.isDigit :=
  readsOnly_one fun b hb => by
    obtain rfl : b = a := by simpa using hb
    exact h

/-- What cannot be read leaves nothing for what follows. -/
theorem ends_seq_eq_nil {a b : Pattern} {c : Cursor} (h : a.ends c = []) :
    (a ++ b).ends c = [] := by
  change (a.ends c).flatMap b.ends = []
  rw [h, List.flatMap_nil]

/-- The year of a date is followed by a dash. -/
theorem ends_calendarTime (hds : ds.all Char.isDigit = true) (hr : AtBreak r) {c : Cursor}
    (hc : c.rest = ds ++ r) : calendarTime.ends c = [] := by
  have year : (Pattern.group 1 (twoDigits '0' '9' ++ twoDigits '0' '9')).ReadsOnly Char.isDigit :=
    ReadsOnly.group 1 ((readsOnly_twoDigits (by decide) (by decide)).seq
      (readsOnly_twoDigits (by decide) (by decide)))
  have dash := ends_mark_eq_nil year hds hr hc (show '-'.isDigit = false by decide) (by decide)
  have date : calendarDate.ends c = [] :=
    ends_seq_eq_nil (ends_seq_eq_nil (ends_seq_eq_nil dash))
  exact ends_seq_eq_nil date

/-- The hour of a time of day is followed by a colon. -/
theorem ends_clockTime (hds : ds.all Char.isDigit = true) (hr : AtBreak r) {c : Cursor}
    (hc : c.rest = ds ++ r) : clockTime.ends c = [] := by
  have hour : hour.ReadsOnly Char.isDigit :=
    readsOnly_orElse (readsOnly_twoDigits (by decide) (by decide))
      ((readsOnly_char (by decide)).seq (readsOnly_between (by decide) (by decide)))
  have colon := ends_mark_eq_nil hour hds hr hc (show ':'.isDigit = false by decide) (by decide)
  exact ends_seq_eq_nil (ends_seq_eq_nil (ends_seq_eq_nil (ends_seq_eq_nil colon)))

/-- A number in another base has its mark behind a zero. -/
theorem ends_basedNumber (hds : ds.all Char.isDigit = true) (hr : AtBreak r) {c : Cursor}
    (hc : c.rest = ds ++ r) : basedNumber.ends c = [] := by
  refine List.flatMap_eq_nil_iff.2 fun e he => ?_
  have none {mark : Char} (hmark : mark.isDigit = false) (hmark' : mark ≠ '\n') (p : Pattern) :
      (Pattern.group 1 (one (· == mark)) ++ p).ends e = [] := by
    refine ends_seq_eq_nil (List.map_eq_nil_iff.2 ?_)
    exact ends_mark_behind_digits (readsOnly_char (by decide)) hds hr hc he hmark hmark'
  refine List.append_eq_nil_iff.2 ⟨none (by decide) (by decide) _, ?_⟩
  exact List.append_eq_nil_iff.2 ⟨none (by decide) (by decide) _, none (by decide) (by decide) _⟩

/-! ## Decimal numbers -/

/-- No character of a class follows. -/
theorem ends_one_eq_nil {p : Char → Bool} {c : Cursor} (h : ∀ a ∈ c.rest.head?, p a = false) :
    (one p).ends c = [] := by
  unfold ends
  split
  · rfl
  · rename_i a x hc
    rw [if_neg (by simp [h a (by rw [hc]; rfl)])]

theorem ends_optional_of_nil {a : Pattern} {c : Cursor} (h : a.ends c = []) :
    (optional a).ends c = [c] := by
  change a.ends c ++ [c] = [c]
  rw [h, List.nil_append]

/-- A digit of a group is read, and no underscore before it. -/
theorem ends_groupDigit {a : Char} (ha : a.isDigit = true) (past : Text) (offset : Nat) (t : Text)
    (groups : List (Nat × Capture)) :
    (optional (one (· == '_')) ++ one Char.isDigit).ends ⟨past, offset, a :: t, groups⟩ =
      [⟨a :: past, offset + 1, t, groups⟩] := by
  have underscore : a ≠ '_' := by
    rintro rfl
    exact absurd ha (by decide)
  have none : (one (· == '_')).ends ⟨past, offset, a :: t, groups⟩ = [] :=
    ends_one_eq_nil (by simpa using underscore)
  rw [ends_seq]
  simp [ends_optional_of_nil none, ends, ha]

theorem ends_groupDigit_eq_nil (hr : AtBreak r) {c : Cursor} (hc : c.rest = r) :
    (optional (one (· == '_')) ++ one Char.isDigit).ends c = [] := by
  subst hc
  have underscore : (one (· == '_')).ends c = [] := by
    refine ends_one_eq_nil fun a ha => ?_
    rw [hr a ha]
    decide
  have digit : (one Char.isDigit).ends c = [] := by
    refine ends_one_eq_nil fun a ha => ?_
    rw [hr a ha]
    decide
  rw [ends_seq]
  simp [ends_optional_of_nil underscore, digit]

/-- Digits are read to their end. -/
theorem head?_ends_digits (hds : ds.all Char.isDigit = true) (hr : AtBreak r) (past : Text)
    (offset : Nat) (groups : List (Nat × Capture)) :
    ((many (optional (one (· == '_')) ++ one Char.isDigit) none true).ends
        ⟨past, offset, ds ++ r, groups⟩).head? =
      some ((⟨past, offset, ds ++ r, groups⟩ : Cursor).after ds r) := by
  simp only [ends]
  generalize hbody : ((optional (one (· == '_')) ++ one Char.isDigit).ends) = body
  have digit := fun a ha => ends_groupDigit (a := a) ha
  have stop := fun (c : Cursor) (hc : c.rest = r) => ends_groupDigit_eq_nil hr hc
  simp only [hbody] at digit stop
  induction ds generalizing past offset with
  | nil =>
    have none := stop ⟨past, offset, r, groups⟩ rfl
    cases r <;> simp [repeatEnds, preferring, none, Cursor.after]
  | cons a ds ih =>
    obtain ⟨ha, hds⟩ := Bool.and_eq_true_iff.1 hds
    have longer := ih hds (a :: past) (offset + 1)
    have first := digit a ha past offset (ds ++ r) groups
    simp only [List.cons_append, repeatEnds, preferring, first, List.flatMap_singleton, if_true,
      List.head?_append]
    simp [longer, Cursor.after, Nat.add_assoc, Nat.add_comm 1]

/-- Digits that do not begin with a zero, or a single zero. -/
def wholePart : Pattern :=
  optional sign ++ (one (· == '0') <|> groupedDigits isLeading Char.isDigit)

/-- What may stand behind the whole part. -/
def fractionPart : Pattern :=
  optional (one (· == '.') ++ groupedDigits Char.isDigit Char.isDigit) ++
    optional (one (fun c => c == 'e' || c == 'E') ++ optional sign ++
      groupedDigits Char.isDigit Char.isDigit)

theorem decimalNumber_eq :
    decimalNumber = Pattern.group 1 wholePart ++ Pattern.group 2 fractionPart :=
  rfl

/-- **The whole part of a written number** is all of its digits. -/
theorem head?_ends_wholePart (n : Nat) (hr : AtBreak r) :
    (wholePart.ends (Cursor.start (Text.ofNat n ++ r))).head? =
      some ((Cursor.start (Text.ofNat n ++ r)).after (Text.ofNat n) r) := by
  have digits := all_isDigit_ofNat n
  have unsigned : sign.ends (Cursor.start (Text.ofNat n ++ r)) = [] := by
    refine ends_one_eq_nil fun a ha => ?_
    obtain ⟨b, x, e, digit⟩ := exists_ofNat n
    rw [e] at ha
    obtain rfl : a = b := by simpa [Cursor.start] using ha.symm
    have plus : a ≠ '+' := by
      rintro rfl
      exact absurd digit (by decide)
    have minus : a ≠ '-' := by
      rintro rfl
      exact absurd digit (by decide)
    simp [plus, minus]
  have start : wholePart.ends (Cursor.start (Text.ofNat n ++ r)) =
      (one (· == '0') <|> groupedDigits isLeading Char.isDigit).ends
        (Cursor.start (Text.ofNat n ++ r)) := by
    change ((optional sign).ends _).flatMap _ = _
    rw [ends_optional_of_nil unsigned, List.flatMap_singleton]
  rw [start]
  change ((one (· == '0')).ends _ ++ (groupedDigits isLeading Char.isDigit).ends _).head? = _
  rcases ofNat_eq n with zero | ⟨a, x, e, ha⟩
  · rw [zero]
    simp [Cursor.start, ends, Cursor.after]
  · have nonzero : (one (· == '0')).ends (Cursor.start (a :: x ++ r)) = [] := by
      refine ends_one_eq_nil fun b hb => ?_
      obtain rfl : a = b := by simpa [Cursor.start] using hb
      rw [beq_eq_false_iff_ne]
      rintro rfl
      exact absurd ha (by decide)
    rw [e] at digits
    have rest := head?_ends_digits (Bool.and_eq_true_iff.1 digits).2 hr [a] 1 []
    rw [e, nonzero, List.nil_append]
    have first : (one isLeading).ends (Cursor.start (a :: x ++ r)) = [⟨[a], 1, x ++ r, []⟩] := by
      simp [Cursor.start, ends, ha]
    change (((one isLeading).ends _).flatMap _).head? = _
    rw [first, List.flatMap_singleton, rest]
    simp [Cursor.start, Cursor.after, Nat.add_comm]

/-- Nothing stands behind the whole part at the end of a line. -/
theorem ends_fractionPart (hr : AtBreak r) {c : Cursor} (hc : c.rest = r) :
    fractionPart.ends c = [c] := by
  subst hc
  have none {p : Char → Bool} (hp : p '\n' = false) : (one p).ends c = [] :=
    ends_one_eq_nil fun a ha => hr a ha ▸ hp
  change ((optional _).ends c).flatMap _ = [c]
  rw [ends_optional_of_nil (ends_seq_eq_nil (none (by decide))), List.flatMap_singleton]
  exact ends_optional_of_nil (ends_seq_eq_nil (ends_seq_eq_nil (none (by decide))))

theorem ends_fractionPart_ne_nil (c : Cursor) : (Pattern.group 2 fractionPart).ends c ≠ [] := by
  have stay {a : Pattern} (e : Cursor) : e ∈ (optional a).ends e :=
    List.mem_append_right _ (List.mem_singleton.2 rfl)
  have stop : c.close 2 c ∈ (Pattern.group 2 fractionPart).ends c :=
    mem_ends_group.2 ⟨c, mem_ends_seq.2 ⟨c, stay c, stay c⟩, rfl⟩
  exact List.ne_nil_of_mem stop

/-- The whole number that a decimal number reads is its digits. -/
theorem head?_ends_decimalNumber (n : Nat) (hr : AtBreak r) :
    ∃ d, (decimalNumber.ends (Cursor.start (Text.ofNat n ++ r))).head? = some d ∧ d.rest = r ∧
      (Match.mk (Cursor.start (Text.ofNat n ++ r)) d).groupText 1 = Text.ofNat n ∧
      (Match.mk (Cursor.start (Text.ofNat n ++ r)) d).groupText 2 = [] := by
  have whole := head?_ends_wholePart n hr
  generalize hc : Cursor.start (Text.ofNat n ++ r) = c at whole ⊢
  have reads : c.Reads (Text.ofNat n) (c.after (Text.ofNat n) r) :=
    Cursor.reads_after (by rw [← hc]; rfl)
  generalize he : c.close 1 (c.after (Text.ofNat n) r) = e
  have behind : (Pattern.group 2 fractionPart).ends e = [e.close 2 e] := by
    change (fractionPart.ends e).map _ = _
    rw [ends_fractionPart hr (by rw [← he]; rfl)]
    rfl
  refine ⟨e.close 2 e, ?_, ?_, ?_, ?_⟩
  · rw [decimalNumber_eq, head?_ends_seq ends_fractionPart_ne_nil]
    change ((wholePart.ends c).map (c.close 1)).head?.bind _ = _
    rw [List.head?_map, whole, Option.map_some, Option.bind_some, he, behind]
    rfl
  · rw [← he]
    rfl
  · rw [← he]
    exact reads.textTo
  · simp [Match.groupText, Match.group?, Cursor.close, lookup?, Cursor.textTo]

/-- **A written number is read back** at the end of a line. -/
theorem numberOrMoment?_ofNat (n : Nat) (hr : AtBreak r) :
    numberOrMoment? (Text.ofNat n ++ r) = some (.number n, r) := by
  have digits := all_isDigit_ofNat n
  have start : (Cursor.start (Text.ofNat n ++ r)).rest = Text.ofNat n ++ r := rfl
  obtain ⟨d, hd, rest, whole, fraction⟩ := head?_ends_decimalNumber n hr
  simp only [numberOrMoment?, number?, matchAt?_eq_head?, ends_calendarTime digits hr start,
    ends_clockTime digits hr start, ends_basedNumber digits hr start, List.head?_nil,
    Option.map_none, hd, Option.map_some, whole, fraction, rest, signedNumber_ofNat]
  rfl

end

end Modulize.Toml
