import Modulize.Proofs.Declaration.Printed
import Modulize.Proofs.Files.Written
import Modulize.Proofs.Pattern.Composed

/-!
# Assignments to `exports`

An assignment to `exports`, or to a member of it, is at the beginning of a line (`BeginsExport`).
Where no line begins with one (`Quiet`), nothing is found (`matchesFrom_of_quiet`); an assignment
is read as far as its value (`ends_memberExport_member`, `ends_wholeExport_whole`), and only as what
it is (`ends_wholeExport_member`, `ends_memberExport_whole`).
-/

namespace Modulize.Declaration

open Pattern Qualified Script

/-! ## Lines that begin with an assignment -/

/-- What can be assigned to: `exports` or a member of it. -/
def IsExportTarget (target : Text) : Prop :=
  target = "exports" ∨ ∃ n, IsIdentifier n ∧ target = "exports." ++ n

/-- **A line begins here with an assignment** to `exports` or to a member of it. -/
def BeginsExport (before t : Text) : Prop :=
  AtBreak before ∧ ∃ w target b r, w.all isSpaceOrTab = true ∧ IsExportTarget target ∧
    b.all isBlank = true ∧ t = w ++ (target ++ (b ++ '=' :: r)) ∧ ∀ a ∈ r.head?, a ≠ '='

/-- No such assignment begins in the text `o`, between `before` and `t`. -/
def Quiet (before o t : Text) : Prop :=
  ∀ x y, o = x ++ y → y ≠ [] → ¬ BeginsExport (x.reverse ++ before) (y ++ t)

/-- A line begins here, perhaps behind spaces and tabs, with the word `exports`. -/
def beginsExports (before t : Text) : Bool :=
  AtBreak before && "exports".toList.isPrefixOf (t.dropWhile isSpaceOrTab)

/-- No line begins in `o`, between `before` and `t`, with the word `exports`. -/
def isQuiet : Text → Text → Text → Bool
  | _, [], _ => true
  | before, a :: o, t => !beginsExports before (a :: (o ++ t)) && isQuiet (a :: before) o t

/-- A line that begins with an assignment begins with the word. -/
theorem beginsExports_of_beginsExport {before t : Text} (h : BeginsExport before t) :
    beginsExports before t = true := by
  obtain ⟨start, w, target, b, r, gap, isTarget, -, rfl, -⟩ := h
  obtain ⟨s, rfl⟩ : "exports".toList <+: target := by
    obtain rfl | ⟨n, -, rfl⟩ := isTarget
    · exact List.prefix_rfl
    · exact ⟨'.' :: n, rfl⟩
  have shows : (w ++ ("exports".toList ++ s ++ (b ++ '=' :: r))).dropWhile isSpaceOrTab =
      "exports".toList ++ (s ++ (b ++ '=' :: r)) := by
    rw [List.dropWhile_append_of_pos (List.all_eq_true.1 gap), List.append_assoc]
    rfl
  rw [beginsExports, shows, List.isPrefixOf_iff_prefix.2 (List.prefix_append _ _)]
  simp [start]

/-- Where no line begins with the word, none begins with an assignment. -/
theorem quiet_of_isQuiet {before o t : Text} (h : isQuiet before o t = true) :
    Quiet before o t := by
  induction o generalizing before with
  | nil =>
    intro x y e filled
    exact absurd (List.append_eq_nil_iff.1 e.symm).2 filled
  | cons a o ih =>
    obtain ⟨here, later⟩ := Bool.and_eq_true_iff.1 h
    intro x y e filled begins
    cases x with
    | nil =>
      obtain rfl : a :: o = y := e
      have := beginsExports_of_beginsExport begins
      simp only [List.reverse_nil, List.nil_append, List.cons_append] at this
      simp [this] at here
    | cons c x =>
      obtain ⟨rfl, rest⟩ := List.cons.inj e
      exact ih later x y rest filled (by simpa using begins)

theorem alone_of_isQuiet {before x t : Text}
    (h : isQuiet (x.take 1 ++ before) (x.drop 1) t = true) :
    ∀ a y, x = a :: y → Quiet (a :: before) y t := by
  rintro a y rfl
  exact quiet_of_isQuiet h

/-! ## The patterns -/

/-- The beginning of an assignment to a member, within its line. -/
def memberTarget : Pattern :=
  spacesOrTabs ++ literal "exports." ++ group 1 identifier ++ blanks ++ one (· == '=')

/-- The beginning of an assignment to `exports`, within its line. -/
def wholeTarget : Pattern := spacesOrTabs ++ literal "exports" ++ blanks ++ one (· == '=')

theorem ends_memberExport :
    memberExport.ends = (lineStart ++ (memberTarget ++ notBefore (· == '='))).ends := by
  simp only [memberExport, memberTarget, equalsSign, ends_seq, List.flatMap_assoc]

theorem ends_wholeExport :
    wholeExport.ends = (lineStart ++ (wholeTarget ++ notBefore (· == '=')) ++ blanks).ends := by
  simp only [wholeExport, wholeTarget, equalsSign, ends_seq, List.flatMap_assoc]

theorem records_memberTarget : memberTarget.Records fun t notes =>
    ∃ w n b, w.all isSpaceOrTab = true ∧ IsIdentifier n ∧ b.all isBlank = true ∧
      t = w ++ ("exports." ++ (n ++ (b ++ ['=']))) ∧ notes = [(1, n)] := by
  have parts := ((((describes_run isSpaceOrTab).seq (describes_literal "exports.")).seq_records
    ((describes_run1 isIdent).group 1)).seq_describes (describes_run isBlank)).seq_describes
    (describes_one (· == '='))
  refine parts.congr fun t notes => ⟨?_, ?_⟩
  · rintro ⟨_, _, ⟨_, b, ⟨_, _, ⟨w, _, gap, rfl, rfl⟩, ⟨⟨a, r, ha, hr, rfl⟩, rfl⟩, rfl⟩, blank,
      rfl⟩, ⟨_, equals, rfl⟩, rfl⟩
    obtain rfl := eq_of_beq equals
    exact ⟨w, a :: r, b, gap, ⟨by simp, by simp [ha, hr]⟩, blank, by simp, rfl⟩
  · rintro ⟨w, n, b, gap, isName, blank, rfl, rfl⟩
    obtain ⟨a, r, rfl, ha⟩ := isName.exists_cons
    have hr := (Bool.and_eq_true_iff.1 isName.2).2
    exact ⟨_, ['='], ⟨_, b, ⟨_, a :: r, ⟨w, _, gap, rfl, rfl⟩, ⟨⟨a, r, ha, hr, rfl⟩, rfl⟩, rfl⟩,
      blank, rfl⟩, ⟨'=', rfl, rfl⟩, by simp⟩

theorem describes_wholeTarget : wholeTarget.Describes fun t =>
    ∃ w b, w.all isSpaceOrTab = true ∧ b.all isBlank = true ∧
      t = w ++ ("exports" ++ (b ++ ['='])) := by
  have parts := (((describes_run isSpaceOrTab).seq (describes_literal "exports")).seq
    (describes_run isBlank)).seq (describes_one (· == '='))
  refine parts.congr fun t => ⟨?_, ?_⟩
  · rintro ⟨_, _, ⟨_, b, ⟨w, _, gap, rfl, rfl⟩, blank, rfl⟩, ⟨_, equals, rfl⟩, rfl⟩
    obtain rfl := eq_of_beq equals
    exact ⟨w, b, gap, blank, by simp⟩
  · rintro ⟨w, b, gap, blank, rfl⟩
    exact ⟨_, ['='], ⟨_, b, ⟨w, _, gap, rfl, rfl⟩, blank, rfl⟩, ⟨'=', rfl, rfl⟩, by simp⟩

theorem mem_ends_guarded {r : Pattern} {c d : Cursor} :
    d ∈ (lineStart ++ (r ++ notBefore (· == '='))).ends c ↔
      AtBreak c.past ∧ d ∈ r.ends c ∧ ∀ a ∈ d.rest.head?, a ≠ '=' := by
  rw [mem_ends_seq]
  constructor
  · rintro ⟨_, here, hd⟩
    obtain ⟨start, rfl⟩ := mem_ends_lineStart.1 here
    obtain ⟨e, he, hd⟩ := mem_ends_seq.1 hd
    obtain ⟨plain, rfl⟩ := mem_ends_notBefore.1 hd
    exact ⟨start, he, fun a ha => by simpa using plain a ha⟩
  · rintro ⟨start, hd, plain⟩
    exact ⟨c, mem_ends_lineStart.2 ⟨start, rfl⟩, mem_ends_seq.2 ⟨d, hd,
      mem_ends_notBefore.2 ⟨fun a ha => by simpa using plain a ha, rfl⟩⟩⟩

/-- What the assignment to a member reads. -/
theorem mem_ends_memberExport {c d : Cursor} (h : d ∈ memberExport.ends c) :
    AtBreak c.past ∧ ∃ w n b, w.all isSpaceOrTab = true ∧ IsIdentifier n ∧ b.all isBlank = true ∧
      c.Reads (w ++ ("exports." ++ (n ++ (b ++ ['='])))) d ∧ d.noted = (1, n) :: c.noted ∧
      ∀ a ∈ d.rest.head?, a ≠ '=' := by
  rw [ends_memberExport] at h
  obtain ⟨start, hd, plain⟩ := mem_ends_guarded.1 h
  obtain ⟨_, _, ⟨w, n, b, gap, isName, blank, rfl, rfl⟩, reads, noted⟩ :=
    records_memberTarget.sound c d hd
  exact ⟨start, w, n, b, gap, isName, blank, reads, noted, plain⟩

/-- What the assignment to `exports` reads, first of all. -/
theorem head?_ends_wholeExport {c d : Cursor} (h : (wholeExport.ends c).head? = some d) :
    AtBreak c.past ∧ ∃ w b s, w.all isSpaceOrTab = true ∧ b.all isBlank = true ∧
      c.rest = w ++ ("exports" ++ (b ++ '=' :: s)) ∧ (∀ a ∈ s.head?, a ≠ '=') ∧
      c.Reads (w ++ ("exports" ++ (b ++ '=' :: s.takeWhile isBlank))) d := by
  rw [ends_wholeExport, blanks, head?_ends_seq (ends_run_ne_nil isBlank)] at h
  obtain ⟨e, he, h⟩ := Option.bind_eq_some_iff.1 h
  obtain ⟨start, he, plain⟩ := mem_ends_guarded.1 (List.mem_of_mem_head? he)
  obtain ⟨_, s, hc, ⟨w, b, gap, blank, rfl⟩, rfl⟩ := (describes_wholeTarget c e).1 he
  obtain rfl := Option.some.inj ((head?_ends_run isBlank _).symm.trans h)
  refine ⟨start, w, b, s, gap, blank, by rw [hc]; simp, plain, ?_⟩
  have reads := (Cursor.reads_after hc).trans (Cursor.reads_after (c := c.after _ s)
    (List.takeWhile_append_dropWhile (p := isBlank) (l := s)).symm)
  simpa using reads

/-- Where a pattern reads something, a line begins with an assignment. -/
theorem beginsExport_of_member {c : Cursor} (h : memberExport.ends c ≠ []) :
    BeginsExport c.past c.rest := by
  obtain ⟨d, ds, e⟩ := List.exists_cons_of_ne_nil h
  obtain ⟨start, w, n, b, gap, isName, blank, reads, -, plain⟩ :=
    mem_ends_memberExport (e ▸ List.mem_cons_self)
  exact ⟨start, w, _, b, d.rest, gap, Or.inr ⟨n, isName, rfl⟩, blank, by rw [reads.rest]; simp,
    plain⟩

theorem beginsExport_of_whole {c : Cursor} (h : wholeExport.ends c ≠ []) :
    BeginsExport c.past c.rest := by
  obtain ⟨d, ds, e⟩ := List.exists_cons_of_ne_nil h
  have first : (wholeExport.ends c).head? = some d := by
    rw [e]
    rfl
  obtain ⟨start, w, b, s, gap, blank, hc, plain, -⟩ := head?_ends_wholeExport first
  exact ⟨start, w, _, b, s, gap, Or.inl rfl, blank, hc, plain⟩

theorem consumes_memberExport : memberExport.Consumes := ((consumes_one _).seq_left _).seq_right _

theorem consumes_wholeExport : wholeExport.Consumes :=
  (((consumes_one _).seq_left _).seq_right _).seq_left _

/-! ## What is found -/

theorem Quiet.tail {before o t : Text} {a : Char} (h : Quiet before (a :: o) t) :
    Quiet (a :: before) o t := by
  intro x y e filled
  have := h (a :: x) y (by rw [e]; rfl) filled
  simpa using this

theorem Quiet.of_append {before x y t : Text} (h : Quiet before (x ++ y) t) :
    Quiet (x.reverse ++ before) y t := by
  induction x generalizing before with
  | nil => exact h
  | cons a x ih =>
    have := ih h.tail
    simpa using this

/-- Where no line begins with an assignment, nothing is found. -/
theorem matchesFrom_of_quiet {r : Pattern}
    (reads : ∀ c, r.ends c ≠ [] → BeginsExport c.past c.rest) {before o t : Text}
    (quiet : Quiet before o t) (offset : Nat) :
    r.matchesFrom 0 before offset (o ++ t) =
      r.matchesFrom 0 (o.reverse ++ before) (offset + o.length) t := by
  induction o generalizing before offset with
  | nil => rfl
  | cons a o ih =>
    have here : r.ends ⟨before, offset, a :: (o ++ t), []⟩ = [] :=
      Classical.byContradiction fun some =>
        quiet [] (a :: o) rfl (by simp) (reads ⟨before, offset, a :: (o ++ t), []⟩ some)
    rw [List.cons_append, matchesFrom_of_none here, ih quiet.tail]
    simp [Nat.add_assoc, Nat.add_comm 1]

section

variable {r : Pattern} {past p q x y t : Text} {offset : Nat}

/-- Nothing is found in a text at whose beginning nothing is read. -/
theorem matchesFrom_of_unread (reads : ∀ c, r.ends c ≠ [] → BeginsExport c.past c.rest)
    {a : Char} (none : r.ends ⟨past, offset, a :: y ++ t, []⟩ = [])
    (quiet : Quiet (a :: past) y t) :
    r.matchesFrom 0 past offset (a :: y ++ t) =
      r.matchesFrom 0 ((a :: y).reverse ++ past) (offset + (a :: y).length) t := by
  refine (matchesFrom_of_none none).trans ((matchesFrom_of_quiet reads quiet (offset + 1)).trans ?_)
  simp [Nat.add_assoc, Nat.add_comm 1]

/-- What is read at the beginning of a text is all that is found in it. -/
theorem matchesFrom_of_read (consumes : r.Consumes)
    (reads : ∀ c, r.ends c ≠ [] → BeginsExport c.past c.rest) {d : Cursor} {ds : List Cursor}
    (ends : r.ends ⟨past, offset, p ++ (q ++ t), []⟩ = d :: ds)
    (first : Cursor.Reads ⟨past, offset, p ++ (q ++ t), []⟩ p d)
    (quiet : Quiet (p.reverse ++ past) q t) :
    r.matchesFrom 0 past offset (p ++ (q ++ t)) = ⟨⟨past, offset, p ++ (q ++ t), []⟩, d⟩ ::
      r.matchesFrom 0 ((p ++ q).reverse ++ past) (offset + (p ++ q).length) t := by
  rw [matchesFrom_of_match consumes ends first, matchesFrom_of_quiet reads quiet]
  simp [Nat.add_assoc]

end

/-! ## What is read -/

/-- What follows the word `exports` at the beginning of a line. -/
theorem eq_of_exports {w w' u u' : Text} (gap : w.all isSpaceOrTab = true)
    (gap' : w'.all isSpaceOrTab = true)
    (e : w ++ ("exports".toList ++ u) = w' ++ ("exports".toList ++ u')) : w = w' ∧ u = u' := by
  have shows (u : Text) : ∀ a ∈ ("exports".toList ++ u).head?, isSpaceOrTab a = false := by
    rintro _ ⟨⟩
    rfl
  obtain ⟨same, tail⟩ := append_inj_of_all gap gap' (shows u) (shows u') e
  exact ⟨same, List.append_cancel_left tail⟩

/-- An equals sign, perhaps behind blanks, is no dot. -/
theorem dot_ne_equals {b s u : Text} (blank : b.all isBlank = true) : '.' :: u ≠ b ++ '=' :: s := by
  intro e
  cases b with
  | nil => cases (List.cons.inj e).1
  | cons a b =>
    obtain ⟨rfl, -⟩ := List.cons.inj e
    cases (Bool.and_eq_true_iff.1 blank).1

theorem equals_inj {b b' s s' : Text} (blank : b.all isBlank = true)
    (blank' : b'.all isBlank = true) (e : b ++ '=' :: s = b' ++ '=' :: s') : b = b' ∧ s = s' := by
  have shows (s : Text) : ∀ a ∈ ('=' :: s : Text).head?, isBlank a = false := by
    rintro _ ⟨⟩
    decide
  obtain ⟨same, tail⟩ := append_inj_of_all blank blank' (shows s) (shows s') e
  exact ⟨same, (List.cons.inj tail).2⟩

section

variable {past w n b b' s t : Text} (offset : Nat)

/-- The beginning of an assignment to a member. -/
theorem exports_dot (w n b t : Text) : w ++ ("exports." ++ (n ++ (b ++ ['=']))) ++ t =
    w ++ ("exports".toList ++ '.' :: (n ++ (b ++ '=' :: t))) := by simp

theorem name_inj {n n' b b' s s' : Text} (isName : IsIdentifier n) (isName' : IsIdentifier n')
    (blank : b.all isBlank = true) (blank' : b'.all isBlank = true)
    (e : n ++ (b ++ '=' :: s) = n' ++ (b' ++ '=' :: s')) : n = n' ∧ b = b' := by
  have shows {b s : Text} (blank : b.all isBlank = true) :
      ∀ a ∈ (b ++ '=' :: s).head?, isIdent a = false := by
    intro a ha
    cases b with
    | nil =>
      obtain rfl := Option.some.inj ha
      decide
    | cons c b =>
      obtain rfl := Option.some.inj ha
      exact isIdent_eq_false_of_isBlank (Bool.and_eq_true_iff.1 blank).1
  obtain ⟨same, tail⟩ := append_inj_of_all isName.2 isName'.2 (shows blank) (shows blank') e
  exact ⟨same, (equals_inj blank blank' tail).1⟩

/-- **An assignment to a member is read** up to its equals sign. -/
theorem ends_memberExport_member (start : AtBreak past) (gap : w.all isSpaceOrTab = true)
    (isName : IsIdentifier n) (blank : b.all isBlank = true) (plain : ∀ a ∈ t.head?, a ≠ '=') :
    ∃ d ds, memberExport.ends
        ⟨past, offset, w ++ ("exports." ++ (n ++ (b ++ ['=']))) ++ t, []⟩ = d :: ds ∧
      Cursor.Reads ⟨past, offset, w ++ ("exports." ++ (n ++ (b ++ ['=']))) ++ t, []⟩
        (w ++ ("exports." ++ (n ++ (b ++ ['='])))) d ∧ d.noted = [(1, n)] := by
  obtain ⟨e, he, reads, -⟩ := records_memberTarget.complete
    ⟨past, offset, w ++ ("exports." ++ (n ++ (b ++ ['=']))) ++ t, []⟩ _ _ t
    ⟨w, n, b, gap, isName, blank, rfl, rfl⟩ rfl
  have rest : t = e.rest := List.append_cancel_left reads.rest
  have some : e ∈ memberExport.ends
      ⟨past, offset, w ++ ("exports." ++ (n ++ (b ++ ['=']))) ++ t, []⟩ := by
    rw [ends_memberExport]
    exact mem_ends_guarded.2 ⟨start, he, rest ▸ plain⟩
  obtain ⟨d, ds, ends⟩ := List.exists_cons_of_ne_nil (List.ne_nil_of_mem some)
  obtain ⟨-, w', n', b', gap', isName', blank', reads', noted, -⟩ :=
    mem_ends_memberExport (ends ▸ List.mem_cons_self)
  have split := reads'.rest
  simp only [exports_dot] at split
  obtain ⟨rfl, tail⟩ := eq_of_exports gap gap' split
  obtain ⟨rfl, rfl⟩ := name_inj isName isName' blank blank' (List.cons.inj tail).2
  exact ⟨d, ds, ends, reads', noted⟩

theorem ends_wholeExport_member (gap : w.all isSpaceOrTab = true) :
    wholeExport.ends ⟨past, offset, w ++ ("exports." ++ (n ++ (b ++ ['=']))) ++ t, []⟩ = [] := by
  refine Classical.byContradiction fun some => ?_
  obtain ⟨d, ds, ends⟩ := List.exists_cons_of_ne_nil some
  obtain ⟨-, w', b', s, gap', blank', split, -⟩ := head?_ends_wholeExport (by rw [ends]; rfl)
  simp only [exports_dot] at split
  exact dot_ne_equals blank' (eq_of_exports gap gap' split).2

theorem ends_memberExport_whole (gap : w.all isSpaceOrTab = true) (blank : b.all isBlank = true) :
    memberExport.ends ⟨past, offset, w ++ ("exports".toList ++ (b ++ '=' :: s)), []⟩ = [] := by
  refine Classical.byContradiction fun some => ?_
  obtain ⟨d, ds, ends⟩ := List.exists_cons_of_ne_nil some
  obtain ⟨-, w', n', b', gap', -, -, reads, -⟩ := mem_ends_memberExport (ends ▸ List.mem_cons_self)
  have split := reads.rest
  simp only [exports_dot] at split
  exact dot_ne_equals blank (eq_of_exports gap' gap split.symm).2

/-- **An assignment to `exports` is read** up to what is assigned. -/
theorem ends_wholeExport_whole (start : AtBreak past) (gap : w.all isSpaceOrTab = true)
    (blank : b.all isBlank = true) (blank' : b'.all isBlank = true)
    (shows : ∀ a ∈ s.head?, isBlank a = false) (plain : ∀ a ∈ (b' ++ s).head?, a ≠ '=') :
    ∃ d ds, wholeExport.ends
        ⟨past, offset, w ++ ("exports".toList ++ (b ++ '=' :: b')) ++ s, []⟩ = d :: ds ∧
      Cursor.Reads ⟨past, offset, w ++ ("exports".toList ++ (b ++ '=' :: b')) ++ s, []⟩
        (w ++ ("exports".toList ++ (b ++ '=' :: b'))) d := by
  have cut : w ++ ("exports".toList ++ (b ++ '=' :: b')) ++ s =
      (w ++ ("exports".toList ++ (b ++ ['=']))) ++ (b' ++ s) := by simp
  have target := (describes_wholeTarget
    ⟨past, offset, w ++ ("exports".toList ++ (b ++ '=' :: b')) ++ s, []⟩ _).2
    ⟨_, _, cut, ⟨w, b, gap, blank, rfl⟩, rfl⟩
  have some : wholeExport.ends
      ⟨past, offset, w ++ ("exports".toList ++ (b ++ '=' :: b')) ++ s, []⟩ ≠ [] := by
    rw [ends_wholeExport]
    obtain ⟨d, ds, behind⟩ := List.exists_cons_of_ne_nil (ends_run_ne_nil isBlank _)
    exact List.ne_nil_of_mem (mem_ends_seq.2
      ⟨_, mem_ends_guarded.2 ⟨start, target, plain⟩, behind ▸ List.mem_cons_self⟩)
  obtain ⟨d, ds, ends⟩ := List.exists_cons_of_ne_nil some
  obtain ⟨-, w', c, s', gap', blank'', split, -, reads⟩ :=
    head?_ends_wholeExport (d := d) (by rw [ends]; rfl)
  have whole : w ++ ("exports".toList ++ (b ++ '=' :: b')) ++ s =
      w ++ ("exports".toList ++ (b ++ '=' :: (b' ++ s))) := by simp
  simp only [whole] at split
  obtain ⟨rfl, tail⟩ := eq_of_exports gap gap' split
  obtain ⟨rfl, rfl⟩ := equals_inj blank blank'' tail
  rw [takeWhile_append_of_all blank' shows] at reads
  exact ⟨d, ds, ends, reads⟩

end

end Modulize.Declaration
