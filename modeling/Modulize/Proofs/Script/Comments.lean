import Mathlib.Data.Prod.Basic
import Modulize.Proofs.Script.CodeChars

/-!
# Comments in scanned texts

What is written in a line comment has next to no part in the code characters of a text, and so in
the ends of its statements and groups. The machine passes a comment whatever it says
(`codeCharsFrom_note`); but where an operand is asked for directly behind the comment, at a slash
with nothing but blanks in between (`AsksBehind`), the machine takes the end of the comment for the
end of the code before it. `sameScan_iff` says that one comment can be exchanged for another exactly
if there is no such slash or an operand may follow both of them.

The exchange can go wrong: a comment that ends in a word makes the slash behind it a division
(`not_sameScan_word`).
-/

namespace Modulize.Script

/-! ## Exchanging comments -/

/-- A text with a line comment between two parts. -/
def withNote (front note back : Text) : Text := front ++ '/' :: '/' :: (note ++ '\n' :: back)

/-- The place of a text with a note that an offset stands for when the note is exchanged. -/
def exchanged (front note note' : Text) (n : Nat) : Nat :=
  if n ≤ front.length then n else n - note.length + note'.length

/-- The offset of a code character and the character. -/
def CodeChar.mark (c : CodeChar) : Nat × Char := (c.offset, c.char)

/-- **A scan takes no notice of what a comment says**: with one note or another it reads the same
characters of code, at places that differ by the lengths of the notes, and statements and groups end
at such places or have no end. -/
structure SameScan (front note note' back : Text) (start : Nat) : Prop where
  chars : (codeChars (withNote front note' back) start).map CodeChar.mark =
    ((codeChars (withNote front note back) start).map CodeChar.mark).map
      (Prod.map (exchanged front note note') id)
  statement : (statementEnd (withNote front note' back) start).toOption =
    (statementEnd (withNote front note back) start).toOption.map (exchanged front note note')
  group : (groupEnd (withNote front note' back) start).toOption =
    (groupEnd (withNote front note back) start).toOption.map (exchanged front note note')

/-- The text begins, blanks aside, with a slash that opens no comment, and only what stands before
the text tells whether it opens a regular expression. -/
def AsksBehind (back : Text) : Prop :=
  ∃ b r, back = b ++ '/' :: r ∧ b.all isBlank = true ∧ r.head? ∉ [some '/', some '*', some '='] ∧
    looksLikeDivision r = false

/-! ## The note -/

variable {note note' : Text}

theorem codeCharsFrom_lineComment (line : '\n' ∉ note) (before : Text) (offset : Nat)
    (back : Text) :
    codeCharsFrom .lineComment false before offset (note ++ '\n' :: back) =
      codeCharsFrom .code false ('\n' :: (note.reverse ++ before)) (offset + note.length + 1)
        back := by
  induction note generalizing before offset with
  | nil => rfl
  | cons c note ih =>
    obtain ⟨other, line⟩ := not_or.1 (mt List.mem_cons.2 line)
    have stays : Context.lineComment.step before c (note ++ '\n' :: back) =
        ⟨.lineComment, false, false⟩ := by simp [Context.step, Ne.symm other]
    have length : offset + 1 + note.length + 1 = offset + (c :: note).length + 1 := by
      rw [List.length_cons]
      omega
    have found := ih line (c :: before) (offset + 1)
    rw [length] at found
    simpa [codeCharsFrom, stays] using found

/-- The code characters behind a note, as if nothing stood before it. -/
def behindNote (note back : Text) : List CodeChar :=
  codeCharsFrom .code false ('\n' :: note.reverse) 0 back

/-- **A comment is passed**, whatever it says; two slashes are no operand. -/
theorem codeCharsFrom_note (line : '\n' ∉ note) (before : Text) (offset : Nat) (back : Text) :
    codeCharsFrom .code false before offset ('/' :: '/' :: (note ++ '\n' :: back)) =
      (behindNote note back).map (CodeChar.move (offset + note.length + 3)) := by
  have slashes : EndsOpen ('/' :: '/' :: before) := by
    rintro _ ⟨⟩
    decide
  have alike := (slashes.looksAlike.append note.reverse).cons '\n'
  rw [List.append_nil] at alike
  have length : offset + 1 + 1 + note.length + 1 = offset + note.length + 3 + 0 := by omega
  calc codeCharsFrom .code false before offset ('/' :: '/' :: (note ++ '\n' :: back))
      = codeCharsFrom .code false ('\n' :: (note.reverse ++ '/' :: '/' :: before))
          (offset + 1 + 1 + note.length + 1) back :=
        codeCharsFrom_lineComment line ('/' :: '/' :: before) (offset + 1 + 1) back
    _ = codeCharsFrom .code false ('\n' :: note.reverse) (offset + note.length + 3 + 0) back := by
        rw [codeCharsFrom_congr (alike.sameSteps back), length]
    _ = (behindNote note back).map (CodeChar.move (offset + note.length + 3)) :=
        codeCharsFrom_move .code false ('\n' :: note.reverse) (offset + note.length + 3) 0 back

/-! ## Behind the note -/

theorem operandMayFollow_append_of_blank {b : Text} (blank : b.all isBlank = true)
    (before : Text) : operandMayFollow (b ++ before) = operandMayFollow before := by
  induction b with
  | nil => rfl
  | cons c b ih =>
    obtain ⟨here, blank⟩ := Bool.and_eq_true_iff.1 blank
    rw [List.cons_append, operandMayFollow_cons_of_isBlank here, ih blank]

/-- Behind characters not all of which are blanks, it does not matter what an operand followed. -/
theorem looksAlike_append_of_inked {before before' near : Text}
    (word : before.takeWhile isIdent = before'.takeWhile isIdent)
    (inked : near.all isBlank = false) : LooksAlike (near ++ before) (near ++ before') := by
  induction near with
  | nil => cases inked
  | cons c near ih =>
    cases rest : near.all isBlank with
    | false => exact (ih rest).cons c
    | true =>
      rw [List.all_cons, rest, Bool.and_true] at inked
      refine LooksAlike.of_word ?_ inked
      clear ih
      induction near with
      | nil => exact word
      | cons a near ih =>
        obtain ⟨here, rest⟩ := Bool.and_eq_true_iff.1 rest
        simp [isIdent_eq_false_of_isBlank here]

/-- The steps behind two notes are the same if it is not asked what may follow them, or the same may
follow. -/
theorem sameSteps_of_operand {back : Text}
    (h : AsksBehind back → operandMayFollow note.reverse = operandMayFollow note'.reverse) :
    SameSteps ('\n' :: note.reverse) ('\n' :: note'.reverse) back := by
  intro x a y split ctx
  cases blank : x.all isBlank with
  | false =>
    refine step_congr (looksAlike_append_of_inked ?_ ?_).operand ctx a y
    · rfl
    · rwa [List.all_reverse]
  | true =>
    by_cases asks : AsksBehind back
    · have reverse : x.reverse.all isBlank = true := by rwa [List.all_reverse]
      refine step_congr ?_ ctx a y
      rw [operandMayFollow_append_of_blank reverse, operandMayFollow_append_of_blank reverse,
        operandMayFollow_cons_of_isBlank rfl, operandMayFollow_cons_of_isBlank rfl, h asks]
    · -- the character is no slash, or what follows it tells what it is
      by_cases slash : a = '/'
      · subst slash
        by_cases head : y.head? ∈ [some '/', some '*', some '=']
        · simp only [List.mem_cons, List.not_mem_nil, or_false] at head
          rcases head with head | head | head <;> cases ctx <;>
            simp [Context.step, opensRegex, head]
        · have division : looksLikeDivision y = true :=
            Bool.not_eq_false _ ▸ fun plain => asks ⟨x, y, split, blank, head, plain⟩
          cases ctx <;> simp [Context.step, opensRegex, division]
      · cases ctx <;> simp [Context.step, slash]

theorem behindNote_congr {back : Text}
    (h : AsksBehind back → operandMayFollow note.reverse = operandMayFollow note'.reverse) :
    behindNote note back = behindNote note' back :=
  codeCharsFrom_congr (sameSteps_of_operand h) .code false 0

theorem isStop_slash : IsStop '/' := ⟨rfl, by decide, by decide⟩

/-- A slash that asks for what stands before it is code exactly if no operand may follow that. -/
theorem mem_behindNote_iff (note : Text) {b r : Text} (blank : b.all isBlank = true)
    (head : r.head? ∉ [some '/', some '*', some '=']) (plain : looksLikeDivision r = false) :
    (b.length, '/') ∈ (behindNote note (b ++ '/' :: r)).map CodeChar.mark ↔
      operandMayFollow note.reverse = false := by
  obtain ⟨cs, -, -, within, split, -⟩ := Scan.exists_codeChars_stop isStop_slash .outside
    ('\n' :: note.reverse) 0 b r r
  have code : Scan.outside.run ('\n' :: note.reverse) b ('/' :: r) = .outside :=
    Scan.run_of_blank 0 _ blank _
  rw [code, Nat.zero_add, Scan.codeChars_cons] at split
  have reads : Scan.outside.readsCode (b.reverse ++ '\n' :: note.reverse) '/' r =
      !operandMayFollow note.reverse := by
    have reverse : b.reverse.all isBlank = true := by rwa [List.all_reverse]
    simp only [List.mem_cons, List.not_mem_nil, or_false, not_or] at head
    obtain ⟨slash, star, equals⟩ := head
    cases operand : operandMayFollow note.reverse <;>
      simp [Scan.readsCode, Scan.outside, Context.step, opensRegex, slash, star, equals, plain,
        operandMayFollow_append_of_blank reverse, operandMayFollow_cons_of_isBlank (a := '\n') rfl,
        operand]
  have front : (b.length, '/') ∉ cs.map CodeChar.mark := by
    intro mem
    obtain ⟨c, hc, e⟩ := List.mem_map.1 mem
    have := within c hc
    have : c.offset = b.length := congrArg Prod.fst e
    omega
  have later : (b.length, '/') ∉ ((Scan.outside.next (b.reverse ++ '\n' :: note.reverse) '/'
      r).codeChars ('/' :: (b.reverse ++ '\n' :: note.reverse)) (b.length + 1) r).map
        CodeChar.mark := by
    intro mem
    obtain ⟨c, hc, e⟩ := List.mem_map.1 mem
    have := Scan.le_offset_of_mem_codeChars hc
    have : c.offset = b.length := congrArg Prod.fst e
    omega
  have split : behindNote note (b ++ '/' :: r) = _ := split
  rw [split, List.map_append, List.map_append, List.mem_append, List.mem_append, reads]
  cases operandMayFollow note.reverse <;> simp [front, later, CodeChar.mark]

/-- **What is read behind two notes is the same** exactly if it is not asked what may follow them,
or the same may follow. -/
theorem behindNote_marks_iff (back : Text) :
    (behindNote note' back).map CodeChar.mark = (behindNote note back).map CodeChar.mark ↔
      (AsksBehind back → operandMayFollow note.reverse = operandMayFollow note'.reverse) := by
  constructor
  · rintro same ⟨b, r, rfl, blank, head, plain⟩
    have here := mem_behindNote_iff note blank head plain
    have there := mem_behindNote_iff note' blank head plain
    rw [same, here] at there
    cases h : operandMayFollow note.reverse <;> cases h' : operandMayFollow note'.reverse <;>
      simp_all
  · intro h
    rw [behindNote_congr h]

/-! ## The whole text -/

section Whole

variable {front back : Text} {start : Nat}

/-- The code characters of a text with a note: those in front of it and those behind it. -/
theorem exists_codeChars_withNote (within : start ≤ front.length) (line : '\n' ∉ note)
    (line' : '\n' ∉ note') {d : Int}
    (code : Scan.outside.run (front.take start).reverse (front.drop start)
      ('/' :: '/' :: (note ++ '\n' :: back)) = ⟨.code, false, d⟩) :
    ∃ cs cs', List.Forall₂ (Corresponds id) cs cs' ∧ (∀ c ∈ cs, c.offset < front.length) ∧
      codeChars (withNote front note back) start =
        cs ++ (behindNote note back).map (CodeChar.move (front.length + note.length + 3)) ∧
      codeChars (withNote front note' back) start =
        cs' ++ (behindNote note' back).map (CodeChar.move (front.length + note'.length + 3)) := by
  obtain ⟨cs, cs', same, before, split, split'⟩ := Scan.exists_codeChars_stop isStop_slash
    .outside (front.take start).reverse start (front.drop start) ('/' :: (note ++ '\n' :: back))
    ('/' :: (note' ++ '\n' :: back))
  have length : start + (front.drop start).length = front.length := by
    rw [List.length_drop]
    omega
  have taken (u : Text) : (withNote front u back).take start = front.take start :=
    List.take_append_of_le_length within
  have dropped (u : Text) : (withNote front u back).drop start =
      front.drop start ++ '/' :: '/' :: (u ++ '\n' :: back) := List.drop_append_of_le_length within
  rw [code, length] at split split'
  rw [length] at before
  refine ⟨cs, cs', same, before, ?_, ?_⟩
  · rw [codeChars, taken, dropped]
    exact split.trans (congrArg _ (codeCharsFrom_note line _ _ back))
  · rw [codeChars, taken, dropped]
    exact split'.trans (congrArg _ (codeCharsFrom_note line' _ _ back))

theorem exchanged_of_lt {n : Nat} (h : n < front.length) : exchanged front note note' n = n :=
  if_pos (Nat.le_of_lt h)

theorem exchanged_behind (n : Nat) :
    exchanged front note note' (front.length + note.length + 3 + n) =
      front.length + note'.length + 3 + n := by
  rw [exchanged, if_neg (by omega)]
  omega

/-- An end that is found lies behind a code character. -/
theorem exists_of_endAmong {ends : Int → Char → Text → Bool} {depth : Int} {cs : List CodeChar}
    {e : Nat} (h : endAmong ends depth cs = some e) : ∃ c ∈ cs, e = c.offset + 1 := by
  induction cs generalizing depth with
  | nil => cases h
  | cons c cs ih =>
    rw [endAmong] at h
    split at h
    · exact ⟨c, List.mem_cons_self, (Option.some.inj h).symm⟩
    · obtain ⟨c', hc', e⟩ := ih h
      exact ⟨c', List.mem_cons_of_mem _ hc', e⟩

/-- If the same is read behind two notes, scans over the two texts come to the same ends, but for
the lengths of the notes. -/
theorem endAmong_exchanged {ends : Int → Char → Text → Bool} (asks : AsksParagraph ends)
    {cs cs' : List CodeChar} (same : List.Forall₂ (Corresponds id) cs cs')
    (before : ∀ c ∈ cs, c.offset < front.length)
    (behind : behindNote note back = behindNote note' back) :
    endAmong ends 0
        (cs' ++ (behindNote note' back).map (CodeChar.move (front.length + note'.length + 3))) =
      (endAmong ends 0 (cs ++ (behindNote note back).map
        (CodeChar.move (front.length + note.length + 3)))).map (exchanged front note note') := by
  have first : List.Forall₂ (Corresponds (exchanged front note note')) cs cs' := by
    refine ((List.forall₂_and_left cs cs').2 ⟨before, same⟩).imp fun c c' h => ?_
    exact ⟨h.2.offset.trans (exchanged_of_lt h.1).symm, h.2.char, h.2.paragraph⟩
  have second : List.Forall₂ (Corresponds (exchanged front note note'))
      ((behindNote note back).map (CodeChar.move (front.length + note.length + 3)))
      ((behindNote note' back).map (CodeChar.move (front.length + note'.length + 3))) := by
    rw [List.forall₂_map_left_iff, List.forall₂_map_right_iff, behind]
    exact List.forall₂_same.2 fun c _ => ⟨(exchanged_behind c.offset).symm, rfl, rfl⟩
  rw [endAmong_of_forall₂ asks (List.rel_append first second)]
  refine Option.map_congr fun e he => ?_
  obtain ⟨c, hc, rfl⟩ := exists_of_endAmong he
  rw [Nat.add_sub_cancel]
  rcases List.mem_append.1 hc with hc | hc
  · have lt := before c hc
    rw [exchanged_of_lt lt, exchanged, if_pos (Nat.succ_le_of_lt lt)]
  · obtain ⟨c', -, rfl⟩ := List.mem_map.1 hc
    have place : (c'.move (front.length + note.length + 3)).offset =
        front.length + note.length + 3 + c'.offset := rfl
    rw [place, exchanged_behind, Nat.add_assoc, Nat.add_assoc _ c'.offset, exchanged_behind]

theorem toOption_eq_end (t : Text) (start : Nat) :
    (statementEnd t start).toOption = endAmong isStatementEnd 0 (codeChars t start) ∧
      (groupEnd t start).toOption = endAmong isGroupEnd 0 (codeChars t start) := by
  rw [statementEnd, statementEndAmong_eq_endAmong, groupEnd, groupEndAmong_eq_endAmong]
  constructor
  · cases endAmong isStatementEnd 0 (codeChars t start) <;> rfl
  · cases endAmong isGroupEnd 0 (codeChars t start) <;> rfl

/-- **What a comment says does not matter** to scans that come to it in code, exactly if no slash
directly behind it asks what may follow the comment, or the same may follow. -/
theorem sameScan_iff (within : start ≤ front.length) (line : '\n' ∉ note) (line' : '\n' ∉ note')
    (code : ∃ d, Scan.outside.run (front.take start).reverse (front.drop start)
      ('/' :: '/' :: (note ++ '\n' :: back)) = ⟨.code, false, d⟩) :
    SameScan front note note' back start ↔
      (AsksBehind back → operandMayFollow note.reverse = operandMayFollow note'.reverse) := by
  obtain ⟨d, code⟩ := code
  obtain ⟨cs, cs', same, before, split, split'⟩ := exists_codeChars_withNote within line line' code
  have first : cs'.map CodeChar.mark =
      (cs.map CodeChar.mark).map (Prod.map (exchanged front note note') id) := by
    clear split split'
    induction same with
    | nil => rfl
    | cons h _ ih =>
      obtain ⟨lt, before⟩ := List.forall_mem_cons.1 before
      rw [List.map_cons, List.map_cons, List.map_cons, ih before]
      refine congrArg (· :: _) (Prod.ext ?_ h.char)
      exact h.offset.trans (exchanged_of_lt lt).symm
  -- what stands in front of the comments is the same, so only what follows them is compared
  have chars : (codeChars (withNote front note' back) start).map CodeChar.mark =
      ((codeChars (withNote front note back) start).map CodeChar.mark).map
        (Prod.map (exchanged front note note') id) ↔
      (behindNote note' back).map CodeChar.mark = (behindNote note back).map CodeChar.mark := by
    have moved (u : Text) (k : Nat) : ((behindNote u back).map (CodeChar.move k)).map CodeChar.mark =
        ((behindNote u back).map CodeChar.mark).map (Prod.map (k + ·) id) := by
      rw [List.map_map, List.map_map]
      rfl
    have injective (k : Nat) : Function.Injective (Prod.map (k + ·) id : Nat × Char → Nat × Char) :=
      Function.Injective.prodMap (fun _ _ => Nat.add_left_cancel) Function.injective_id
    have place (marks : List (Nat × Char)) :
        (marks.map (Prod.map (front.length + note.length + 3 + ·) id)).map
          (Prod.map (exchanged front note note') id) =
        marks.map (Prod.map (front.length + note'.length + 3 + ·) id) := by
      rw [List.map_map]
      exact List.map_congr_left fun m _ => Prod.ext (exchanged_behind m.1) rfl
    rw [split, split', List.map_append, List.map_append, List.map_append, ← first,
      List.append_cancel_left_eq, moved, moved, place]
    exact (List.map_injective_iff.2 (injective _)).eq_iff
  rw [← behindNote_marks_iff, ← chars]
  refine ⟨SameScan.chars, fun same' => ?_⟩
  have behind : behindNote note back = behindNote note' back :=
    behindNote_congr ((behindNote_marks_iff back).1 (chars.1 same'))
  refine ⟨same', ?_, ?_⟩
  · rw [(toOption_eq_end _ _).1, (toOption_eq_end _ _).1, split, split']
    exact endAmong_exchanged asksParagraph_isStatementEnd same before behind
  · rw [(toOption_eq_end _ _).2, (toOption_eq_end _ _).2, split, split']
    exact endAmong_exchanged asksParagraph_isGroupEnd same before behind

/-- The theorem for a comment between a bracket and a regular expression, which may say whatever
ends in no operand. -/
theorem sameScan_iff_regex : SameScan "f(a, " "" " the pattern:" " /[)]/);" 1 :=
  (sameScan_iff (by decide) (by decide) (by decide) ⟨1, by rfl⟩).2 fun _ => by decide

/-- A comment can change what is read behind it: when it ends in a word, the slash on the next line
divides, and the group ends inside of the regular expression. -/
theorem not_sameScan_word :
    Scan.outside.run "f".toList.reverse "(a, " "// the pattern\n /[)]/);" = ⟨.code, false, 1⟩ ∧
      groupEnd "f(a, // the pattern:\n /[)]/);" 1 = .ok 28 ∧
      groupEnd "f(a, // the pattern\n /[)]/);" 1 = .ok 25 ∧
      ¬ SameScan "f(a, " " the pattern:" " the pattern" " /[)]/);" 1 := by
  have long : groupEnd "f(a, // the pattern:\n /[)]/);" 1 = .ok 28 := by rfl
  have short : groupEnd "f(a, // the pattern\n /[)]/);" 1 = .ok 25 := by rfl
  refine ⟨by rfl, long, short, fun same => ?_⟩
  have group : (groupEnd "f(a, // the pattern\n /[)]/);" 1).toOption =
      (groupEnd "f(a, // the pattern:\n /[)]/);" 1).toOption.map _ := same.group
  rw [long, short] at group
  exact absurd group (by decide)

end Whole

end Modulize.Script
