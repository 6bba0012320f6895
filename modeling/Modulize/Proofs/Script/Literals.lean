import Mathlib.Data.List.Forall2
import Modulize.Proofs.Script.Releaded

/-!
# The literals of a text

`Scan.literals` collects the string and template literals that a scan goes through, with the marks
around them. `literals` are those of a text between braces.

The scan does not know how a text is laid out, and a rule for the beginnings of lines does not know
of literals: the literals of a text with other beginnings of lines are the old ones, with the rule
applied to every line of them but the first (`Releaded.literals`). Blanks around a text make no
difference (`literals_around`).
-/

namespace Modulize.Script

/-! ## Collecting literals -/

/-- A literal is open. -/
def Context.isQuoted : Context → Bool
  | .quoted _ => true
  | _ => false

namespace Scan

/-- What is left of the literal that is open, and the literals behind it, in a piece of text between
`before` (in reverse) and `rest`. -/
def literals : Scan → Text → Text → Text → Text × List Text
  | _, _, [], _ => ([], [])
  | σ, before, c :: piece, rest =>
    let τ := σ.next before c (piece ++ rest)
    let (here, later) := literals τ (c :: before) piece rest
    if σ.context.isQuoted then (c :: here, later)
    else if τ.context.isQuoted then ([], (c :: here) :: later)
    else ([], later)

variable {σ τ : Scan} {before before' piece rest rest' : Text}

theorem literals_fst (h : σ.context.isQuoted = false) (before piece rest : Text) :
    (σ.literals before piece rest).1 = [] := by
  cases piece with
  | nil => rfl
  | cons c piece =>
    simp only [literals, h, Bool.false_eq_true, if_false]
    split <;> rfl

/-- The rest of a literal begins as the text does. -/
theorem head?_literals_fst (h : σ.context.isQuoted = true) (before piece rest : Text) :
    (σ.literals before piece rest).1.head? = piece.head? := by
  cases piece with
  | nil => rfl
  | cons c piece => simp only [literals, h, if_true, List.head?_cons]

/-- The literals of two pieces, if none is open between them. -/
theorem literals_append {p q : Text}
    (closed : (σ.run before p (q ++ rest)).context.isQuoted = false) :
    σ.literals before (p ++ q) rest = ((σ.literals before p (q ++ rest)).1,
      (σ.literals before p (q ++ rest)).2 ++
        ((σ.run before p (q ++ rest)).literals (p.reverse ++ before) q rest).2) := by
  induction p generalizing σ before with
  | nil => exact Prod.ext (literals_fst closed before q rest) rfl
  | cons c p ih =>
    have later := @ih (σ.next before c (p ++ (q ++ rest))) (c :: before) closed
    rw [List.cons_append, literals, literals, List.append_assoc, later, run, List.reverse_cons,
      List.append_assoc]
    simp only
    split
    · rfl
    · split <;> rfl

/-- Two states that differ in the number of open brackets at most. -/
def Agrees (σ τ : Scan) : Prop := σ.context = τ.context ∧ σ.taken = τ.taken

theorem Agrees.exists_code {d : Int} (h : σ.Agrees ⟨.code, false, d⟩) :
    ∃ d', σ = ⟨.code, false, d'⟩ := by
  obtain ⟨context, taken, depth⟩ := σ
  obtain ⟨rfl, rfl⟩ : context = .code ∧ taken = false := h
  exact ⟨depth, rfl⟩

theorem Agrees.next (h : σ.Agrees τ) (before : Text) (c : Char) (after : Text) :
    (σ.next before c after).Agrees (τ.next before c after) := by
  obtain ⟨context, taken, depth⟩ := σ
  obtain ⟨context', taken', depth'⟩ := τ
  obtain ⟨rfl, rfl⟩ : context = context' ∧ taken = taken' := h
  cases taken <;> exact ⟨rfl, rfl⟩

/-- Open brackets make no difference to literals. -/
theorem Agrees.literals (h : σ.Agrees τ) (before piece rest : Text) :
    (σ.run before piece rest).Agrees (τ.run before piece rest) ∧
      σ.literals before piece rest = τ.literals before piece rest := by
  induction piece generalizing σ τ before with
  | nil => exact ⟨h, rfl⟩
  | cons c piece ih =>
    have next := h.next before c (piece ++ rest)
    obtain ⟨run, same⟩ := ih next (c :: before)
    refine ⟨run, ?_⟩
    rw [Scan.literals, Scan.literals, same, h.1, next.1]

/-- In code or in a line comment, between two characters. -/
def IsSettled (σ : Scan) : Prop :=
  σ.taken = false ∧ (σ.context = .code ∨ σ.context = .lineComment)

theorem IsSettled.isQuoted (h : σ.IsSettled) : σ.context.isQuoted = false := by
  rcases h.2 with code | line
  · rw [code]
    rfl
  · rw [line]
    rfl

theorem sound_inside (rest : Text) : inside.Sound rest := sound_code 1 rest

theorem isSettled_inside : inside.IsSettled := ⟨rfl, Or.inl rfl⟩

theorem isSettled_of_eq (h : σ = inside ∨ σ = note) : σ.IsSettled := by
  rcases h with rfl | rfl
  · exact ⟨rfl, Or.inl rfl⟩
  · exact ⟨rfl, Or.inr rfl⟩

/-- There are no literals in blanks, in code or in a line comment. -/
theorem literals_blank (h : σ.IsSettled) (blank : piece.all isBlank = true) (before rest : Text) :
    (σ.run before piece rest).IsSettled ∧ (σ.literals before piece rest).2 = [] := by
  induction piece generalizing σ before with
  | nil => exact ⟨h, rfl⟩
  | cons a piece ih =>
    obtain ⟨here, blank⟩ := Bool.and_eq_true_iff.1 blank
    obtain ⟨context, taken, depth⟩ := σ
    obtain ⟨rfl, state⟩ : taken = false ∧ _ := h
    have next : ((⟨context, false, depth⟩ : Scan).next before a (piece ++ rest)).IsSettled := by
      rcases state with rfl | rfl
      · rw [next_of_isSingle (isSingle_of_isBlank here)]
        exact ⟨rfl, Or.inl rfl⟩
      · by_cases newline : a = '\n'
        · exact ⟨rfl, Or.inl (if_pos newline)⟩
        · exact ⟨rfl, Or.inr (if_neg newline)⟩
    obtain ⟨run, none⟩ := ih next blank (a :: before)
    refine ⟨run, ?_⟩
    have open' : (⟨context, false, depth⟩ : Scan).context.isQuoted = false :=
      IsSettled.isQuoted ⟨rfl, state⟩
    rw [literals, open', next.isQuoted]
    exact none

/-- Spaces and tabs belong to the literal that is open. -/
theorem literals_gap_append {w : Text} (gap : w.all isSpaceOrTab = true)
    (sound : σ.Sound (w ++ (piece ++ rest))) (free : σ.taken = false) (before : Text) :
    σ.run before (w ++ piece) rest = σ.run (w.reverse ++ before) piece rest ∧
      (σ.literals before (w ++ piece) rest).2 = (σ.literals (w.reverse ++ before) piece rest).2 ∧
      (σ.context.isQuoted = true → (σ.literals before (w ++ piece) rest).1 =
        w ++ (σ.literals (w.reverse ++ before) piece rest).1) := by
  induction w generalizing before with
  | nil => exact ⟨rfl, rfl, fun _ => rfl⟩
  | cons a w ih =>
    obtain ⟨here, gap⟩ := Bool.and_eq_true_iff.1 gap
    have still : σ.next before a (w ++ (piece ++ rest)) = σ :=
      next_of_isSpaceOrTab here sound free before _
    obtain ⟨run, later, first⟩ := ih gap (still ▸ sound.next) (a :: before)
    have past : w.reverse ++ a :: before = (a :: w).reverse ++ before := by simp
    rw [past] at run later first
    rw [List.cons_append, Scan.run, literals, List.append_assoc, still]
    refine ⟨run, ?_, fun isQuoted => ?_⟩
    · simp only
      split
      · exact later
      · exact later
    · simp only [isQuoted, if_true, List.cons_append, first isQuoted]

end Scan

/-- Blanks at the beginning of a line make no difference to the text behind them. -/
theorem LooksAlike.blank_append {before before' w : Text} (h : LooksAlike before before')
    (blank : w.all isBlank = true) (word : before.takeWhile isIdent = []) :
    LooksAlike (w ++ before) before' := by
  induction w with
  | nil => exact h
  | cons a w ih =>
    obtain ⟨here, blank⟩ := Bool.and_eq_true_iff.1 blank
    have ident := isIdent_eq_false_of_isBlank here
    have behind := ih blank
    refine ⟨?_, ?_⟩
    · rw [← h.word, word, List.cons_append, List.takeWhile_cons_of_neg (by simp [ident])]
    · rw [List.cons_append, operandMayFollow_cons_of_isBlank here, behind.operand]

namespace Releaded

variable {f : Text → Bool → Text} {fresh : Bool} {x x' r r' before before' : Text} {σ : Scan}

/-- **The literals of a text with other beginnings of lines** are the same literals with other
beginnings of lines, and the scan comes to the same state. -/
theorem literals_forall₂ (rule : IsGapRule f) (h : Releaded f fresh x x') (closes : ClosesNext r)
    (closes' : ClosesNext r') (alike : LooksAlike before before') (sound : σ.Sound (x ++ r))
    (line : fresh = true → σ.taken = false ∧ before.takeWhile isIdent = []) :
    σ.run before x r = σ.run before' x' r' ∧
      List.Forall₂ (Releaded f false) (σ.literals before x r).2 (σ.literals before' x' r').2 ∧
      (σ.context.isQuoted = true →
        Releaded f fresh (σ.literals before x r).1 (σ.literals before' x' r').1) := by
  induction h generalizing σ before before' with
  | nil => exact ⟨rfl, .nil, fun _ => .nil⟩
  | @cons a x x' rest ih =>
    have step := (rest.relaid rule).step_eq closes closes' σ.context before
    have step' := step_congr alike.operand σ.context a
    have next : σ.next before a (x ++ r) = σ.next before' a (x' ++ r') := by
      rw [Scan.next, step, step', Scan.next]
    obtain ⟨run, later, here⟩ := ih (σ := σ.next before a (x ++ r)) (alike.cons a) sound.next
      fun newline => by
        obtain rfl := eq_of_beq newline
        exact ⟨Scan.taken_next_newline _ _ _, rfl⟩
    rw [next] at run later here
    refine ⟨by rw [Scan.run, Scan.run, next, run], ?_, fun isQuoted => ?_⟩
    · simp only [Scan.literals, next]
      split
      · exact later
      · split
        · rename_i opens
          exact .cons (.cons a (here opens)) later
        · exact later
    · simp only [Scan.literals, next, isQuoted, if_true]
      cases opens : (σ.next before' a (x' ++ r')).context.isQuoted with
      | true => exact .cons a (here opens)
      | false =>
        rw [Scan.literals_fst (next ▸ opens), Scan.literals_fst opens]
        exact .cons a (empty rule _)
  | @lead w x x' gap shows rest ih =>
    obtain ⟨free, word⟩ := line rfl
    have put := rule.gap w (inked x) gap
    generalize hv : f w (inked x) = v at put
    have blank := isBlank_of_gap gap
    have blank' := isBlank_of_gap put
    have word' : before'.takeWhile isIdent = [] := alike.word ▸ word
    have alike' : LooksAlike (w.reverse ++ before) (v.reverse ++ before') :=
      ((alike.symm.blank_append (by rwa [List.all_reverse]) word').symm.blank_append
        (by rwa [List.all_reverse]) word)
    have sound' (rest : Text) : σ.Sound rest :=
      ⟨fun _ taken => absurd (free.symm.trans taken) Bool.false_ne_true, sound.quote, sound.line⟩
    obtain ⟨run, later, here⟩ := ih alike' (sound' _) fun fresh => absurd fresh Bool.false_ne_true
    obtain ⟨runs, laters, firsts⟩ := Scan.literals_gap_append gap (sound' (w ++ (x ++ r)))
      free before
    obtain ⟨runs', laters', firsts'⟩ := Scan.literals_gap_append put
      (sound' (v ++ (x' ++ r'))) free before'
    refine ⟨by rw [runs, runs', run], by rw [laters, laters']; exact later, fun isQuoted => ?_⟩
    have head := Scan.head?_literals_fst isQuoted (w.reverse ++ before) x r
    have same : inked (σ.literals (w.reverse ++ before) x r).1 = inked x := by
      rw [inked, inked, head]
    have first := Releaded.lead gap (by rwa [head]) (here isQuoted)
    rw [same, hv] at first
    rw [firsts isQuoted, firsts' isQuoted]
    exact first

end Releaded

/-! ## Texts between braces -/

/-- The string and template literals of a text between braces, with their marks. -/
def literals (y : Text) : List Text := (Scan.inside.literals ['{'] y ['}']).2

/-- At the end of the text, between braces, the scan is in code or in a line comment. -/
def Settles (y : Text) : Prop := (Scan.inside.run ['{'] y ['}']).IsSettled

theorem endsOpen_brace : EndsOpen ['{'] := by
  rintro _ ⟨⟩
  decide

theorem eq_map_of_forall₂ {f : Text → Bool → Text} (rule : IsGapRule f) {ls ls' : List Text}
    (h : List.Forall₂ (Releaded f false) ls ls') : ls' = ls.map (mapLater (relead f)) := by
  induction h with
  | nil => rfl
  | cons first _ ih => rw [List.map_cons, ← first.eq_mapLater rule, ← ih]

/-- The surroundings of a text make no difference to its literals. -/
theorem literals_congr {before r y : Text} (opens : EndsOpen before) (closes : ClosesNext r) :
    Scan.inside.run before y r = Scan.inside.run ['{'] y ['}'] ∧
      (Scan.inside.literals before y r).2 = literals y := by
  have rule : IsGapRule fun w _ => w := ⟨fun _ _ gap => gap, rfl⟩
  have same (l : Text) : relead (fun w _ => w) l = l := List.takeWhile_append_dropWhile
  have alike := endsOpen_brace.looksAlike.trans opens.looksAlike.symm
  have braces : ClosesNext ['}'] := .cons rfl []
  have h := Releaded.ofLines_map rule y
  rw [List.map_congr_left fun l _ => same l, List.map_id', Text.ofLines_lines] at h
  obtain ⟨run, later, -⟩ := h.literals_forall₂ rule braces closes alike
    (Scan.sound_inside _) fun _ => ⟨rfl, rfl⟩
  refine ⟨run.symm, (eq_map_of_forall₂ rule later).trans ?_⟩
  have none (l : Text) : mapLater (relead fun w _ => w) l = l :=
    (mapLater_eq_self_iff rule).2 fun k _ => same k
  rw [List.map_congr_left fun l _ => none l, List.map_id']
  rfl

theorem Releaded.literals {f : Text → Bool → Text} (rule : IsGapRule f) {x x' : Text}
    (h : Releaded f true x x') : literals x' = (literals x).map (mapLater (relead f)) ∧
      (Settles x' ↔ Settles x) := by
  have closes : ClosesNext ['}'] := .cons rfl []
  obtain ⟨run, later, -⟩ := h.literals_forall₂ rule closes closes (.refl ['{'])
    (Scan.sound_inside _) fun _ => ⟨rfl, rfl⟩
  exact ⟨eq_map_of_forall₂ rule later, by rw [Settles, Settles, run]⟩

/-- Blanks around a text make no difference to its literals. -/
theorem literals_around {w x w' : Text} (blank : w.all isBlank = true)
    (blank' : w'.all isBlank = true) (settles : Settles x) :
    literals (w ++ (x ++ w')) = literals x ∧ Settles (w ++ (x ++ w')) := by
  have front := Scan.run_of_runWithin (Scan.runWithin_blank blank ['{'] ((x ++ w') ++ ['}']))
  have opens : EndsOpen (w.reverse ++ ['{']) :=
    endsOpen_brace.blank_append (by rwa [List.all_reverse])
  have closes : ClosesNext (w' ++ ['}']) := .blank_append blank' (.cons rfl [])
  obtain ⟨run, same⟩ := literals_congr (y := x) opens closes
  have settled : (Scan.inside.run (w.reverse ++ ['{']) x (w' ++ ['}'])).IsSettled := run ▸ settles
  have first := Scan.literals_blank Scan.isSettled_inside blank ['{'] ((x ++ w') ++ ['}'])
  have last := Scan.literals_blank settled blank' (x.reverse ++ (w.reverse ++ ['{'])) ['}']
  constructor
  · rw [literals, Scan.literals_append (by rw [front]; rfl), front, first.2, List.nil_append,
      Scan.literals_append settled.isQuoted, same, last.2, List.append_nil]
  · rw [Settles, Scan.run_append, front, Scan.run_append]
    exact last.1

/-! ## Statements in a row -/

/-- Up to a mark, the text behind it makes no difference to a scan. -/
theorem Scan.literals_congr_mark {c : Char} (mark : IsEndMark c) {before before' : Text}
    (alike : LooksAlike before before') (σ : Scan) (piece r r' : Text) :
    σ.run before (piece ++ [c]) r = σ.run before' (piece ++ [c]) r' ∧
      σ.literals before (piece ++ [c]) r = σ.literals before' (piece ++ [c]) r' := by
  induction piece generalizing σ before before' with
  | nil =>
    have next : σ.next before c r = σ.next before' c r' := by
      rw [Scan.next, step_congr alike.operand, step_mark mark σ.context before' r r', Scan.next]
    refine ⟨next, ?_⟩
    simp only [List.nil_append, Scan.literals, next]
  | cons a piece ih =>
    have next :
        σ.next before a ((piece ++ [c]) ++ r) = σ.next before' a ((piece ++ [c]) ++ r') := by
      rw [List.append_assoc, List.append_assoc, Scan.next, step_congr alike.operand,
        List.singleton_append, step_append mark.isStop σ.context before' a piece r r', Scan.next]
      rfl
    obtain ⟨run, same⟩ := ih (alike.cons a) (σ.next before' a ((piece ++ [c]) ++ r'))
    refine ⟨by rw [List.cons_append, Scan.run, Scan.run, next, run], ?_⟩
    rw [List.cons_append, Scan.literals, Scan.literals, next, same]

/-- A text that ends with a semicolon, behind which the scan is in code again. -/
structure IsStatement (s : Text) : Prop where
  ends : ∃ p, s = p ++ [';']
  code : ∃ d, Scan.inside.run ['{'] s ['}'] = ⟨.code, false, d⟩

theorem IsStatement.settles {s : Text} (h : IsStatement s) : Settles s := by
  obtain ⟨d, code⟩ := h.code
  rw [Settles, code]
  exact ⟨rfl, Or.inl rfl⟩

/-- A statement has the same literals wherever a statement may begin. -/
theorem IsStatement.run {s before : Text} (h : IsStatement s) (opens : EndsOpen before) (d : Int)
    (r : Text) : (∃ d', (⟨.code, false, d⟩ : Scan).run before s r = ⟨.code, false, d'⟩) ∧
      ((⟨.code, false, d⟩ : Scan).literals before s r).2 = literals s := by
  obtain ⟨d', code⟩ := h.code
  obtain ⟨p, rfl⟩ := h.ends
  have alike := opens.looksAlike.trans endsOpen_brace.looksAlike.symm
  obtain ⟨run, same⟩ := Scan.literals_congr_mark (Or.inl rfl) alike ⟨.code, false, d⟩ p r ['}']
  have agrees : (⟨.code, false, d⟩ : Scan).Agrees Scan.inside := ⟨rfl, rfl⟩
  obtain ⟨run', same'⟩ := agrees.literals ['{'] (p ++ [';']) ['}']
  rw [← run, code] at run'
  refine ⟨run'.exists_code, ?_⟩
  rw [same, same', literals]

/-- **Statements in a row**, each on lines of its own, have their literals in a row. -/
theorem literals_statements {ss : List Text} {y : Text} (h : ∀ s ∈ ss, IsStatement s)
    (settles : Settles y) {before : Text} (opens : EndsOpen before) (d : Int) :
    ((⟨.code, false, d⟩ : Scan).run before (ss.flatMap (· ++ ['\n']) ++ y) ['}']).IsSettled ∧
      ((⟨.code, false, d⟩ : Scan).literals before (ss.flatMap (· ++ ['\n']) ++ y) ['}']).2 =
        ss.flatMap literals ++ literals y := by
  induction ss generalizing before d with
  | nil =>
    have agrees : (⟨.code, false, d⟩ : Scan).Agrees Scan.inside := ⟨rfl, rfl⟩
    obtain ⟨run, same⟩ := agrees.literals before y ['}']
    have closes : ClosesNext ['}'] := .cons rfl []
    obtain ⟨run', same'⟩ := literals_congr (y := y) opens closes
    rw [run'] at run
    refine ⟨⟨run.2.trans settles.1, ?_⟩, ?_⟩
    · exact settles.2.imp run.1.trans run.1.trans
    · exact (congrArg Prod.snd same).trans same'
  | cons s ss ih =>
    obtain ⟨here, h⟩ := List.forall_mem_cons.1 h
    obtain ⟨p, split⟩ := here.ends
    have cut : (s :: ss).flatMap (· ++ ['\n']) ++ y =
        s ++ '\n' :: (ss.flatMap (· ++ ['\n']) ++ y) := by simp
    have opens' : EndsOpen ('\n' :: (s.reverse ++ before)) := by
      rw [split, List.reverse_append]
      rintro _ ⟨⟩
      decide
    obtain ⟨⟨d', run⟩, same⟩ := here.run opens d ('\n' :: (ss.flatMap (· ++ ['\n']) ++ y) ++ ['}'])
    obtain ⟨settled, later⟩ := ih h opens' d'
    rw [cut, Scan.run_append, run, Scan.literals_append (by rw [run]; rfl), run, same,
      List.flatMap_cons, List.append_assoc]
    exact ⟨settled, congrArg (literals s ++ ·) later⟩

/-- Statements in lines of their own, and a text behind them. -/
theorem literals_joinWith {ss : List Text} {y : Text} (h : ∀ s ∈ ss, IsStatement s)
    (settles : Settles y) :
    literals (Text.joinWith ['\n'] (ss ++ if y.isEmpty then [] else [y])) =
        ss.flatMap literals ++ literals y ∧
      Settles (Text.joinWith ['\n'] (ss ++ if y.isEmpty then [] else [y])) := by
  cases y with
  | cons a y =>
    obtain ⟨settled, same⟩ := literals_statements h settles endsOpen_brace 1
    have whole : Text.joinWith ['\n'] (ss ++ if (a :: y).isEmpty then [] else [a :: y]) =
        ss.flatMap (· ++ ['\n']) ++ a :: y := Text.joinWith_concat_eq_flatMap ss (a :: y)
    rw [whole]
    exact ⟨same, settled⟩
  | nil =>
    rcases List.eq_nil_or_concat ss with rfl | ⟨ss, s, rfl⟩
    · exact ⟨rfl, settles⟩
    · rw [List.concat_eq_append] at h ⊢
      obtain ⟨h, last⟩ := List.forall_mem_append.1 h
      obtain ⟨settled, same⟩ :=
        literals_statements h (last s (by simp)).settles endsOpen_brace 1
      have none : literals [] = [] := rfl
      rw [List.isEmpty_nil, if_pos rfl, List.append_nil, Text.joinWith_concat_eq_flatMap, none,
        List.append_nil, List.flatMap_append, List.flatMap_singleton]
      exact ⟨same, settled⟩

end Modulize.Script
