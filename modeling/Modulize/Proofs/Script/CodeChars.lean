import Mathlib.Data.List.Forall2
import Modulize.Proofs.Script.Local

/-!
# The code characters of two texts

The code characters of two texts may correspond to each other (`Corresponds`): they are the same
characters at places that are told from one another, and a paragraph ends behind both or neither.
Scans over corresponding characters come to corresponding ends (`endAmong_of_forall₂`).

Two texts that are the same up to a stop have corresponding code characters up to there, and the
scan is in the same state then (`exists_codeChars_stop`).
-/

namespace Modulize.Script

/-! ## Corresponding characters -/

/-- A code character of one text and one of another, given where the places of the one text are in
the other. -/
structure Corresponds (place : Nat → Nat) (c c' : CodeChar) : Prop where
  offset : c'.offset = place c.offset
  char : c'.char = c.char
  paragraph : endsParagraph c'.rest = endsParagraph c.rest

/-- A rule for ends that asks of the text behind a character only whether a paragraph ends there. -/
def AsksParagraph (ends : Int → Char → Text → Bool) : Prop :=
  ∀ depth c rest rest', endsParagraph rest = endsParagraph rest' →
    ends depth c rest = ends depth c rest'

theorem asksParagraph_isGroupEnd : AsksParagraph isGroupEnd := fun _ _ _ _ _ => rfl

theorem asksParagraph_isStatementEnd : AsksParagraph isStatementEnd := by
  intro depth c rest rest' h
  rw [isStatementEnd, h, isStatementEnd]

/-- Scans over corresponding characters come to corresponding ends. -/
theorem endAmong_of_forall₂ {ends : Int → Char → Text → Bool} (asks : AsksParagraph ends)
    {place : Nat → Nat} {cs cs' : List CodeChar} (h : List.Forall₂ (Corresponds place) cs cs')
    (depth : Int) :
    endAmong ends depth cs' = (endAmong ends depth cs).map fun e => place (e - 1) + 1 := by
  induction h generalizing depth with
  | nil => rfl
  | cons first _ ih =>
    rw [endAmong, endAmong, first.char, asks depth _ _ _ first.paragraph, first.offset]
    split
    · rfl
    · exact ih _

/-! ## Code characters behind a state -/

namespace Scan

/-- The code characters that a scan reads from a state on. -/
def codeChars (σ : Scan) (before : Text) (offset : Nat) (rest : Text) : List CodeChar :=
  codeCharsFrom σ.context σ.taken before offset rest

theorem codeChars_cons (σ : Scan) (before : Text) (offset : Nat) (c : Char) (rest : Text) :
    σ.codeChars before offset (c :: rest) =
      (if σ.readsCode before c rest then [⟨offset, c, rest⟩] else []) ++
        (σ.next before c rest).codeChars (c :: before) (offset + 1) rest := by
  obtain ⟨context, taken, depth⟩ := σ
  cases taken with
  | true => rfl
  | false =>
    cases code : (context.step before c rest).isCode <;>
      simp [codeChars, codeCharsFrom, readsCode, next, code]

/-- Every code character lies at the place where the scan begins or behind it. -/
theorem le_offset_of_mem_codeChars {σ : Scan} {before rest : Text} {offset : Nat} {c : CodeChar}
    (h : c ∈ σ.codeChars before offset rest) : offset ≤ c.offset := by
  obtain ⟨piece, -, place⟩ := exists_of_mem_codeCharsFrom h
  omega

/-- A scan in code is in the same state behind a character that is a token by itself. -/
theorem next_of_isSingle {c : Char} (h : isSingle c = true) (d : Int) (before rest : Text) :
    (⟨.code, false, d⟩ : Scan).next before c rest = ⟨.code, false, d⟩ := by
  simp only [isSingle, Bool.and_eq_true, Bool.not_eq_true', bne_iff_ne] at h
  obtain ⟨⟨⟨⟨quote, slash⟩, opening⟩, closing⟩, -⟩ := h
  simp [next, Context.step, slash, quote, depthAfter, opening, closing]

/-- A scan in code is in the same state behind characters that are tokens by themselves. -/
theorem run_of_isSingle (d : Int) (before : Text) {piece : Text}
    (single : piece.all isSingle = true) (rest : Text) :
    (⟨.code, false, d⟩ : Scan).run before piece rest = ⟨.code, false, d⟩ := by
  induction piece generalizing before with
  | nil => rfl
  | cons c piece ih =>
    obtain ⟨here, single⟩ := Bool.and_eq_true_iff.1 single
    rw [run, next_of_isSingle here, ih _ single]

/-- A scan in code is in the same state behind blanks. -/
theorem run_of_blank (d : Int) (before : Text) {piece : Text} (blank : piece.all isBlank = true)
    (rest : Text) : (⟨.code, false, d⟩ : Scan).run before piece rest = ⟨.code, false, d⟩ :=
  run_of_isSingle d before
    (List.all_eq_true.2 fun a ha => isSingle_of_isBlank (List.all_eq_true.1 blank a ha)) rest

/-! ## In front of a stop -/

variable {stop : Char}

/-- **Two texts that are the same up to a stop** have corresponding code characters up to there. -/
theorem exists_codeChars_stop (hstop : IsStop stop) (σ : Scan) (before : Text) (offset : Nat)
    (piece r r' : Text) :
    ∃ cs cs', List.Forall₂ (Corresponds id) cs cs' ∧ (∀ c ∈ cs, c.offset < offset + piece.length) ∧
      (σ.codeChars before offset (piece ++ stop :: r) =
        cs ++ (σ.run before piece (stop :: r)).codeChars (piece.reverse ++ before)
          (offset + piece.length) (stop :: r)) ∧
      σ.codeChars before offset (piece ++ stop :: r') =
        cs' ++ (σ.run before piece (stop :: r)).codeChars (piece.reverse ++ before)
          (offset + piece.length) (stop :: r') := by
  induction piece generalizing σ before offset with
  | nil => exact ⟨[], [], .nil, by simp, rfl, rfl⟩
  | cons c piece ih =>
    have step := step_append hstop σ.context before c piece r' r
    have next : σ.next before c (piece ++ stop :: r') = σ.next before c (piece ++ stop :: r) := by
      rw [Scan.next, step, Scan.next]
    have reads : σ.readsCode before c (piece ++ stop :: r') =
        σ.readsCode before c (piece ++ stop :: r) := by
      rw [readsCode, step, readsCode]
    obtain ⟨cs, cs', same, within, split, split'⟩ :=
      ih (σ.next before c (piece ++ stop :: r)) (c :: before) (offset + 1)
    have length : offset + 1 + piece.length = offset + (c :: piece).length := by
      rw [List.length_cons]
      omega
    rw [length] at within split split'
    have place : offset < offset + (c :: piece).length := by
      rw [List.length_cons]
      omega
    have past : piece.reverse ++ c :: before = (c :: piece).reverse ++ before := by simp
    rw [past] at split split'
    rw [List.cons_append, List.cons_append, codeChars_cons σ before offset c (piece ++ stop :: r),
      codeChars_cons σ before offset c (piece ++ stop :: r'), next, reads, split, split']
    cases σ.readsCode before c (piece ++ stop :: r) with
    | true =>
      have first : Corresponds id ⟨offset, c, piece ++ stop :: r⟩ ⟨offset, c, piece ++ stop :: r'⟩ :=
        ⟨rfl, rfl, endsParagraph_append hstop piece r' r⟩
      exact ⟨_ :: cs, _ :: cs', .cons first same, List.forall_mem_cons.2 ⟨place, within⟩, rfl, rfl⟩
    | false => exact ⟨cs, cs', same, within, rfl, rfl⟩

end Scan

end Modulize.Script
