import Modulize.Files.Path
import Modulize.Proofs.Pattern.Lines

/-!
# Written paths

A path that has been read (`Path.IsRead`) is read again from its written form
(`Path.parse_toText`), and no other text that comes from the written form by leaving characters
out is read as this path (`Path.parse_eq_self_iff`): the written form of a path is not longer than
any text that the path is read from (`Path.length_toText_le`).
-/

namespace Modulize

namespace Text

variable {mark : Char}

theorem not_mem_of_mem_splitOn {t piece : Text} (h : piece ∈ splitOn mark t) : mark ∉ piece := by
  induction t generalizing piece with
  | nil =>
    obtain rfl := List.mem_singleton.1 h
    exact List.not_mem_nil
  | cons a t ih =>
    rw [splitOn] at h
    split at h
    · rename_i none
      exact absurd none (splitOn_eq_splitOn mark t ▸ List.splitOn_ne_nil mark t)
    · rename_i first more e
      rw [e] at ih
      split at h
      · rcases List.mem_cons.1 h with rfl | h
        · exact List.not_mem_nil
        · exact ih h
      · rename_i other
        rcases List.mem_cons.1 h with rfl | h
        · have rest : mark ∉ first := ih List.mem_cons_self
          simpa [rest] using Ne.symm other
        · exact ih (List.mem_cons_of_mem _ h)

theorem splitOn_cons_mark (t : Text) : splitOn mark (mark :: t) = [] :: splitOn mark t := by
  simp only [splitOn_eq_splitOn]
  exact List.splitOn_append_cons_self (a := mark) [] t

theorem splitOn_joinWith {pieces : List Text} (h : ∀ piece ∈ pieces, mark ∉ piece)
    (hne : pieces ≠ []) : splitOn mark (joinWith [mark] pieces) = pieces := by
  rw [splitOn_eq_splitOn, joinWith_eq_intercalate]
  exact List.splitOn_intercalate mark h hne

/-- The length of pieces, each with a mark behind it. -/
def pieceLength : List Text → Nat
  | [] => 0
  | piece :: pieces => piece.length + 1 + pieceLength pieces

theorem pieceLength_splitOn (mark : Char) (t : Text) :
    pieceLength (splitOn mark t) = t.length + 1 := by
  induction t with
  | nil => rfl
  | cons a t ih =>
    rw [splitOn]
    split
    · rename_i none
      exact absurd none (splitOn_eq_splitOn mark t ▸ List.splitOn_ne_nil mark t)
    · rename_i first more e
      rw [e, pieceLength] at ih
      split <;> simp only [pieceLength, List.length_cons, List.length_nil] <;> omega

theorem length_joinWith (mark : Char) {pieces : List Text} (hne : pieces ≠ []) :
    (joinWith [mark] pieces).length + 1 = pieceLength pieces := by
  induction pieces with
  | nil => exact absurd rfl hne
  | cons piece pieces ih =>
    cases pieces with
    | nil => simp [joinWith, pieceLength]
    | cons piece' pieces =>
      have rest := ih (List.cons_ne_nil _ _)
      rw [pieceLength, ← rest, joinWith]
      · simp only [List.length_append, List.length_singleton]
        omega
      · simp

theorem pieceLength_filter_le (p : Text → Bool) (pieces : List Text) :
    pieceLength (pieces.filter p) ≤ pieceLength pieces := by
  induction pieces with
  | nil => exact Nat.le_refl _
  | cons piece pieces ih =>
    rw [List.filter_cons]
    split <;> simp only [pieceLength] <;> omega

end Text

namespace Path

/-- The names of the path are what can stand between two slashes: none is empty, a single dot or
contains a slash. -/
def IsRead (p : Path) : Prop := ∀ n ∈ p.names, (n ≠ [] ∧ n ≠ ['.']) ∧ '/' ∉ n

theorem isRead_parse (t : Text) : (parse t).IsRead := by
  intro n hn
  obtain ⟨mem, keeps⟩ := List.mem_filter.1 hn
  exact ⟨by simpa using keeps, Text.not_mem_of_mem_splitOn mem⟩

section

variable {ns : List Text} (h : ∀ n ∈ ns, (n ≠ [] ∧ n ≠ ['.']) ∧ '/' ∉ n)

include h

/-- The names are found between the slashes. -/
theorem filter_splitOn_joinWith :
    (Text.splitOn '/' (Text.joinWith ['/'] ns)).filter (fun n => n ≠ [] ∧ n ≠ ['.']) = ns := by
  by_cases none : ns = []
  · subst none
    rfl
  · rw [Text.splitOn_joinWith (fun n hn => (h n hn).2) none, List.filter_eq_self]
    exact fun n hn => by simpa using (h n hn).1

/-- The names do not begin with a slash. -/
theorem takeWhile_joinWith : (Text.joinWith ['/'] ns).takeWhile (· == '/') = [] := by
  cases ns with
  | nil => rfl
  | cons n ns =>
    obtain ⟨⟨some, -⟩, slash⟩ := h n List.mem_cons_self
    obtain ⟨a, r, rfl⟩ := List.exists_cons_of_ne_nil some
    have other : (a == '/') = false := by
      rw [beq_eq_false_iff_ne]
      rintro rfl
      exact slash List.mem_cons_self
    cases ns with
    | nil => exact List.takeWhile_cons_of_neg (by simp [other])
    | cons n' ns =>
      rw [Text.joinWith, List.append_assoc, List.cons_append]
      · exact List.takeWhile_cons_of_neg (by simp [other])
      · simp

end

/-- **A path is read again from its written form.** -/
theorem parse_toText {p : Path} (h : p.IsRead) : parse p.toText = p := by
  obtain ⟨anchor, ns⟩ := p
  have names := filter_splitOn_joinWith h
  have front := takeWhile_joinWith h
  cases anchor with
  | here =>
    cases ns with
    | nil => rfl
    | cons n ns =>
      have text : toText ⟨.here, n :: ns⟩ = Text.joinWith ['/'] (n :: ns) := rfl
      rw [parse, text, names, front]
      rfl
  | root =>
    have text : toText ⟨.root, ns⟩ = '/' :: Text.joinWith ['/'] ns := rfl
    have slashes : ('/' :: Text.joinWith ['/'] ns).takeWhile (· == '/') = ['/'] := by
      rw [List.takeWhile_cons_of_pos (by decide), front]
    rw [parse, text, slashes, Text.splitOn_cons_mark]
    simpa using names
  | doubleRoot =>
    have text : toText ⟨.doubleRoot, ns⟩ = '/' :: '/' :: Text.joinWith ['/'] ns := rfl
    have slashes : ('/' :: '/' :: Text.joinWith ['/'] ns).takeWhile (· == '/') = ['/', '/'] := by
      rw [List.takeWhile_cons_of_pos (by decide), List.takeWhile_cons_of_pos (by decide), front]
    rw [parse, text, slashes, Text.splitOn_cons_mark, Text.splitOn_cons_mark]
    simpa using names

/-- The names that are kept of a text with a slash behind each, and the slashes in front of the
text, are together not longer than the text with one more slash. -/
theorem pieceLength_names_le (t : Text) :
    Text.pieceLength ((Text.splitOn '/' t).filter fun n => n ≠ [] ∧ n ≠ ['.']) +
      (t.takeWhile (· == '/')).length ≤ t.length + 1 := by
  induction t with
  | nil => decide
  | cons a t ih =>
    by_cases slash : a = '/'
    · subst slash
      rw [Text.splitOn_cons_mark, List.takeWhile_cons_of_pos (by decide),
        List.filter_cons_of_neg (by simp)]
      simp only [List.length_cons]
      omega
    · rw [List.takeWhile_cons_of_neg (by simpa using slash)]
      exact Text.pieceLength_splitOn '/' (a :: t) ▸ Text.pieceLength_filter_le _ _

/-- The length of the written form: of the anchor, and of the names with slashes between them. -/
theorem length_toText {a : Anchor} {ns : List Text} (h : a ≠ .here ∨ ns ≠ []) :
    (toText ⟨a, ns⟩).length = (anchorText a).length + (Text.pieceLength ns - 1) := by
  have text : toText ⟨a, ns⟩ = anchorText a ++ Text.joinWith ['/'] ns := by
    cases a <;> cases ns <;> simp_all [toText]
  rw [text, List.length_append]
  cases ns with
  | nil => rfl
  | cons n ns =>
    rw [← Text.length_joinWith '/' (List.cons_ne_nil n ns)]
    rfl

/-- **The written form of a path is not longer than the text that it is read from**, but for the
dot that stands for the empty path. -/
theorem length_toText_le (t : Text) (h : parse t ≠ ⟨.here, []⟩) :
    (parse t).toText.length ≤ t.length := by
  have names := pieceLength_names_le t
  have front := (List.takeWhile_sublist (· == '/') (l := t)).length_le
  have read : parse t = ⟨if (t.takeWhile (· == '/')).length = 0 then .here
      else if (t.takeWhile (· == '/')).length = 2 then .doubleRoot else .root,
      (Text.splitOn '/' t).filter fun n => n ≠ [] ∧ n ≠ ['.']⟩ := rfl
  generalize (t.takeWhile (· == '/')).length = k at names front read
  generalize (Text.splitOn '/' t).filter (fun n => n ≠ [] ∧ n ≠ ['.']) = ns at names read
  generalize ha : (if k = 0 then Anchor.here else if k = 2 then .doubleRoot else .root) = a at read
  have anchor : (anchorText a).length ≤ k := by
    subst ha
    repeat' split
    · exact Nat.zero_le k
    · rename_i two
      exact Nat.le_of_eq two.symm
    · rename_i some _
      exact Nat.pos_of_ne_zero some
  rw [read] at h ⊢
  have some : a ≠ .here ∨ ns ≠ [] := by
    by_cases e : a = .here
    · exact Or.inr fun e' => h (by rw [e, e'])
    · exact Or.inl e
  rw [length_toText some]
  omega

/-- **Leaving characters of the written form out gives another path.** -/
theorem parse_eq_self_iff {p : Path} (h : p.IsRead) (hne : p ≠ ⟨.here, []⟩) {t : Text}
    (sub : t.Sublist p.toText) : parse t = p ↔ t = p.toText := by
  constructor
  · rintro rfl
    exact sub.eq_of_length_le (length_toText_le t hne)
  · rintro rfl
    exact parse_toText h

end Path

end Modulize
