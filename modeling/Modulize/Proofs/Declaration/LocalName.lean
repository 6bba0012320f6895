import Modulize.Declaration.Merge
import Modulize.Proofs.Pattern.Lines
import Modulize.Proofs.Qualified.Spelling

/-!
# Writing out local names

A local name stands at a place (`StandsLocal`) when no character that could belong to it, and no
dot, quote or slash, stands before it, and none but a dot behind it. `requalify` writes a dotted
name for every such place. It is described by the relation `WritesOut`, which goes through the text
from left to right (`writesOut_requalify`).

Lines are written out one by one (`requalify_append`). A text changes if and only if the name stands
in it, and is not written for itself (`requalify_eq_self_iff`).
-/

namespace Modulize.Declaration

open Pattern Qualified

/-- A local name may begin behind a text, which is given with its last character first. -/
def MayBegin (past : Text) : Prop := ∀ a ∈ past.head?, (guards a || a == '.') = false

/-- A local name stands behind `past` and before `rest`. -/
structure StandsLocal (past rest : Text) : Prop where
  before : MayBegin past
  after : Clear rest

theorem mayBegin_newline (past : Text) : MayBegin ('\n' :: past) := by
  have newline : (guards '\n' || '\n' == '.') = false := by decide
  simpa [MayBegin] using newline

theorem mayBegin_nil : MayBegin [] := by simp [MayBegin]

theorem mem_ends_localName {name : Text} {c d : Cursor} :
    d ∈ (localName name).ends c ↔
      ∃ rest, c.rest = name ++ rest ∧ StandsLocal c.past rest ∧ d = c.after name rest := by
  unfold localName
  rw [mem_ends_seq]
  simp only [mem_ends_seq, mem_ends_notAfter, mem_ends_notBefore]
  constructor
  · rintro ⟨e, ⟨_, ⟨before, rfl⟩, he⟩, after, rfl⟩
    obtain ⟨_, rest, hc, rfl, rfl⟩ := (describes_literal name _ _).1 he
    exact ⟨rest, hc, ⟨before, after⟩, rfl⟩
  · rintro ⟨rest, hc, stands, rfl⟩
    exact ⟨_, ⟨c, ⟨stands.before, rfl⟩, (describes_literal name _ _).2 ⟨name, rest, hc, rfl, rfl⟩⟩,
      stands.after, rfl⟩

theorem consumes_localName {name : Text} (hne : name ≠ []) : (localName name).Consumes := by
  intro c d hd
  obtain ⟨rest, -, -, rfl⟩ := mem_ends_localName.1 hd
  have := List.length_pos_iff.2 hne
  rw [Cursor.after_offset]
  omega

/-- The third text is written for the second one, which stands behind the first one: `new` for every
place at which the local name stands. -/
inductive WritesOut (name new : Text) : Text → Text → Text → Prop
  | done (past : Text) : WritesOut name new past [] []
  | keep {past : Text} {a : Char} {rest out : Text}
      (free : ∀ y, a :: rest = name ++ y → ¬ StandsLocal past y)
      (h : WritesOut name new (a :: past) rest out) : WritesOut name new past (a :: rest) (a :: out)
  | swap {past rest out : Text} (stands : StandsLocal past rest)
      (h : WritesOut name new (name.reverse ++ past) rest out) :
      WritesOut name new past (name ++ rest) (new ++ out)

theorem writesOut_replaceAt {name : Text} (hne : name ≠ []) (new past : Text) (offset : Nat)
    (t : Text) :
    WritesOut name new past t ((localName name).replaceAt (fun _ => new) past offset t) := by
  have consumes := consumes_localName hne
  induction past, offset, t using consumes.induct with
  | done past offset =>
    rw [replaceAt_nil _ consumes]
    exact .done past
  | keep past offset a t none ih =>
    rw [replaceAt_of_none _ none]
    refine .keep (fun y e stands => ?_) ih
    have found : (Cursor.after ⟨past, offset, a :: t, []⟩ name y) ∈
        (localName name).ends ⟨past, offset, a :: t, []⟩ :=
      mem_ends_localName.2 ⟨y, e, stands, rfl⟩
    rw [none] at found
    exact absurd found List.not_mem_nil
  | swap past offset piece d ds hends reads ih =>
    obtain ⟨rest, e, stands, hd⟩ := mem_ends_localName.1 (hends ▸ List.mem_cons_self)
    obtain rfl : d.rest = rest := congrArg Cursor.rest hd
    obtain rfl : piece = name := List.append_cancel_right e
    rw [replaceAt_of_match _ consumes hends reads]
    exact .swap stands ih

theorem writesOut_requalify {name : Text} (hne : name ≠ []) (t new : Text) :
    WritesOut name new [] t (requalify t (name, new)) := writesOut_replaceAt hne new [] 0 t

/-- The local name stands nowhere in a text, which stands behind `past`. -/
def StandsNowhere (name past t : Text) : Prop :=
  ∀ x y, t = x ++ (name ++ y) → ¬ StandsLocal (x.reverse ++ past) y

theorem standsNowhere_nil {name : Text} (hne : name ≠ []) (past : Text) :
    StandsNowhere name past [] := by
  intro x y e
  simp [hne] at e

theorem StandsNowhere.cons {name past rest : Text} {a : Char}
    (first : ∀ y, a :: rest = name ++ y → ¬ StandsLocal past y)
    (others : StandsNowhere name (a :: past) rest) : StandsNowhere name past (a :: rest) := by
  intro x y e
  cases x with
  | nil => exact first y e
  | cons b x =>
    obtain ⟨rfl, e'⟩ := List.cons.inj e
    simpa using others x y e'

theorem occursIn_eq_false_of_standsNowhere {name t : Text} (h : StandsNowhere name [] t) :
    (localName name).occursIn t = false := by
  refine occursIn_eq_false fun x y e => ?_
  rw [matchAt?_eq_head?, Option.map_eq_none_iff, List.head?_eq_none_iff]
  refine List.eq_nil_iff_forall_not_mem.2 fun d hd => ?_
  obtain ⟨rest, hy, stands, -⟩ := mem_ends_localName.1 hd
  exact h x rest (e.trans (congrArg _ hy)) (by simpa using stands)

namespace WritesOut

variable {name new past t out : Text}

theorem unique (hne : name ≠ []) (h : WritesOut name new past t out) {out' : Text}
    (h' : WritesOut name new past t out') : out = out' := by
  induction h generalizing out' with
  | done past =>
    generalize e : [] = t at h'
    cases h' with
    | done => rfl
    | keep => cases e
    | swap => exact absurd (List.append_eq_nil_iff.1 e.symm).1 hne
  | @keep past a rest out free h ih =>
    generalize e : a :: rest = t at h'
    cases h' with
    | done => cases e
    | keep free' h' =>
      obtain ⟨rfl, rfl⟩ := List.cons.inj e
      rw [ih h']
    | swap stands h' => exact absurd stands (free _ e)
  | @swap past rest out stands h ih =>
    generalize e : name ++ rest = t at h'
    cases h' with
    | done => exact absurd (List.append_eq_nil_iff.1 e).1 hne
    | keep free' h' => exact absurd stands (free' _ e.symm)
    | swap stands' h' =>
      obtain rfl := List.append_cancel_left e
      rw [ih h']

/-- Only whether a name may begin there matters about the text before a place. -/
theorem congr (hne : name ≠ []) (h : WritesOut name new past t out) {past' : Text}
    (same : MayBegin past ↔ MayBegin past') : WritesOut name new past' t out := by
  induction h generalizing past' with
  | done => exact .done past'
  | @keep past a rest out free h ih =>
    exact .keep (fun y e stands => free y e ⟨same.2 stands.before, stands.after⟩) (ih Iff.rfl)
  | @swap past rest out stands h ih =>
    have agree : MayBegin (name.reverse ++ past) ↔ MayBegin (name.reverse ++ past') := by
      have hne' : name.reverse ≠ [] := by simpa using hne
      obtain ⟨b, r, e⟩ := List.exists_cons_of_ne_nil hne'
      rw [e]
      exact Iff.rfl
    exact .swap ⟨same.1 stands.before, stands.after⟩ (ih agree)

/-- A text and the lines behind it are written out one after the other. -/
theorem append (hne : name ≠ []) (hname : '\n' ∉ name) (h : WritesOut name new past t out)
    {t' out' : Text} (h' : WritesOut name new [] t' out') :
    WritesOut name new past (t ++ '\n' :: t') (out ++ '\n' :: out') := by
  induction h with
  | done past =>
    refine .keep (fun y e _ => ?_) (h'.congr hne (iff_of_true mayBegin_nil (mayBegin_newline past)))
    obtain ⟨a, r, rfl⟩ := List.exists_cons_of_ne_nil hne
    obtain ⟨rfl, -⟩ := List.cons.inj e
    exact hname List.mem_cons_self
  | @keep past a rest out free h ih =>
    refine .keep (fun y e stands => ?_) ih
    -- the name has no line break, so it ends within the first text
    have front : name <+: (a :: rest) ++ '\n' :: t' := ⟨y, e.symm⟩
    rcases prefix_or_of_prefix_append front (atBreak_newline t') with ⟨r, hr⟩ | beyond
    · have hy : r ++ '\n' :: t' = y := by
        have e' : (a :: rest) ++ '\n' :: t' = name ++ y := e
        rw [← hr, List.append_assoc] at e'
        exact List.append_cancel_left e'
      refine free r hr.symm ⟨stands.before, ?_⟩
      cases r with
      | nil => simp [Clear]
      | cons b r =>
        rw [← hy] at stands
        exact clear_cons.2 (clear_cons.1 stands.after)
    · exact hname (beyond.subset (by simp))
  | @swap past rest out stands h ih =>
    rw [List.append_assoc, List.append_assoc]
    refine .swap ⟨stands.before, ?_⟩ ih
    have newline : guards '\n' = false := by decide
    cases rest with
    | nil => exact clear_cons.2 newline
    | cons b rest => exact clear_cons.2 (clear_cons.1 stands.after)

/-- A name that is written for itself leaves the text as it is. -/
theorem eq_self (h : WritesOut name name past t out) : out = t := by
  induction h with
  | done => rfl
  | keep _ _ ih => rw [ih]
  | swap _ _ ih => rw [ih]

/-- The lengths of the texts tell how often the name was replaced. -/
theorem exists_count (hne : name ≠ []) (h : WritesOut name new past t out) :
    ∃ k, out.length + k * name.length = t.length + k * new.length ∧
      (k = 0 → StandsNowhere name past t) := by
  induction h with
  | done past => exact ⟨0, by simp, fun _ => standsNowhere_nil hne past⟩
  | @keep past a rest out free _ ih =>
    obtain ⟨k, lengths, none⟩ := ih
    exact ⟨k, by simp only [List.length_cons]; omega, fun hk => (none hk).cons free⟩
  | @swap past rest out stands _ ih =>
    obtain ⟨k, lengths, -⟩ := ih
    refine ⟨k + 1, ?_, by simp⟩
    simp only [List.length_append, Nat.add_mul, Nat.one_mul]
    omega

/-- A name that is replaced by another text of the same length changes the text. -/
theorem standsNowhere_of_eq (hne : name ≠ []) (h : WritesOut name new past t out)
    (length : new.length = name.length) (other : name ≠ new) (same : out = t) :
    StandsNowhere name past t := by
  induction h with
  | done past => exact standsNowhere_nil hne past
  | keep free _ ih => exact (ih (List.cons.inj same).2).cons free
  | swap _ _ _ => exact absurd (List.append_inj same length).1.symm other

end WritesOut

/-- **Writing out a local name changes a text if and only if the name stands in it**, and is not
written for itself. -/
theorem requalify_eq_self_iff {name : Text} (hne : name ≠ []) (new t : Text) :
    requalify t (name, new) = t ↔ name = new ∨ (localName name).occursIn t = false := by
  have h := writesOut_requalify hne t new
  constructor
  · intro same
    by_cases self : name = new
    · exact Or.inl self
    · refine Or.inr (occursIn_eq_false_of_standsNowhere ?_)
      by_cases length : new.length = name.length
      · exact h.standsNowhere_of_eq hne length self same
      · obtain ⟨k, lengths, none⟩ := h.exists_count hne
        rw [same, Nat.add_left_cancel_iff] at lengths
        refine none (Nat.eq_zero_of_not_pos fun positive => ?_)
        exact length (Nat.eq_of_mul_eq_mul_left positive lengths).symm
  · rintro (rfl | absent)
    · exact h.eq_self
    · rw [requalify, replace, allMatches_eq_nil absent, rebuild]

/-- Lines are written out one by one. -/
theorem requalify_append {name : Text} (hne : name ≠ []) (hname : '\n' ∉ name) (new t t' : Text) :
    requalify (t ++ '\n' :: t') (name, new) =
      requalify t (name, new) ++ '\n' :: requalify t' (name, new) :=
  (writesOut_requalify hne _ new).unique hne
    ((writesOut_requalify hne t new).append hne hname (writesOut_requalify hne t' new))

end Modulize.Declaration
