import Modulize.Proofs.Pattern.Rewriting

/-!
# Replacements as sweeps over a text

A sweep over a text (`Sweeps`) is a pass that keeps a character only where a pattern has no reading.
Replacing all matches of a pattern is one (`sweeps_replace`), so what a pattern can read does not
stay in the text. What a text begins with behind a sweep has been kept, or a piece has been
exchanged within it (`Sweeps.cases_append`); and a place behind a sweep is a place before it, or
lies within a piece that has been written (`Sweeps.cases_behind`). In front of a place before a
sweep nothing is left that the pattern could read, unless a piece that ends there was exchanged
(`Sweeps.exists_before`).
-/

namespace Modulize.Pattern

/-- A sweep over a text behind a place writes the third text for it: a character is kept where the
pattern has no reading, and a piece is exchanged where the relation holds of the text before it, the
piece, the text behind it and the new piece. -/
inductive Sweeps (r : Pattern) (R : Text → Text → Text → Text → Prop) : Text → Text → Text → Prop
  | done (past : Text) : Sweeps r R past [] []
  | keep {past : Text} {a : Char} {rest out : Text}
      (none : r.ends ⟨past, past.length, a :: rest, []⟩ = [])
      (h : Sweeps r R (a :: past) rest out) : Sweeps r R past (a :: rest) (a :: out)
  | swap {past piece rest new out : Text} (hR : R past piece rest new)
      (h : Sweeps r R (piece.reverse ++ past) rest out) :
      Sweeps r R past (piece ++ rest) (new ++ out)

variable {r : Pattern} {f : Match → Text} {R : Text → Text → Text → Text → Prop}

theorem sweeps_replaceAt (consumes : r.Consumes) (allows : r.Allows f R) (past t : Text) :
    Sweeps r R past t (r.replaceAt f past past.length t) := by
  generalize here : past.length = offset
  induction past, offset, t using consumes.induct with
  | done past offset =>
    rw [replaceAt_nil _ consumes]
    exact .done past
  | keep past offset a rest none ih =>
    rw [replaceAt_of_none _ none]
    exact .keep (here ▸ none) (ih (congrArg (· + 1) here))
  | swap past offset piece d ds hends reads ih =>
    have behind : (piece.reverse ++ past).length = offset + piece.length := by
      rw [List.length_append, List.length_reverse, here, Nat.add_comm]
    have swapped := allows _ d piece (hends ▸ List.mem_cons_self) rfl reads
    rw [replaceAt_of_match _ consumes hends reads]
    exact .swap swapped (ih behind)

/-- **Replacing all matches is a sweep.** -/
theorem sweeps_replace (consumes : r.Consumes) (allows : r.Allows f R) (t : Text) :
    Sweeps r R [] t (r.replace f t) := sweeps_replaceAt consumes allows [] t

namespace Sweeps

variable {past t out p y : Text}

/-- **What a text begins with behind a sweep** has been kept, or a piece has been exchanged before
the end of it. -/
theorem cases_append (h : Sweeps r R past t (p ++ y)) :
    (∃ y', t = p ++ y' ∧ Sweeps r R (p.reverse ++ past) y' y ∧
      (p ≠ [] → r.ends ⟨past, past.length, p ++ y', []⟩ = [])) ∨
    ∃ q z piece rest new out, p = q ++ z ∧ z ≠ [] ∧ z ++ y = new ++ out ∧
      R (q.reverse ++ past) piece rest new := by
  induction p generalizing past t with
  | nil => exact Or.inl ⟨t, rfl, h, fun ne => absurd rfl ne⟩
  | cons a p ih =>
    generalize e : a :: p ++ y = out at h
    cases h with
    | done => cases e
    | keep none h =>
      obtain ⟨rfl, rfl⟩ : a = _ ∧ p ++ y = _ := List.cons.inj e
      rcases ih h with ⟨y', rfl, h, -⟩ | ⟨q, z, piece, rest, new, out, rfl, ne, e, hR⟩
      · exact Or.inl ⟨y', rfl, by simpa using h, fun _ => none⟩
      · exact Or.inr ⟨a :: q, z, piece, rest, new, out, rfl, ne, e, by simpa using hR⟩
    | @swap _ piece rest new out hR h =>
      exact Or.inr ⟨[], a :: p, piece, rest, new, out, rfl, by simp, e, hR⟩

/-- **A place behind a sweep** is a place before it: one behind a character that has been kept, or
one behind a piece that has been exchanged; or it lies within a piece that has been written. -/
theorem cases_behind {x u : Text} (h : Sweeps r R past t (x ++ u)) (hx : x ≠ []) :
    (∃ x' t', t = x' ++ t' ∧ Sweeps r R (x'.reverse ++ past) t' u ∧
      ((∃ a v v', x = v ++ [a] ∧ x' = v' ++ [a]) ∨
        ∃ v piece rest new, x' = v ++ piece ∧ R (v.reverse ++ past) piece rest new)) ∨
    ∃ v n n' w, x = v ++ n ∧ u = n' ++ w ∧ n ≠ [] ∧ n' ≠ [] ∧
      ∃ past piece rest, R past piece rest (n ++ n') := by
  generalize e : x ++ u = out at h
  induction h generalizing x with
  | done => exact absurd (List.append_eq_nil_iff.1 e).1 hx
  | @keep past a rest out none h ih =>
    cases x with
    | nil => exact absurd rfl hx
    | cons b x =>
      obtain ⟨rfl, tail⟩ : b = a ∧ x ++ u = out := List.cons.inj e
      by_cases hx : x = []
      · subst hx
        obtain rfl : u = out := tail
        exact Or.inl ⟨[b], rest, rfl, h, Or.inl ⟨b, [], [], rfl, rfl⟩⟩
      · rcases ih hx tail with ⟨x', t', rfl, h, last⟩ | ⟨v, n, n', w, rfl, rfl, hn, hn', within⟩
        · refine Or.inl ⟨b :: x', t', rfl, by simpa using h, ?_⟩
          rcases last with ⟨a, v, v', rfl, rfl⟩ | ⟨v, piece, rest, new, rfl, hR⟩
          · exact Or.inl ⟨a, b :: v, b :: v', rfl, rfl⟩
          · exact Or.inr ⟨b :: v, piece, rest, new, rfl, by simpa using hR⟩
        · exact Or.inr ⟨b :: v, n, n', w, rfl, rfl, hn, hn', within⟩
  | @swap past piece rest new out hR h ih =>
    have whole (tail : out = u) : ∃ x' t', piece ++ rest = x' ++ t' ∧
        Sweeps r R (x'.reverse ++ past) t' u ∧
        ((∃ a v v', x = v ++ [a] ∧ x' = v' ++ [a]) ∨
          ∃ v piece rest new, x' = v ++ piece ∧ R (v.reverse ++ past) piece rest new) :=
      ⟨piece, rest, rfl, tail ▸ h, Or.inr ⟨[], piece, rest, new, rfl, hR⟩⟩
    rcases List.append_eq_append_iff.1 e with ⟨n', rfl, tail⟩ | ⟨x₂, rfl, tail⟩
    · by_cases hn' : n' = []
      · subst hn'
        exact Or.inl (whole tail.symm)
      · exact Or.inr ⟨[], x, n', out, rfl, tail, hx, hn', past, piece, rest, hR⟩
    · by_cases hx₂ : x₂ = []
      · subst hx₂
        exact Or.inl (whole tail)
      · rcases ih hx₂ tail.symm with
          ⟨x', t', rfl, h, last⟩ | ⟨v, n, n', w, rfl, rfl, hn, hn', within⟩
        · refine Or.inl ⟨piece ++ x', t', by simp, by simpa using h, ?_⟩
          rcases last with ⟨a, v, v', rfl, rfl⟩ | ⟨v, piece', rest', new', rfl, hR'⟩
          · exact Or.inl ⟨a, new ++ v, piece ++ v', by simp, by simp⟩
          · exact Or.inr ⟨piece ++ v, piece', rest', new', by simp, by simpa using hR'⟩
        · exact Or.inr ⟨new ++ v, n, n', w, by simp, rfl, hn, hn', within⟩

/-- At each place of a text that stands before another one, the pattern has no reading, or a piece
that is exchanged ends behind that place. -/
def Passed (r : Pattern) (R : Text → Text → Text → Text → Prop) (past x t : Text) : Prop :=
  ∀ x₁ x₂, x = x₁ ++ x₂ → x₂ ≠ [] →
    r.ends ⟨x₁.reverse ++ past, (x₁.reverse ++ past).length, x₂ ++ t, []⟩ = [] ∨
    ∃ p piece rest new z, R p piece rest new ∧ z ≠ [] ∧ z <:+ piece ∧ z <+: x₂

theorem passed_nil : Passed r R past [] t :=
  fun _ _ e ne => absurd (List.append_eq_nil_iff.1 e.symm).2 ne

theorem Passed.keep {a : Char} {x : Text}
    (none : r.ends ⟨past, past.length, a :: (x ++ t), []⟩ = []) (h : Passed r R (a :: past) x t) :
    Passed r R past (a :: x) t := by
  intro x₁ x₂ e ne
  cases x₁ with
  | nil =>
    obtain rfl : a :: x = x₂ := e
    exact Or.inl none
  | cons b x₁ =>
    obtain ⟨rfl, rfl⟩ := List.cons.inj e
    simpa using h x₁ x₂ rfl ne

theorem Passed.swap {p piece rest new x : Text} (hR : R p piece rest new)
    (h : Passed r R (piece.reverse ++ past) x t) : Passed r R past (piece ++ x) t := by
  intro x₁ x₂ e ne
  rcases List.append_eq_append_iff.1 e with ⟨z, rfl, rfl⟩ | ⟨z, rfl, rfl⟩
  · simpa using h z x₂ rfl ne
  · by_cases hz : z = []
    · subst hz
      simpa using h [] x rfl (by simpa using ne)
    · exact Or.inr ⟨p, _, rest, new, z, hR, hz, List.suffix_append x₁ z, List.prefix_append z x⟩

/-- **What stands before a place behind a sweep**, if no piece has been written across that
place. -/
theorem exists_before {x u : Text} (h : Sweeps r R past t (x ++ u))
    (apart : ∀ p piece rest v n n' w, R p piece rest (n ++ n') → x = v ++ n → u = n' ++ w →
      n ≠ [] → n' = []) :
    ∃ x' t', t = x' ++ t' ∧ Sweeps r R (x'.reverse ++ past) t' u ∧ Passed r R past x' t' := by
  generalize e : x ++ u = out at h
  induction h generalizing x with
  | done past =>
    obtain ⟨rfl, rfl⟩ := List.append_eq_nil_iff.1 e
    exact ⟨[], [], rfl, .done past, passed_nil⟩
  | @keep past a rest out none h ih =>
    cases x with
    | nil => exact ⟨[], a :: rest, rfl, (show u = a :: out from e) ▸ .keep none h, passed_nil⟩
    | cons b x =>
      obtain ⟨rfl, tail⟩ := List.cons.inj e
      obtain ⟨x', t', rfl, h, passed⟩ := ih
        (fun p piece rest v n n' w hR ex => apart p piece rest (b :: v) n n' w hR (by simp [ex]))
        tail
      exact ⟨b :: x', t', rfl, by simpa using h, .keep none passed⟩
  | @swap past piece rest new out hR h ih =>
    rcases List.append_eq_append_iff.1 e with ⟨n', rfl, rfl⟩ | ⟨x₂, rfl, tail⟩
    · by_cases hx : x = []
      · subst hx
        exact ⟨[], piece ++ rest, rfl, .swap hR h, passed_nil⟩
      · obtain rfl := apart past piece rest [] x n' out hR rfl rfl hx
        obtain ⟨x', t', rfl, h, passed⟩ := ih (x := [])
          (fun _ _ _ v n _ _ _ ex _ ne => absurd (List.append_eq_nil_iff.1 ex.symm).2 ne) rfl
        exact ⟨piece ++ x', t', by simp, by simpa using h, .swap hR passed⟩
    · obtain ⟨x', t', rfl, h, passed⟩ := ih
        (fun p piece rest v n n' w hR ex => apart p piece rest (new ++ v) n n' w hR (by simp [ex]))
        tail.symm
      exact ⟨piece ++ x', t', by simp, by simpa using h, .swap hR passed⟩

end Sweeps

end Modulize.Pattern
