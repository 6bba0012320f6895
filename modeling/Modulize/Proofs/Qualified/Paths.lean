import Modulize.Proofs.Qualified.Names
import Modulize.Proofs.Qualified.Substitution

/-!
# Dotted paths and what is substituted in them

A dotted path stands at a place when it goes on in neither direction there (`PathAt`). A reference
at the beginning of a path lies within it (`PathAt.begins`), and where no reference comes after a
dot there is no other one in it. So a pass of substitutions treats every path by itself: it passes
over what stands before the path as if nothing came behind (`Substitutes.exists_front`), and it
keeps the path or writes a name for its beginning (`Substitutes.path_cases`).
`exists_path_of_substitutes` puts the three parts of the text together.
-/

namespace Modulize.Qualified

open Pattern

/-- The text does not begin with an identifier character. -/
def BeginsApart (t : Text) : Prop := ∀ a ∈ t.head?, isIdent a = false

instance : (t : Text) → Decidable (BeginsApart t)
  | [] => isTrue fun _ h => nomatch h
  | a :: _ => decidable_of_iff (isIdent a = false) (by simp [BeginsApart])

/-- Behind a text, with its last character first, no path is under way. -/
structure Between (past : Text) : Prop where
  apart : BeginsApart past
  undotted : ¬ EndsWithDot past

/-- A path goes on with this text: with a dot, any blanks around it, and an identifier. -/
def goesOn (t : Text) : Bool :=
  match t.dropWhile isBlank with
  | '.' :: r => (r.dropWhile isBlank).head?.any isIdent
  | _ => false

/-- A dotted path stands at a place and goes on in neither direction. -/
structure PathAt (ss : List Text) (past piece rest : Text) : Prop where
  nonempty : ss ≠ []
  words : ∀ s ∈ ss, IsIdentifier s
  spelled : Spells ss piece
  between : Between past
  apart : BeginsApart rest
  ends : goesOn rest = false

variable {names ss : List Text} {new : Text → Text} {n past p x y t out : Text}

instance (past : Text) : Decidable (Between past) :=
  decidable_of_iff (BeginsApart past ∧ (past.dropWhile isBlank).head? ≠ some '.')
    ⟨fun h => ⟨h.1, h.2⟩, fun h => ⟨h.apart, h.undotted⟩⟩

theorem goesOn_gap_append {g r : Text} {a : Char} (hg : IsGap g) (ha : isIdent a = true) :
    goesOn (g ++ a :: r) = true := by
  obtain ⟨b, b', rfl, hb, hb'⟩ := hg
  rw [List.all_eq_true] at hb hb'
  have dot : isBlank '.' = false := by decide
  have ink : isBlank a = false := by
    refine Bool.eq_false_iff.2 fun blank => ?_
    rw [isIdent_eq_false_of_isBlank blank] at ha
    cases ha
  have e : (b ++ '.' :: b') ++ a :: r = b ++ '.' :: (b' ++ a :: r) := by simp
  rw [e, goesOn, List.dropWhile_append_of_pos hb, List.dropWhile_cons_of_neg (by simp [dot])]
  change ((b' ++ a :: r).dropWhile isBlank).head?.any isIdent = true
  rw [List.dropWhile_append_of_pos hb', List.dropWhile_cons_of_neg (by simp [ink])]
  exact ha

namespace PathAt

theorem exists_cons (path : PathAt ss past p y) : ∃ a r, p = a :: r ∧ isIdent a = true :=
  path.spelled.exists_cons path.nonempty path.words

/-- A reference at the beginning of a path is to some of its first segments. -/
theorem begins {piece rest : Text} (path : PathAt ss past p y) (hn : IsNamespace n)
    (stands : StandsAt n past piece rest) (e : p ++ y = piece ++ rest) :
    segments n <+: ss ∧ ∃ u, p = piece ++ u := by
  have apart := stands.after.head_not_isIdent
  obtain ⟨comparable, same⟩ :=
    stands.spelled.prefix_or_prefix path.spelled hn path.words apart path.apart e.symm
  rcases comparable with ⟨more, rfl⟩ | ⟨more, hmore⟩
  · refine ⟨List.prefix_append _ _, ?_⟩
    by_cases hne : more = []
    · subst hne
      exact ⟨[], by rw [same (List.append_nil _).symm, List.append_nil]⟩
    · obtain ⟨p', g, q, rfl, hg, hp', -⟩ := path.spelled.of_append (segments_ne_nil n) hne
      rw [List.append_assoc, List.append_assoc] at e
      have e' := (hp'.prefix_or_prefix stands.spelled hn hn (hg.head_not_isIdent _) apart e).2 rfl
      exact ⟨g ++ q, by rw [e']⟩
  · -- a reference to more segments would go on with the path
    by_cases hne : more = []
    · subst hne
      rw [List.append_nil] at hmore
      exact ⟨hmore ▸ List.prefix_refl ss, [], by rw [same hmore.symm, List.append_nil]⟩
    · have spelled := stands.spelled
      rw [← hmore] at spelled
      obtain ⟨p', g, q, rfl, hg, hp', hq⟩ := spelled.of_append path.nonempty hne
      have words : ∀ s ∈ more, IsIdentifier s := fun s hs =>
        hn s (hmore ▸ List.mem_append_right ss hs)
      obtain ⟨a, r, rfl, ha⟩ := hq.exists_cons hne words
      rw [List.append_assoc, List.append_assoc] at e
      obtain rfl := (path.spelled.prefix_or_prefix hp' path.words path.words path.apart
        (hg.head_not_isIdent _) e).2 rfl
      have ends := path.ends
      rw [List.append_cancel_left e, List.cons_append, goesOn_gap_append hg ha] at ends
      cases ends

end PathAt

/-! ## What stands before a path -/

theorem Between.ne_concat {r : Text} {a : Char} (h : Between (x.reverse ++ past))
    (ha : isIdent a = true) : x ≠ r ++ [a] := by
  rintro rfl
  have := h.apart a (by simp)
  rw [ha] at this
  cases this

/-- A reference in what stands before a path does not reach its end. -/
theorem StandsAt.append {piece rest : Text} (stands : StandsAt n past piece rest)
    (hn : IsNamespace n) (between : Between ((piece ++ rest).reverse ++ past)) (t : Text) :
    StandsAt n past piece (rest ++ t) := by
  refine ⟨stands.spelled, stands.before, ?_⟩
  cases rest with
  | nil =>
    obtain ⟨r, a, rfl, ha⟩ := stands.exists_concat hn
    exact absurd (List.append_nil _) (between.ne_concat ha)
  | cons b rest => exact stands.after

theorem Free.front (hns : ∀ n ∈ names, IsNamespace n) (between : Between (x.reverse ++ past))
    (free : Free names past (x ++ t)) : Free names past x := by
  rintro n hn piece rest rfl stands
  exact free n hn piece (rest ++ t) (List.append_assoc ..) (stands.append (hns n hn) between t)

theorem Longest.front (hns : ∀ n ∈ names, IsNamespace n) (between : Between (x.reverse ++ past))
    (longest : Longest names past (x ++ t) n) : Longest names past x n := by
  rintro m hm piece rest rfl stands
  exact longest m hm piece (rest ++ t) (List.append_assoc ..) (stands.append (hns m hm) between t)

/-- No reference goes over the beginning of a path. -/
theorem StandsAt.not_across {piece rest u : Text} {a : Char} (stands : StandsAt n past piece rest)
    (hn : IsNamespace n) (hx : x ≠ []) (between : Between (x.reverse ++ past))
    (ha : isIdent a = true) : piece ≠ x ++ a :: u := by
  intro e
  rcases stands.spelled.inner hn hx ha e with ⟨r, b, hb', hb⟩ | ⟨r, b, rfl, hb⟩
  · exact between.ne_concat hb hb'
  · exact between.undotted (endsWithDot_append hb)

namespace Substitutes

/-- **What stands before a path** is passed over as if nothing came behind it. -/
theorem exists_front {a : Char} {r : Text} (hns : ∀ n ∈ names, IsNamespace n)
    (h : Substitutes names new past (x ++ a :: r) out) (ha : isIdent a = true)
    (between : Between (x.reverse ++ past)) :
    ∃ front back, out = front ++ back ∧ Substitutes names new past x front ∧
      Substitutes names new (x.reverse ++ past) (a :: r) back := by
  generalize e : x ++ a :: r = w at h
  induction h generalizing x with
  | done => simp at e
  | @keep past b rest out free h ih =>
    cases x with
    | nil =>
      obtain ⟨rfl, rfl⟩ := List.cons.inj e
      exact ⟨[], a :: out, rfl, .done past, .keep free h⟩
    | cons c x =>
      obtain ⟨rfl, rfl⟩ := List.cons.inj e
      have between' : Between (x.reverse ++ c :: past) := by simpa using between
      obtain ⟨front, back, rfl, first, second⟩ := ih between' rfl
      exact ⟨c :: front, back, rfl, .keep (Free.front hns between free) first,
        by simpa using second⟩
  | @swap past n piece rest out hn stands longest h ih =>
    by_cases hx : x = []
    · subst hx
      have whole := Substitutes.swap hn stands longest h
      rw [← e] at whole
      exact ⟨[], new n ++ out, rfl, .done past, whole⟩
    · rcases List.append_eq_append_iff.1 e with ⟨u, rfl, e'⟩ | ⟨u, rfl, rfl⟩
      · cases u with
        | nil =>
          obtain ⟨r', b, hb', hb⟩ := stands.exists_concat (hns n hn)
          exact absurd ((List.append_nil x).symm.trans hb') (between.ne_concat hb)
        | cons b u =>
          obtain ⟨rfl, -⟩ := List.cons.inj e'
          exact absurd rfl (stands.not_across (hns n hn) hx between ha)
      · have between' : Between (u.reverse ++ (piece.reverse ++ past)) := by simpa using between
        obtain ⟨front, back, rfl, first, second⟩ := ih between' rfl
        rw [← List.append_assoc] at longest
        have stands' : StandsAt n past piece u := ⟨stands.spelled, stands.before,
          stands.after.of_append⟩
        exact ⟨new n ++ front, back, by simp, .swap hn stands' (Longest.front hns between longest)
          first, by simpa using second⟩

/-! ## The path itself -/

/-- **A pass over a path** keeps it where no reference begins it, and otherwise writes a name for
some of its first segments. -/
theorem path_cases (hns : ∀ n ∈ names, IsNamespace n)
    (h : Substitutes names new past (p ++ y) out) (undotted : Undotted names past (p ++ y))
    (path : PathAt ss past p y) :
    ∃ q back, out = q ++ back ∧ Substitutes names new (p.reverse ++ past) y back ∧
      (q = p ∧ Free names past (p ++ y) ∨
        ∃ n ∈ names, ∃ piece u, p = piece ++ u ∧ q = new n ++ u ∧
          segments n <+: ss ∧ StandsAt n past piece (u ++ y)) := by
  obtain ⟨a, r, hp, ha⟩ := path.exists_cons
  have start := h
  rw [hp, List.cons_append] at start
  rcases start.cons_cases with ⟨_, -, free, -⟩ | ⟨n, hn, piece, rest, out', e, rfl, stands, -, h'⟩
  · rw [← List.cons_append, ← hp] at free
    obtain ⟨back, rfl, h'⟩ := h.keeps hns fun z b w split hb t' e =>
      free_in_spelling path.spelled path.words undotted free split hb e
    exact ⟨p, back, rfl, h', Or.inl ⟨rfl, free⟩⟩
  · rw [← List.cons_append, ← hp] at e
    obtain ⟨first, u, rfl⟩ := path.begins (hns n hn) stands e
    rw [List.append_assoc] at e
    obtain rfl := List.append_cancel_left e
    -- no other reference begins in the rest of the path
    obtain ⟨back, rfl, h''⟩ := h'.keeps hns fun z b w split hb t' e' => by
      have inside : piece ++ z ≠ [] := by
        obtain ⟨c, r', rfl, -⟩ := stands.exists_cons (hns n hn)
        simp
      have free := free_inside_spelling path.spelled path.words undotted inside
        (show piece ++ u = piece ++ z ++ b :: w by rw [split, List.append_assoc]) hb
        (show (piece ++ u) ++ y = piece ++ z ++ t' by rw [List.append_assoc, e', List.append_assoc])
      simpa using free
    exact ⟨new n ++ u, back, (List.append_assoc ..).symm, by simpa using h'',
      Or.inr ⟨n, hn, piece, u, rfl, rfl, first, stands⟩⟩

end Substitutes

/-- **A pass treats every path by itself**, and what stands before and behind it. -/
theorem exists_path_of_substitutes (hns : ∀ n ∈ names, IsNamespace n)
    (h : Substitutes names new [] (x ++ (p ++ y)) out)
    (undotted : Undotted names [] (x ++ (p ++ y))) (path : PathAt ss x.reverse p y) :
    ∃ q, out = substitute names new x ++ q ++
        substituteFrom names new 0 (p.reverse ++ x.reverse) (x ++ p).length y ∧
      (q = p ∧ Free names x.reverse (p ++ y) ∨
        ∃ n ∈ names, ∃ piece u, p = piece ++ u ∧ q = new n ++ u ∧
          segments n <+: ss ∧ StandsAt n x.reverse piece (u ++ y)) := by
  obtain ⟨a, r, hp, ha⟩ := path.exists_cons
  have between : Between (x.reverse ++ []) := by simpa using path.between
  have start := h
  rw [hp, List.cons_append] at start
  obtain ⟨front, back, rfl, first, second⟩ := start.exists_front hns ha between
  rw [← List.cons_append, ← hp, List.append_nil] at second
  have undotted' : Undotted names x.reverse (p ++ y) := by simpa using undotted.advance x
  obtain ⟨q, back, rfl, behind, cases⟩ := second.path_cases hns undotted' path
  refine ⟨q, ?_, cases⟩
  rw [first.eq_substituteFrom hns 0, behind.eq_substituteFrom hns (x ++ p).length, substitute,
    List.append_assoc]

end Modulize.Qualified
