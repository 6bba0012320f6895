import Modulize.Recast.Provided
import Modulize.Proofs.Collections
import Modulize.Proofs.Pattern.Rewriting
import Modulize.Proofs.Qualified.Spelling

/-!
# Replacing references one namespace after another

References to several namespaces can be replaced in one pass over a text that takes the longest of
the references at every place (`substitute`), or in one pass for each namespace, the longest
namespace first. `foldl_replaceReferences_eq_substitute` says that both give the same text, in which
no reference to the namespaces is left, as long as every new name is an identifier that begins none
of the namespaces (`Renaming`) and no reference comes after a dot (`afterDot`).

A pass is described by the relation `Substitutes`. A spelling of any namespace passes through it
unchanged in both directions where nothing is replaced at its beginning (`Substitutes.forth`,
`Substitutes.back`): a reference inside the spelling would come after an identifier character or
after a dot. So a pass for one more namespace that is not longer than the others can be joined to
the passes before it (`Substitutes.join`).
-/

namespace Modulize.Qualified

open Pattern

/-! ## The single pass -/

/-- The longest of some namespaces whose reference can be read at a place, with the match. -/
def longestMatch? (names : List Text) (c : Cursor) : Option (Text × Match) :=
  (Recast.longestFirst id names).findSome? fun name =>
    ((reference name).matchAt? c).map fun m => (name, m)

/-- Replace references from a place on, at every place the longest one; the first `skip` characters
lie in a reference just replaced. -/
def substituteFrom (names : List Text) (new : Text → Text) : Nat → Text → Nat → Text → Text
  | _, _, _, [] => []
  | skip + 1, past, offset, a :: rest => substituteFrom names new skip (a :: past) (offset + 1) rest
  | 0, past, offset, a :: rest =>
    match longestMatch? names ⟨past, offset, a :: rest, []⟩ with
    | some (name, m) =>
      new name ++ substituteFrom names new (m.text.length - 1) (a :: past) (offset + 1) rest
    | none => a :: substituteFrom names new 0 (a :: past) (offset + 1) rest

/-- Replace references to some namespaces in a single pass. -/
def substitute (names : List Text) (new : Text → Text) (t : Text) : Text :=
  substituteFrom names new 0 [] 0 t

/-- The place at offset `i` comes after a dot and any blanks. -/
def afterDot (t : Text) (i : Nat) : Bool := Text.endsWith ['.'] (Text.trimEnd (t.take i))

/-- Namespaces and new names for them: identifiers that are not the first segment of any of the
namespaces. -/
structure Renaming (names : List Text) (new : Text → Text) : Prop where
  namespaces : ∀ n ∈ names, IsNamespace n
  identifiers : ∀ n ∈ names, IsIdentifier (new n)
  fresh : ∀ n ∈ names, ∀ m ∈ names, (segments m).head? ≠ some (new n)

theorem Renaming.subset {names names' : List Text} {new : Text → Text} (h : Renaming names new)
    (sub : names' ⊆ names) : Renaming names' new :=
  ⟨fun n hn => h.namespaces n (sub hn), fun n hn => h.identifiers n (sub hn),
    fun n hn m hm => h.fresh n (sub hn) m (sub hm)⟩

/-! ## Places where no reference stands -/

/-- No reference to the namespaces stands at a place. -/
def Free (names : List Text) (past t : Text) : Prop :=
  ∀ n ∈ names, ∀ piece rest, t = piece ++ rest → ¬ StandsAt n past piece rest

/-- A text, with its last character first, ends with a dot and any blanks. -/
def EndsWithDot (past : Text) : Prop := (past.dropWhile isBlank).head? = some '.'

/-- No reference to the namespaces that stands at a place belongs to a longer one than `n`. -/
def Longest (names : List Text) (past t n : Text) : Prop :=
  ∀ m ∈ names, ∀ piece rest, t = piece ++ rest → StandsAt m past piece rest → m.length ≤ n.length

/-- No reference to the namespaces that stands in the text behind a place comes after a dot. -/
def Undotted (names : List Text) (past t : Text) : Prop :=
  ∀ x y, t = x ++ y → EndsWithDot (x.reverse ++ past) → Free names (x.reverse ++ past) y

section Places

variable {names : List Text} {past t : Text}

theorem Undotted.advance (piece : Text) (h : Undotted names past (piece ++ t)) :
    Undotted names (piece.reverse ++ past) t := by
  rintro x y rfl hx
  have e : x.reverse ++ (piece.reverse ++ past) = (piece ++ x).reverse ++ past := by simp
  rw [e] at hx ⊢
  exact h (piece ++ x) y (List.append_assoc ..).symm hx

theorem Undotted.subset {names' : List Text} (h : Undotted names past t) (sub : names' ⊆ names) :
    Undotted names' past t := fun x y e hx n hn => h x y e hx n (sub hn)

theorem free_nil (hns : ∀ n ∈ names, IsNamespace n) : Free names past [] := by
  intro n hn piece rest e stands
  obtain ⟨a, r, rfl, -⟩ := stands.exists_cons (hns n hn)
  simp at e

theorem Free.cons {n : Text}
    (single : ∀ piece rest, t = piece ++ rest → ¬ StandsAt n past piece rest)
    (free : Free names past t) : Free (n :: names) past t := by
  intro m hm
  rcases List.mem_cons.1 hm with rfl | hm
  · exact single
  · exact free m hm

/-- Where no other reference stands, the one to `n` is the longest. -/
theorem Free.longest {n : Text} (free : Free names past t) : Longest (n :: names) past t n := by
  intro m hm piece rest e stands
  rcases List.mem_cons.1 hm with rfl | hm
  · exact Nat.le_refl _
  · exact absurd stands (free m hm piece rest e)

theorem Longest.cons {n m : Text} (shorter : n.length ≤ m.length) (h : Longest names past t m) :
    Longest (n :: names) past t m := by
  intro m' hm' piece rest e stands
  rcases List.mem_cons.1 hm' with rfl | hm'
  · exact shorter
  · exact h m' hm' piece rest e stands

theorem IsIdentifier.not_clear_reverse_append {s : Text} (h : IsIdentifier s) :
    ¬ Clear (s.reverse ++ past) := by
  obtain ⟨r, a, rfl, ha⟩ := h.exists_concat
  rw [List.reverse_append]
  exact not_clear_of_isIdent ha

theorem StandsAt.not_clear_reverse_append {name piece rest : Text}
    (h : StandsAt name past piece rest) (hn : IsNamespace name) (past' : Text) :
    ¬ Clear (piece.reverse ++ past') := by
  obtain ⟨r, a, rfl, ha⟩ := h.exists_concat hn
  rw [List.reverse_append]
  exact not_clear_of_isIdent ha

theorem endsWithDot_append {r b : Text} (hb : b.all isBlank = true) :
    EndsWithDot ((r ++ '.' :: b).reverse ++ past) := by
  have blank : ∀ c ∈ b.reverse, isBlank c = true := by simpa using hb
  have dot : isBlank '.' = false := by decide
  have e : (r ++ '.' :: b).reverse ++ past = b.reverse ++ '.' :: (r.reverse ++ past) := by simp
  rw [EndsWithDot, e, List.dropWhile_append_of_pos blank,
    List.dropWhile_cons_of_neg (by simp [dot])]
  rfl

/-- No reference stands inside of a spelling. -/
theorem free_inside_spelling {ss : List Text} {piece x y t' : Text} {a : Char} (h : Spells ss piece)
    (hss : ∀ s ∈ ss, IsIdentifier s) (undotted : Undotted names past t) (hx : x ≠ [])
    (split : piece = x ++ a :: y) (ha : isIdent a = true) (e : t = x ++ t') :
    Free names (x.reverse ++ past) t' := by
  rcases h.inner hss hx ha split with ⟨r, b, rfl, hb⟩ | ⟨r, b, rfl, hb⟩
  · intro n _ piece rest _ stands
    have before := stands.before
    rw [List.reverse_append] at before
    exact not_clear_of_isIdent hb before
  · exact undotted _ _ e (endsWithDot_append hb)

/-- No reference stands inside of a spelling, or at its beginning. -/
theorem free_in_spelling {ss : List Text} {piece x y t' : Text} {a : Char} (h : Spells ss piece)
    (hss : ∀ s ∈ ss, IsIdentifier s) (undotted : Undotted names past t) (free : Free names past t)
    (split : piece = x ++ a :: y) (ha : isIdent a = true) (e : t = x ++ t') :
    Free names (x.reverse ++ past) t' := by
  by_cases hx : x = []
  · subst hx
    rw [e] at free
    exact free
  · exact free_inside_spelling h hss undotted hx split ha e

/-- No reference stands inside of an identifier, or at its beginning unless the identifier is the
first segment. -/
theorem free_in_identifier {s x y t' rest : Text} {a : Char} (hs : IsIdentifier s)
    (hns : ∀ n ∈ names, IsNamespace n) (fresh : ∀ n ∈ names, (segments n).head? ≠ some s)
    (clear : Clear rest) (split : s = x ++ a :: y) (e : s ++ rest = x ++ t') :
    Free names (x.reverse ++ past) t' := by
  intro n hn piece rest' e' stands
  by_cases hx : x = []
  · subst hx
    obtain ⟨s', u, hs', rfl, hu⟩ := stands.spelled.exists_head (segments_ne_nil n)
    obtain rfl : s ++ rest = t' := e
    have hs'' := hns n hn s' (List.mem_of_mem_head? hs')
    rw [List.append_assoc] at e'
    obtain ⟨rfl, -⟩ := append_inj_of_all hs.2 hs''.2 clear.head_not_isIdent (hu _ stands.after) e'
    exact fresh n hn hs'
  · obtain ⟨r, b, rfl, hb⟩ := exists_concat_of_all hs.2 hx split
    have before := stands.before
    rw [List.reverse_append] at before
    exact not_clear_of_isIdent hb before

end Places

/-! ## Passes over a text -/

/-- A pass over the text `t` behind a place writes the third text for it: a character is kept where
no reference stands, and a longest reference is replaced elsewhere. -/
inductive Substitutes (names : List Text) (new : Text → Text) : Text → Text → Text → Prop
  | done (past : Text) : Substitutes names new past [] []
  | keep {past : Text} {a : Char} {rest out : Text} (free : Free names past (a :: rest))
      (h : Substitutes names new (a :: past) rest out) :
      Substitutes names new past (a :: rest) (a :: out)
  | swap {past n piece rest out : Text} (hn : n ∈ names) (stands : StandsAt n past piece rest)
      (longest : Longest names past (piece ++ rest) n)
      (h : Substitutes names new (piece.reverse ++ past) rest out) :
      Substitutes names new past (piece ++ rest) (new n ++ out)

namespace Substitutes

variable {names : List Text} {new : Text → Text} {past t out : Text}

/-- The ways in which a pass can begin at a character. -/
theorem cons_cases {a : Char} {rest : Text} (h : Substitutes names new past (a :: rest) out) :
    (∃ out', out = a :: out' ∧ Free names past (a :: rest) ∧
      Substitutes names new (a :: past) rest out') ∨
    ∃ n ∈ names, ∃ piece rest' out', a :: rest = piece ++ rest' ∧ out = new n ++ out' ∧
      StandsAt n past piece rest' ∧ Longest names past (a :: rest) n ∧
        Substitutes names new (piece.reverse ++ past) rest' out' := by
  generalize e : a :: rest = t at h
  cases h with
  | done => cases e
  | keep free h =>
    obtain ⟨rfl, rfl⟩ := List.cons.inj e
    exact Or.inl ⟨_, rfl, free, h⟩
  | swap hn stands longest h => exact Or.inr ⟨_, hn, _, _, _, rfl, rfl, stands, longest, h⟩

theorem eq_nil (h : Substitutes names new past [] out) (hns : ∀ n ∈ names, IsNamespace n) :
    out = [] := by
  generalize e : [] = t at h
  cases h with
  | done => rfl
  | keep => cases e
  | swap hn stands longest h =>
    obtain ⟨a, r, rfl, -⟩ := stands.exists_cons (hns _ hn)
    cases e

theorem clear_iff (h : Substitutes names new past t out) (ren : Renaming names new) :
    Clear out ↔ Clear t := by
  cases h with
  | done => exact Iff.rfl
  | keep => rw [clear_cons, clear_cons]
  | @swap _ n _ _ _ hn stands longest h =>
    obtain ⟨a, r, rfl, ha⟩ := stands.exists_cons (ren.namespaces n hn)
    obtain ⟨b, r', hb', hb⟩ := (ren.identifiers n hn).exists_cons
    rw [hb']
    exact iff_of_false (not_clear_of_isIdent hb) (not_clear_of_isIdent ha)

/-- A piece of text passes through a pass unchanged when no reference stands at its identifier
characters. -/
theorem keeps {piece rest : Text} (hns : ∀ n ∈ names, IsNamespace n)
    (h : Substitutes names new past (piece ++ rest) out)
    (blocked : ∀ x a y, piece = x ++ a :: y → isIdent a = true → ∀ t', piece ++ rest = x ++ t' →
      Free names (x.reverse ++ past) t') :
    ∃ out', out = piece ++ out' ∧ Substitutes names new (piece.reverse ++ past) rest out' := by
  induction piece generalizing past out with
  | nil => exact ⟨out, rfl, h⟩
  | cons a piece ih =>
    rcases h.cons_cases with ⟨out', rfl, -, h⟩ | ⟨n, hn, piece', rest', out', e, rfl, stands, -, h⟩
    · obtain ⟨out'', rfl, h'⟩ := ih h fun x b y split hb t' e => by
        have := blocked (a :: x) b y (congrArg _ split) hb t' (congrArg _ e)
        simpa using this
      exact ⟨out'', rfl, by simpa using h'⟩
    · obtain ⟨b, r, rfl, hb⟩ := stands.exists_cons (hns n hn)
      obtain ⟨rfl, -⟩ := List.cons.inj e
      exact absurd stands (blocked [] a piece rfl hb _ rfl n hn _ _ e)

/-- A piece of the written text was there before when no reference stands at its identifier
characters. -/
theorem kept {piece : Text} (ren : Renaming names new)
    (h : Substitutes names new past t (piece ++ out))
    (blocked : ∀ x a y, piece = x ++ a :: y → isIdent a = true → ∀ t', t = x ++ t' →
      Free names (x.reverse ++ past) t') :
    ∃ rest, t = piece ++ rest ∧ Substitutes names new (piece.reverse ++ past) rest out := by
  induction piece generalizing past t with
  | nil => exact ⟨t, rfl, h⟩
  | cons a piece ih =>
    cases t with
    | nil => cases h.eq_nil ren.namespaces
    | cons b t =>
      rcases h.cons_cases with ⟨out', e, -, h⟩ | ⟨n, hn, piece', rest', out', e, e', stands, -, h⟩
      · obtain ⟨rfl, rfl⟩ := List.cons.inj e
        obtain ⟨rest, rfl, h'⟩ := ih h fun x c y split hc t' e => by
          have := blocked (a :: x) c y (congrArg _ split) hc t' (congrArg _ e)
          simpa using this
        exact ⟨rest, rfl, by simpa using h'⟩
      · obtain ⟨c, r, hc', hc⟩ := (ren.identifiers n hn).exists_cons
        rw [hc'] at e'
        obtain ⟨rfl, -⟩ := List.cons.inj e'
        exact absurd stands (blocked [] a piece rfl hc _ rfl n hn _ _ e)

/-- A reference at which no replacement begins still stands in the written text. -/
theorem forth {n piece rest past' : Text} (ren : Renaming names new) (hn : IsNamespace n)
    (h : Substitutes names new past (piece ++ rest) out) (free : Free names past (piece ++ rest))
    (undotted : Undotted names past (piece ++ rest)) (before : Clear past → Clear past')
    (stands : StandsAt n past piece rest) :
    ∃ out', out = piece ++ out' ∧ StandsAt n past' piece out' ∧
      Substitutes names new (piece.reverse ++ past) rest out' := by
  obtain ⟨out', rfl, h'⟩ := h.keeps ren.namespaces fun x a y split ha t' e =>
    free_in_spelling stands.spelled hn undotted free split ha e
  refine ⟨out', rfl, ⟨stands.spelled, before stands.before, ?_⟩, h'⟩
  exact (h'.clear_iff ren).2 stands.after

/-- A reference in the written text at which no replacement was made stood there before. -/
theorem back {n piece past' : Text} (ren : Renaming names new) (hn : IsNamespace n)
    (h : Substitutes names new past t (piece ++ out)) (free : Free names past t)
    (undotted : Undotted names past t) (before : Clear past' → Clear past)
    (stands : StandsAt n past' piece out) :
    ∃ rest, t = piece ++ rest ∧ StandsAt n past piece rest ∧
      Substitutes names new (piece.reverse ++ past) rest out := by
  obtain ⟨rest, rfl, h'⟩ := h.kept ren fun x a y split ha t' e =>
    free_in_spelling stands.spelled hn undotted free split ha e
  refine ⟨rest, rfl, ⟨stands.spelled, before stands.before, ?_⟩, h'⟩
  exact (h'.clear_iff ren).1 stands.after

/-- **No reference to the namespaces is left in the written text.** -/
theorem free_out {past' : Text} (ren : Renaming names new)
    (h : Substitutes names new past t out) (undotted : Undotted names past t)
    (before : Clear past ↔ Clear past') :
    ∀ x y, out = x ++ y → Free names (x.reverse ++ past') y := by
  induction h generalizing past' with
  | done =>
    intro x y e
    obtain ⟨rfl, rfl⟩ := List.append_eq_nil_iff.1 e.symm
    exact free_nil ren.namespaces
  | @keep past a rest out free h ih =>
    intro x y e
    cases x with
    | nil =>
      obtain rfl : a :: out = y := e
      intro n hn piece out' e' stands
      have h' := Substitutes.keep free h
      rw [e'] at h'
      obtain ⟨rest', e'', stands', -⟩ :=
        h'.back ren (ren.namespaces n hn) free undotted before.2 stands
      exact free n hn _ _ e'' stands'
    | cons b x =>
      obtain ⟨rfl, e'⟩ := List.cons.inj e
      have agree : Clear (a :: past) ↔ Clear (a :: past') := clear_cons.trans clear_cons.symm
      have := ih (undotted.advance [a]) agree x y e'
      simpa using this
  | @swap past n piece rest out hn stands _ h ih =>
    intro x y e
    have hs := ren.identifiers n hn
    have agree : Clear (piece.reverse ++ past) ↔ Clear ((new n).reverse ++ past') :=
      iff_of_false (stands.not_clear_reverse_append (ren.namespaces n hn) past)
        hs.not_clear_reverse_append
    have behind := ih (undotted.advance piece) agree
    rcases List.append_eq_append_iff.1 e with ⟨u, rfl, e'⟩ | ⟨u, e', rfl⟩
    · have := behind u y e'
      simpa using this
    · cases u with
      | nil =>
        rw [List.append_nil] at e'
        simpa [e'] using behind [] out rfl
      | cons a u =>
        have clear : Clear out := (h.clear_iff ren).2 stands.after
        exact free_in_identifier hs ren.namespaces (ren.fresh n hn) clear e' e

/-- **Passes can be joined**: a pass for some namespaces and then one for a namespace that is not
longer make a pass for all of them. -/
theorem join {n past' mid : Text} (ren : Renaming (n :: names) new)
    (h : Substitutes names new past t mid) (h' : Substitutes [n] new past' mid out)
    (undotted : Undotted (n :: names) past t) (before : Clear past ↔ Clear past')
    (shorter : ∀ m ∈ names, n.length ≤ m.length) : Substitutes (n :: names) new past t out := by
  have sub : names ⊆ n :: names := List.subset_cons_self n names
  have hn : IsNamespace n := ren.namespaces n List.mem_cons_self
  have undotted' : Undotted names past t := undotted.subset sub
  -- a reference is passed over as a whole, so the induction is on the length of the text
  induction hk : t.length using Nat.strongRecOn generalizing past past' t mid out with
  | ind k ih =>
    cases t with
    | nil =>
      obtain rfl := h.eq_nil (ren.subset sub).namespaces
      obtain rfl := h'.eq_nil (by simpa using hn)
      exact .done past
    | cons a rest =>
      rcases h.cons_cases with
        ⟨mid', rfl, free, hrest⟩ | ⟨m, hm, piece, rest', mid', e, rfl, stands, longest, hrest⟩
      · rcases h'.cons_cases with
          ⟨out', rfl, free', hrest'⟩ | ⟨n', hn', piece, rest', out', e, rfl, stands, -, hrest'⟩
        · -- neither pass replaces anything here
          refine .keep (free.cons fun piece rest' e stands => ?_)
            (ih rest.length (by simp [← hk]) hrest hrest' (undotted.advance [a])
              (clear_cons.trans clear_cons.symm) (undotted'.advance [a]) rfl)
          rw [e] at h free undotted'
          obtain ⟨out', e', stands', -⟩ :=
            h.forth (ren.subset sub) hn free undotted' before.1 stands
          exact free' n (List.mem_singleton.2 rfl) piece out' e' stands'
        · -- the second pass replaces a reference that was there before
          obtain rfl := List.mem_singleton.1 hn'
          rw [e] at h
          obtain ⟨rest'', e', stands', h''⟩ :=
            h.back (ren.subset sub) hn free undotted' before.2 stands
          have hlt : rest''.length < k := hk ▸ e' ▸ stands'.length_lt hn
          have agree : Clear (piece.reverse ++ past) ↔ Clear (piece.reverse ++ past') :=
            iff_of_false (stands.not_clear_reverse_append hn _)
              (stands.not_clear_reverse_append hn _)
          rw [e'] at free undotted undotted' ⊢
          exact .swap List.mem_cons_self stands' free.longest
            (ih _ hlt h'' hrest' (undotted.advance piece) agree (undotted'.advance piece) rfl)
      · -- the first pass replaces a reference, in which the second one finds nothing
        have hs := ren.identifiers m (sub hm)
        have clear : Clear mid' := (hrest.clear_iff (ren.subset sub)).2 stands.after
        have single : [n] ⊆ n :: names := by simp
        obtain ⟨out', rfl, h''⟩ := h'.keeps (ren.subset single).namespaces fun x b y split _ t' e =>
          free_in_identifier hs (ren.subset single).namespaces
            (fun n' hn' => ren.fresh m (sub hm) n' (single hn')) clear split e
        have hlt : rest'.length < k := hk ▸ e ▸ stands.length_lt (ren.namespaces m (sub hm))
        have agree : Clear (piece.reverse ++ past) ↔ Clear ((new m).reverse ++ past') :=
          iff_of_false (stands.not_clear_reverse_append (ren.namespaces m (sub hm)) _)
            hs.not_clear_reverse_append
        rw [e] at longest undotted undotted' ⊢
        exact .swap (sub hm) stands (longest.cons (shorter m hm))
          (ih _ hlt hrest h'' (undotted.advance piece) agree (undotted'.advance piece) rfl)

/-- A pass depends on the members of the list only. -/
theorem congr {names' : List Text} (h : Substitutes names new past t out)
    (same : ∀ n, n ∈ names ↔ n ∈ names') : Substitutes names' new past t out := by
  induction h with
  | done past => exact .done past
  | keep free _ ih => exact .keep (fun n hn => free n ((same n).2 hn)) ih
  | swap hn stands longest _ ih =>
    exact .swap ((same _).1 hn) stands (fun m hm => longest m ((same m).2 hm)) ih

/-- Without namespaces nothing is replaced. -/
theorem nothing (new : Text → Text) (past t : Text) : Substitutes [] new past t t := by
  induction t generalizing past with
  | nil => exact .done past
  | cons a t ih => exact .keep (fun n hn => absurd hn List.not_mem_nil) (ih (a :: past))

end Substitutes

/-! ## The replacements are passes -/

theorem reads_of_mem_ends_reference {name : Text} {c d : Cursor} (h : d ∈ (reference name).ends c) :
    ∃ piece rest, c.rest = piece ++ rest ∧ StandsAt name c.past piece rest ∧ c.Reads piece d := by
  obtain ⟨piece, rest, e, stands, rfl⟩ := mem_ends_reference.1 h
  exact ⟨piece, rest, e, stands, Cursor.reads_after e⟩

theorem consumes_reference {name : Text} (hne : name ≠ []) : (reference name).Consumes := by
  intro c d hd
  obtain ⟨piece, rest, -, stands, reads⟩ := reads_of_mem_ends_reference hd
  have := List.length_pos_iff.2 (stands.ne_nil hne)
  rw [reads.offset]
  omega

/-- The references that are found in a text are exchanged for a name. -/
theorem rewrites_replaceReferences {name : Text} (hne : name ≠ []) (t l : Text) :
    Rewrites (fun past piece rest new => (StandsAt name past piece rest ∧ new = l) ∧
        ∃ m ∈ (reference name).allMatches t, m.start.past = past ∧ m.text = piece)
      [] t (replaceReferences t name l) := by
  refine rewrites_replaceAt_of_matches (consumes_reference hne) [] t 0 fun m hm => ?_
  obtain ⟨piece, rest, e, stands, reads⟩ := reads_of_mem_ends_reference (mem_allMatches hm).2.2
  have text : m.text = piece := by rw [Match.text, reads.textTo]
  rw [text, reads.eq_of_rest e rfl]
  exact ⟨⟨stands, rfl⟩, m, hm, rfl, text⟩

/-- Replacing the references to one namespace is a pass. -/
theorem substitutes_replaceAt {name : Text} (new : Text → Text) (hn : IsNamespace name)
    (past t : Text) (offset : Nat) : Substitutes [name] new past t
      ((reference name).replaceAt (fun _ => new name) past offset t) := by
  have consumes := consumes_reference hn.ne_nil
  induction past, offset, t using consumes.induct with
  | done past offset =>
    rw [replaceAt_nil _ consumes]
    exact .done past
  | keep past offset a rest none ih =>
    rw [replaceAt_of_none _ none]
    refine .keep (fun n hn' piece rest' e stands => ?_) ih
    obtain rfl := List.mem_singleton.1 hn'
    have found : _ ∈ (reference n).ends ⟨past, offset, a :: rest, []⟩ :=
      mem_ends_reference.2 ⟨piece, rest', e, stands, rfl⟩
    rw [none] at found
    exact absurd found List.not_mem_nil
  | swap past offset piece d ds hends reads ih =>
    obtain ⟨piece', rest', e, stands, reads'⟩ :=
      reads_of_mem_ends_reference (hends ▸ List.mem_cons_self)
    obtain rfl := reads.unique reads'
    obtain rfl : d.rest = rest' := List.append_cancel_left e
    rw [replaceAt_of_match _ consumes hends reads]
    refine .swap (List.mem_singleton.2 rfl) stands (fun m hm _ _ _ _ => ?_) ih
    obtain rfl := List.mem_singleton.1 hm
    exact Nat.le_refl _

/-- Replacing the references to some namespaces one after another is a pass. -/
theorem substitutes_foldl {done order : List Text} {new : Text → Text} {t mid : Text}
    (ren : Renaming (order.reverse ++ done) new) (undotted : Undotted (order.reverse ++ done) [] t)
    (decreasing : order.Pairwise fun a b => b.length ≤ a.length)
    (shorter : ∀ n ∈ order, ∀ m ∈ done, n.length ≤ m.length) (h : Substitutes done new [] t mid) :
    Substitutes (order.reverse ++ done) new [] t
      (order.foldl (fun u n => replaceReferences u n (new n)) mid) := by
  induction order generalizing done mid with
  | nil => exact h
  | cons n order ih =>
    obtain ⟨first, decreasing⟩ := List.pairwise_cons.1 decreasing
    have e : (n :: order).reverse ++ done = order.reverse ++ n :: done := by simp
    rw [e] at ren undotted ⊢
    have sub : n :: done ⊆ order.reverse ++ n :: done := List.subset_append_right _ _
    have pass : Substitutes [n] new [] mid (replaceReferences mid n (new n)) :=
      substitutes_replaceAt new (ren.namespaces n (sub List.mem_cons_self)) [] mid 0
    refine ih ren undotted decreasing (fun k hk m hm => ?_) (h.join (ren.subset sub) pass
      (undotted.subset sub) Iff.rfl (shorter n List.mem_cons_self))
    rcases List.mem_cons.1 hm with rfl | hm
    · exact first k hk
    · exact shorter k (List.mem_cons_of_mem _ hk) m hm

/-! ## The single pass is a pass -/

theorem matchAt?_reference {name : Text} {c : Cursor} {m : Match}
    (h : (reference name).matchAt? c = some m) :
    ∃ rest, c.rest = m.text ++ rest ∧ StandsAt name c.past m.text rest := by
  rw [matchAt?_eq_head?, Option.map_eq_some_iff] at h
  obtain ⟨d, hd, rfl⟩ := h
  obtain ⟨piece, rest, e, stands, rfl⟩ := mem_ends_reference.1 (List.mem_of_mem_head? hd)
  have text : (Match.mk c (c.after piece rest)).text = piece := by
    simp [Match.text, Cursor.textTo, e]
  rw [text]
  exact ⟨rest, e, stands⟩

theorem matchAt?_reference_eq_none {name : Text} {c : Cursor} :
    (reference name).matchAt? c = none ↔
      ∀ piece rest, c.rest = piece ++ rest → ¬ StandsAt name c.past piece rest := by
  rw [matchAt?_eq_head?, Option.map_eq_none_iff, List.head?_eq_none_iff,
    List.eq_nil_iff_forall_not_mem]
  constructor
  · exact fun h piece rest e stands => h _ (mem_ends_reference.2 ⟨piece, rest, e, stands, rfl⟩)
  · intro h d hd
    obtain ⟨piece, rest, e, stands, -⟩ := mem_ends_reference.1 hd
    exact h piece rest e stands

theorem longestFirst_pairwise {α : Type} (name : α → Text) (l : List α) :
    (Recast.longestFirst name l).Pairwise fun a b => (name b).length ≤ (name a).length := by
  refine sortBy_pairwise (fun a b => of_decide_eq_true) (fun a b h => ?_) (fun a b c h h' => ?_) l
  · have := of_decide_eq_false h
    omega
  · omega

theorem longestMatch?_of_free {names : List Text} {c : Cursor} (h : Free names c.past c.rest) :
    longestMatch? names c = none := by
  rw [longestMatch?, List.findSome?_eq_none_iff]
  intro name hn
  rw [Option.map_eq_none_iff, matchAt?_reference_eq_none]
  exact h name ((mem_sortBy _).1 hn)

theorem longestMatch?_of_longest {names : List Text} {c : Cursor} {n piece rest : Text}
    (hns : ∀ n ∈ names, IsNamespace n) (hn : n ∈ names) (e : c.rest = piece ++ rest)
    (stands : StandsAt n c.past piece rest) (longest : Longest names c.past c.rest n) :
    ∃ m, longestMatch? names c = some (n, m) ∧ m.text = piece := by
  have hmem : n ∈ Recast.longestFirst id names := (mem_sortBy _).2 hn
  have unread {k : Text} (h : ((reference k).matchAt? c).map (fun m => (k, m)) = none) : k ≠ n := by
    rintro rfl
    exact matchAt?_reference_eq_none.1 (Option.map_eq_none_iff.1 h) piece rest e stands
  cases hfind : longestMatch? names c with
  | none => exact absurd rfl (unread (List.findSome?_eq_none_iff.1 hfind n hmem))
  | some found =>
    obtain ⟨n', m⟩ := found
    obtain ⟨before, k, behind, hl, hk, hbefore⟩ := List.findSome?_eq_some_iff.1 hfind
    obtain ⟨m', hm, hm'⟩ := Option.map_eq_some_iff.1 hk
    obtain ⟨rfl, rfl⟩ := Prod.mk.inj hm'
    obtain ⟨rest', e', stands'⟩ := matchAt?_reference hm
    have hk : k ∈ names := (mem_sortBy _).1 (hl ▸ List.mem_append_right _ List.mem_cons_self)
    -- the first of the names in order of length that can be read is not shorter than `n`
    have length : n.length ≤ k.length := by
      have sorted := longestFirst_pairwise id names
      rw [hl] at hmem sorted
      rcases List.mem_append.1 hmem with h | h
      · exact absurd rfl (unread (hbefore n h))
      · rcases List.mem_cons.1 h with rfl | h
        · exact Nat.le_refl _
        · exact (List.pairwise_cons.1 (List.pairwise_append.1 sorted).2.1).1 n h
    have length' : k.length ≤ n.length := longest k hk _ _ e' stands'
    obtain ⟨rfl, rfl⟩ := stands'.eq_of_length_eq stands (hns k hk) (hns n hn) (e'.symm.trans e)
      (Nat.le_antisymm length' length)
    exact ⟨m', rfl, rfl⟩

theorem substituteFrom_append (names : List Text) (new : Text → Text) (piece past rest : Text)
    (offset : Nat) : substituteFrom names new piece.length past offset (piece ++ rest) =
      substituteFrom names new 0 (piece.reverse ++ past) (offset + piece.length) rest := by
  induction piece generalizing past offset with
  | nil => rfl
  | cons a piece ih =>
    have h := ih (a :: past) (offset + 1)
    simp only [List.length_cons, List.cons_append, substituteFrom, List.reverse_cons,
      List.append_assoc, List.nil_append]
    rw [h]
    congr 1
    omega

/-- All passes write the same text. -/
theorem Substitutes.eq_substituteFrom {names : List Text} {new : Text → Text} {past t out : Text}
    (hns : ∀ n ∈ names, IsNamespace n) (h : Substitutes names new past t out) (offset : Nat) :
    out = substituteFrom names new 0 past offset t := by
  induction h generalizing offset with
  | done past => rfl
  | @keep past a rest out free _ ih =>
    have none : longestMatch? names ⟨past, offset, a :: rest, []⟩ = none :=
      longestMatch?_of_free free
    rw [substituteFrom, none]
    exact congrArg _ (ih (offset + 1))
  | @swap past n piece rest out hn stands longest _ ih =>
    obtain ⟨m, some, text⟩ := longestMatch?_of_longest (c := ⟨past, offset, piece ++ rest, []⟩)
      hns hn rfl stands longest
    obtain ⟨a, r, rfl, -⟩ := stands.exists_cons (hns n hn)
    rw [List.cons_append] at some ⊢
    rw [substituteFrom, some, ih (offset + (a :: r).length), ← substituteFrom_append]
    simp [text, substituteFrom]

/-! ## The main theorem -/

theorem Cursor.ofText_append (x y : Text) :
    Cursor.ofText (x ++ y) x.length = ⟨x.reverse, x.length, y, []⟩ := by
  simp [Cursor.ofText]

theorem afterDot_append {x : Text} (y : Text) (h : EndsWithDot x.reverse) :
    afterDot (x ++ y) x.length = true := by
  obtain ⟨r, hr⟩ := List.head?_eq_some_iff.1 h
  simp [afterDot, Text.endsWith, Text.trimEnd, Text.dropEndWhile, hr]

theorem undotted_of_afterDot {names : List Text} {t : Text}
    (undotted : ∀ n ∈ names, ∀ i ≤ t.length, (reference n).fits (Cursor.ofText t i) = true →
      afterDot t i = false) : Undotted names [] t := by
  rintro x y rfl dot n hn piece rest e stands
  rw [List.append_nil] at dot stands
  have fits : (reference n).fits (Cursor.ofText (x ++ y) x.length) = true := by
    rw [Cursor.ofText_append, fits_iff]
    exact List.ne_nil_of_mem (mem_ends_reference.2 ⟨piece, rest, e, stands, rfl⟩)
  have := undotted n hn x.length (by simp) fits
  rw [afterDot_append y dot] at this
  cases this

/-- **Replacing the longest namespaces first replaces them all at once**, and leaves no reference to
any of them. -/
theorem foldl_replaceReferences_eq_substitute (names order : List Text) (new : Text → Text)
    (t : Text) (ren : Renaming names new) (same : ∀ n, n ∈ order ↔ n ∈ names)
    (decreasing : order.Pairwise fun a b => b.length ≤ a.length)
    (undotted : ∀ n ∈ names, ∀ i ≤ t.length, (reference n).fits (Cursor.ofText t i) = true →
      afterDot t i = false) :
    order.foldl (fun u n => replaceReferences u n (new n)) t = substitute names new t ∧
      ∀ n ∈ names, (reference n).occursIn (substitute names new t) = false := by
  have same' : ∀ n, n ∈ order.reverse ++ [] ↔ n ∈ names := by simpa using same
  have dots := undotted_of_afterDot undotted
  have pass : Substitutes names new [] t
      (order.foldl (fun u n => replaceReferences u n (new n)) t) := by
    have sub : order.reverse ++ [] ⊆ names := fun n => (same' n).1
    exact (substitutes_foldl (ren.subset sub) (dots.subset sub) decreasing
      (fun _ _ _ h => absurd h List.not_mem_nil) (.nothing new [] t)).congr same'
  have eq : order.foldl (fun u n => replaceReferences u n (new n)) t = substitute names new t :=
    pass.eq_substituteFrom ren.namespaces 0
  refine ⟨eq, fun n hn => ?_⟩
  rw [← eq]
  refine occursIn_eq_false fun x y e => matchAt?_reference_eq_none.2 fun piece rest e' stands => ?_
  have free := pass.free_out ren dots Iff.rfl x y e
  rw [List.append_nil] at free
  exact free n hn piece rest e' stands

/-- The theorem for nested namespaces and a reference that goes across two lines. -/
theorem foldl_replaceReferences_nested :
    let new (n : Text) : Text := if n = "app" then "root" else '_' :: lastSegment n
    [("app.ui.Box" : Text), "app.ui", "app"].foldl (fun u n => replaceReferences u n (new n))
      "app.ui\n  .Box(app.ui.x, 'app', app)" = "_Box(_ui.x, 'app', root)" :=
  have ren : Renaming ["app", "app.ui", "app.ui.Box"]
      fun n => if n = "app" then "root" else '_' :: lastSegment n :=
    ⟨by decide +kernel, by decide +kernel, by decide +kernel⟩
  (foldl_replaceReferences_eq_substitute _ _ _ _ ren (fun _ => List.mem_reverse)
    (by decide +kernel) (by decide +kernel)).1.trans (by decide +kernel)

end Modulize.Qualified
