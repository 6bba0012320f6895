import Modulize.Proofs.Qualified.Substitution
import Modulize.Proofs.Recast.Layout

/-!
# Passes that keep a layout

A pass over a text keeps a layout when it keeps out of the headers and exchanges pieces gently
(`Laid.rewrites`). The recasting of a file consists of two kinds of passes: references are exchanged
for names (`Laid.replaceReferences`), and spelled declarations for local ones (`Laid.declare`).
-/

namespace Modulize.Recast

open Pattern Qualified Declaration

variable {root h n l past piece rest t u x y : Text} {hs : List Text}

/-! ## Passes -/

section Passes

variable {R : Text → Text → Text → Text → Prop} {past out v : Text}

/-- Pieces that end before a place are exchanged before that place. -/
theorem exists_split_rewrites (h : Rewrites R past (v ++ y) out)
    (inside : ∀ v₁ v₂ piece rest new, v = v₁ ++ v₂ → v₂ ≠ [] →
      R (v₁.reverse ++ past) piece rest new → piece ++ rest = v₂ ++ y → piece <+: v₂) :
    ∃ v' out', out = v' ++ out' ∧
      Rewrites (fun past piece _ new => ∃ rest, R past piece rest new) past v v' ∧
      Rewrites R (v.reverse ++ past) y out' := by
  generalize e : v ++ y = t at h
  induction h generalizing v with
  | done past =>
    obtain ⟨rfl, rfl⟩ := List.append_eq_nil_iff.1 e
    exact ⟨[], [], rfl, .done past, .done _⟩
  | @keep past a rest out h ih =>
    cases v with
    | nil =>
      obtain rfl : y = a :: rest := e
      exact ⟨[], a :: out, rfl, .done past, .keep a h⟩
    | cons b v =>
      obtain ⟨rfl, rfl⟩ := List.cons.inj e
      obtain ⟨v', out', rfl, front, behind⟩ := ih
        (fun v₁ v₂ piece rest new e => by
          simpa using inside (b :: v₁) v₂ piece rest new (by simp [e])) rfl
      exact ⟨b :: v', out', rfl, .keep b front, by simpa using behind⟩
  | @swap past piece rest new out hR h ih =>
    cases v with
    | nil =>
      obtain rfl : y = piece ++ rest := e
      exact ⟨[], new ++ out, rfl, .done past, .swap hR h⟩
    | cons b v =>
      obtain ⟨v₂, hv⟩ := inside [] (b :: v) piece rest new rfl (by simp) hR e.symm
      rw [← hv] at e inside ⊢
      rw [List.append_assoc] at e
      obtain rfl := List.append_cancel_left e
      obtain ⟨v', out', rfl, front, behind⟩ := ih
        (fun v₁ v₃ p rest new e => by
          simpa using inside (piece ++ v₁) v₃ p rest new (by simp [e])) rfl
      exact ⟨new ++ v', out', by simp, .swap ⟨_, hR⟩ front, by simpa using behind⟩

/-- Where nothing can be exchanged, a text is kept. -/
theorem exists_kept_rewrites (h : Rewrites R past (v ++ y) out)
    (outside : ∀ v₁ v₂ piece rest new, v = v₁ ++ v₂ → v₂ ≠ [] →
      R (v₁.reverse ++ past) piece rest new → piece ++ rest ≠ v₂ ++ y) :
    ∃ out', out = v ++ out' ∧ Rewrites R (v.reverse ++ past) y out' := by
  induction v generalizing past out with
  | nil => exact ⟨out, rfl, h⟩
  | cons b v ih =>
    generalize e : b :: v ++ y = t at h
    cases h with
    | done => cases e
    | keep a h =>
      obtain ⟨rfl, rfl⟩ := List.cons.inj e
      obtain ⟨out', rfl, behind⟩ := ih h fun v₁ v₂ piece rest new e => by
        simpa using outside (b :: v₁) v₂ piece rest new (by simp [e])
      exact ⟨out', rfl, by simpa using behind⟩
    | swap hR h => exact absurd e.symm (outside [] (b :: v) _ _ _ rfl (by simp) hR)

theorem eq_nil_of_rewrites (first : ∀ past piece rest new, R past piece rest new → piece ≠ [])
    (h : Rewrites R past [] out) : out = [] := by
  generalize e : [] = t at h
  cases h with
  | done => rfl
  | keep => cases e
  | swap hR => exact absurd (List.append_eq_nil_iff.1 e.symm).1 (first _ _ _ _ hR)

/-- **A stretch that no piece touches is kept**, and it stays in front if it is there. -/
theorem exists_framed_rewrites {x : Text} (h : Rewrites R [] (x ++ (v ++ y)) out)
    (first : ∀ past piece rest new, R past piece rest new → piece ≠ [])
    (apart : ∀ past piece rest new, R past piece rest new →
      past.reverse ++ (piece ++ rest) = x ++ (v ++ y) →
        past.length + piece.length ≤ x.length ∨ x.length + v.length ≤ past.length) :
    ∃ x' y', out = x' ++ (v ++ y') ∧ (x = [] → x' = []) := by
  obtain ⟨x', out', rfl, front, onStretch⟩ := exists_split_rewrites h
    fun x₁ x₂ piece rest new e hne hR e' => by
      subst e
      have := List.length_pos_iff.2 hne
      have := apart _ piece rest new hR (by simp [e'])
      simp only [List.length_append, List.length_reverse, List.length_nil] at this
      exact List.prefix_of_prefix_length_le ⟨rest, e'⟩ (List.prefix_append x₂ _) (by omega)
  obtain ⟨y', rfl, -⟩ := exists_kept_rewrites onStretch fun v₁ v₂ piece rest new e hne hR e' => by
    subst e
    have := List.length_pos_iff.2 hne
    have := List.length_pos_iff.2 (first _ _ _ _ hR)
    have := apart _ piece rest new hR (by simp [e'])
    simp only [List.length_append, List.length_reverse, List.length_nil] at this
    omega
  refine ⟨x', y', rfl, ?_⟩
  rintro rfl
  exact eq_nil_of_rewrites (fun past piece rest new ⟨_, hR⟩ => first _ _ _ _ hR) front

/-- A stretch at the beginning of a line is kept there if no piece touches it or the line break
before it. -/
theorem exists_framed_line {x : Text} (starts : AtBreak x.reverse)
    (h : Rewrites R [] (x ++ (v ++ y)) out)
    (first : ∀ past piece rest new, R past piece rest new → piece ≠ [])
    (apart : ∀ past piece rest new, R past piece rest new →
      past.length + piece.length < x.length ∨ x.length + v.length ≤ past.length) :
    ∃ x' y', out = x' ++ (v ++ y') ∧ AtBreak x'.reverse := by
  rcases atBreak_reverse_iff.1 starts with rfl | ⟨w, rfl⟩
  · obtain ⟨x', y', kept, front⟩ := exists_framed_rewrites h first fun past piece rest new hR _ =>
      (apart past piece rest new hR).imp Nat.le_of_lt id
    obtain rfl := front rfl
    exact ⟨[], y', kept, atBreak_nil⟩
  · rw [List.append_assoc, ← List.append_assoc ['\n']] at h
    obtain ⟨x', y', kept, -⟩ := exists_framed_rewrites h first fun past piece rest new hR _ => by
      have := apart past piece rest new hR
      simp only [List.length_append, List.length_singleton] at this ⊢
      omega
    exact ⟨x' ++ ['\n'], y', by simp [kept], by simp [AtBreak]⟩

/-- A line break at the beginning of a text is kept if no piece begins with it. -/
theorem atBreak_of_rewrites
    (first : ∀ past piece rest new, R past piece rest new → ∃ a r, piece = a :: r ∧ a ≠ '\n')
    (h : Rewrites R past t out) (ht : AtBreak t) : AtBreak out := by
  cases h with
  | done => exact atBreak_nil
  | keep a h => exact ht
  | swap hR h =>
    obtain ⟨a, r, rfl, ha⟩ := first _ _ _ _ hR
    exact absurd (ht a rfl) ha

/-- The end of a line is kept if no piece ends with it. -/
theorem exists_concat_of_rewrites
    (first : ∀ past piece rest new, R past piece rest new → piece ≠ [])
    (last : ∀ past piece rest new, R past piece rest new → ∀ a ∈ piece.getLast?, a ≠ '\n')
    (h : Rewrites R past t out) {w : Text} (e : t = w ++ ['\n']) : ∃ w', out = w' ++ ['\n'] := by
  induction h generalizing w with
  | done => simp at e
  | @keep past a rest out h ih =>
    cases w with
    | nil =>
      obtain ⟨rfl, rfl⟩ := List.cons.inj e
      exact ⟨[], by rw [eq_nil_of_rewrites first h]; rfl⟩
    | cons b w =>
      obtain ⟨w', rfl⟩ := ih (List.cons.inj e).2
      exact ⟨a :: w', rfl⟩
  | @swap past piece rest new out hR h ih =>
    have lastBreak : (piece ++ rest).getLast? = some '\n' := by simp [e]
    rw [List.getLast?_append] at lastBreak
    cases hr : rest.getLast? with
    | none =>
      rw [hr, Option.none_or] at lastBreak
      exact absurd rfl (last _ _ _ _ hR _ lastBreak)
    | some b =>
      rw [hr, Option.some_or] at lastBreak
      obtain rfl := Option.some.inj lastBreak
      obtain ⟨r, hr⟩ := List.getLast?_eq_some_iff.1 hr
      obtain ⟨w', rfl⟩ := ih hr
      exact ⟨new ++ w', by simp⟩

theorem atBreak_reverse_of_rewrites
    (first : ∀ past piece rest new, R past piece rest new → piece ≠ [])
    (last : ∀ past piece rest new, R past piece rest new → ∀ a ∈ piece.getLast?, a ≠ '\n')
    (h : Rewrites R past t out) (ht : AtBreak t.reverse) : AtBreak out.reverse := by
  rcases atBreak_reverse_iff.1 ht with rfl | ⟨w, e⟩
  · rw [eq_nil_of_rewrites first h]
    exact atBreak_nil
  · exact atBreak_reverse_iff.2 (Or.inr (exists_concat_of_rewrites first last h e))

/-- What is exchanged keeps out of the headers. -/
structure Careful (root : Text) (hs : List Text) (R : Text → Text → Text → Text → Prop) :
    Prop where
  first : ∀ past piece rest new, R past piece rest new → ∃ a r, piece = a :: r ∧ a ≠ '\n'
  last : ∀ past piece rest new, R past piece rest new → ∀ a ∈ piece.getLast?, a ≠ '\n'
  /-- A piece that begins before a header ends there too. -/
  inside : ∀ past piece rest new, R past piece rest new → ∀ v h t, piece ++ rest = v ++ (h ++ t) →
    Silent callWords v → AtBreak v.reverse → v ≠ [] → IsHeaderLine root h → piece <+: v
  /-- No piece begins in a header. -/
  outside : ∀ h ∈ hs, ∀ h₁ h₂ past piece rest new t, h = h₁ ++ h₂ → h₂ ≠ [] →
    R (h₁.reverse ++ past) piece rest new → piece ++ rest ≠ h₂ ++ t
  gentle : ∀ past piece rest new, R past piece rest new → Gentle callWords past piece new

/-- **A careful pass keeps a layout.** -/
theorem Laid.rewrites (laid : Laid root hs t) (careful : Careful root hs R)
    (h : Rewrites R past t out) : Laid root hs out := by
  have first : ∀ past piece rest new, R past piece rest new → piece ≠ [] := by
    intro past piece rest new hR
    obtain ⟨a, r, rfl, -⟩ := careful.first past piece rest new hR
    simp
  induction laid generalizing past out with
  | code silent => exact .code (Silent.rewrites (u := []) careful.gentle h (by simp) silent)
  | @header x line t hs silent ends hl starts rest ih =>
    obtain ⟨x', out', rfl, front, onHeader⟩ := exists_split_rewrites h
      fun v₁ v₂ piece rest new e hne hR e' => by
        subst e
        rw [List.reverse_append] at ends
        exact careful.inside _ piece rest new hR v₂ line t e' silent.of_append
          ends.of_append hne hl
    obtain ⟨out', rfl, behind⟩ := exists_kept_rewrites onHeader fun v₁ v₂ piece rest new e hne hR =>
      careful.outside line List.mem_cons_self v₁ v₂ _ piece rest new t e hne hR
    have careful' : Careful root hs R :=
      ⟨careful.first, careful.last, careful.inside,
        fun h hm => careful.outside h (List.mem_cons_of_mem _ hm), careful.gentle⟩
    refine .header ?_ ?_ hl (atBreak_of_rewrites careful.first behind starts) (ih careful' behind)
    · exact Silent.rewrites (u := [])
        (fun past piece _ new ⟨rest, hR⟩ => careful.gentle past piece rest new hR) front (by simp)
        silent
    · exact atBreak_reverse_of_rewrites
        (fun past piece _ new ⟨rest, hR⟩ => first past piece rest new hR)
        (fun past piece _ new ⟨rest, hR⟩ => careful.last past piece rest new hR) front ends

end Passes

/-! ## References -/

/-- A reference is exchanged gently for the last segment of the namespace, and for any name that
does not begin a call. -/
theorem gentle_reference (word : IsIdentifier l)
    (new : l = lastSegment n ∨ ∀ w ∈ callWords, ¬ l <+: w) (stands : StandsAt n past piece rest) :
    Gentle callWords past piece l := by
  intro u z hu silent
  have last : ∀ a ∈ u.getLast?, isIdent a = false := fun a ha =>
    Clear.head_not_isIdent stands.before a (hu a ha)
  have hlz : Silent callWords (l ++ z) :=
    (silent_of_not_mem (dot_not_mem_of_isIdentifier word)).append silent.of_append.of_append
  rcases new with rfl | other
  · obtain ⟨p, e, hp⟩ := stands.spelled.exists_last (segments_ne_nil n)
    rw [← lastSegment] at e
    rcases hp with rfl | ⟨p', b, rfl, hb⟩
    · rwa [e] at silent
    · have begins : ¬ BeginsCall callWords (beforeTag (lastSegment n ++ z)) := by
        have split : u ++ (piece ++ z) = (u ++ p') ++ '.' :: (b ++ (lastSegment n ++ z)) := by
          simp [e]
        rw [split] at silent
        have := silent.not_beginsCall
        rwa [beforeTag_blanks_append hb, beginsCall_blanks_append hb] at this
      exact silent.splice isIdentifier_of_mem_callWords
        ⟨begins, not_closes_word word z, Or.inl last⟩ hlz
  · exact silent.splice isIdentifier_of_mem_callWords
      (interrupts_word (b := []) word other rfl (Or.inl last) z) hlz

/-- Before a header a text that ends a line does not break off within a spelling. -/
theorem spelling_prefix {ss : List Text} {v h : Text} (hspell : Spells ss piece)
    (hss : ∀ s ∈ ss, IsIdentifier s) (silent : Silent callWords v) (ends : AtBreak v.reverse)
    (hv : v ≠ []) (first : ∀ a ∈ h.head?, isIdent a = true)
    (e : piece ++ rest = v ++ h) : piece <+: v := by
  rcases List.prefix_or_prefix_of_prefix ⟨rest, e⟩ (List.prefix_append v h) with front | ⟨q, hq⟩
  · exact front
  · have newline : isIdent '\n' = false := by decide
    have lastBreak : ∀ x b, v = x ++ [b] → isIdent b = false := by
      rintro x b rfl
      rw [List.reverse_append] at ends
      obtain rfl := ends b rfl
      exact newline
    cases q with
    | nil => exact ⟨[], by simpa using hq.symm⟩
    | cons a q =>
      rw [← hq, List.append_assoc] at e
      have ha : isIdent a = true := first a (by
        rw [← List.append_cancel_left e]
        rfl)
      rcases hspell.inner hss hv ha hq.symm with ⟨x, b, rfl, hb⟩ | ⟨x, b, rfl, hb⟩
      · rw [lastBreak x b rfl] at hb
        cases hb
      · refine absurd (beginsCall_of_all (by decide) ?_) silent.not_beginsCall
        have tag := beforeTag_blanks_append hb []
        rw [List.append_nil] at tag
        rw [tag]
        simpa [beforeTag] using hb

/-- No header mentions a namespace, except in quotes. -/
def Unmentioned (n : Text) (hs : List Text) : Prop := ∀ h ∈ hs, (reference n).occursIn h = false

instance (n : Text) (hs : List Text) : Decidable (Unmentioned n hs) :=
  inferInstanceAs (Decidable (∀ h ∈ hs, _))

/-- In a header that does not mention a namespace no reference to it begins. -/
theorem not_standsAt_of_occursIn {h₁ h₂ : Text} (hn : IsNamespace n) (line : IsHeaderLine root h)
    (free : (reference n).occursIn h = false) (split : h = h₁ ++ h₂) (hne : h₂ ≠ [])
    (e : piece ++ rest = h₂ ++ t) : ¬ StandsAt n (h₁.reverse ++ past) piece rest := by
  intro stands
  have within : piece <+: h₂ := by
    rcases List.prefix_or_prefix_of_prefix ⟨rest, e⟩ (List.prefix_append h₂ t) with front | beyond
    · exact front
    · obtain ⟨r, hr⟩ := line.exists_concat
      have last : ';' ∈ h₂ := by
        obtain ⟨a, ha⟩ := Option.ne_none_iff_exists'.1 (mt List.getLast?_eq_none_iff.1 hne)
        have := congrArg List.getLast? (split.symm.trans hr)
        rw [List.getLast?_append, ha, List.getLast?_concat] at this
        obtain rfl := Option.some.inj this
        exact List.mem_of_getLast? ha
      exact absurd (beyond.subset last) (not_mem_of_all (stands.spelled.all hn) (by decide))
  obtain ⟨h₃, rfl⟩ := within
  rw [List.append_assoc] at e
  obtain rfl := List.append_cancel_left e
  have alone : StandsAt n h₁.reverse piece h₃ :=
    ⟨stands.spelled, stands.before.of_append, stands.after.of_append⟩
  have none := matchAt?_of_occursIn_eq_false free split
  exact matchAt?_reference_eq_none.1 none piece h₃ rfl alone

theorem newline_ne_of_isIdent {a : Char} (ha : isIdent a = true) : a ≠ '\n' := by
  have newline : isIdent '\n' = false := by decide
  rintro rfl
  simp [newline] at ha

/-- References are exchanged outside of headers that do not mention the namespace. -/
theorem careful_reference (hroot : IsNamespace root) (hn : IsNamespace n) (word : IsIdentifier l)
    (new : l = lastSegment n ∨ ∀ w ∈ callWords, ¬ l <+: w)
    (lines : ∀ h ∈ hs, IsHeaderLine root h) (free : Unmentioned n hs) :
    Careful root hs fun past piece rest new => StandsAt n past piece rest ∧ new = l where
  first := by
    rintro past piece rest _ ⟨stands, -⟩
    obtain ⟨a, r, rfl, ha⟩ := stands.exists_cons hn
    exact ⟨a, r, rfl, newline_ne_of_isIdent ha⟩
  last := by
    rintro past piece rest _ ⟨stands, -⟩ a ha
    obtain ⟨r, b, rfl, hb⟩ := stands.exists_concat hn
    obtain rfl : b = a := by simpa using ha
    exact newline_ne_of_isIdent hb
  inside := by
    rintro past piece rest _ ⟨stands, -⟩ v h t e silent ends hv line
    refine spelling_prefix stands.spelled hn silent ends hv (fun a ha => ?_) e
    obtain ⟨b, r, rfl, hb⟩ := line.exists_cons hroot
    obtain rfl : b = a := by simpa using ha
    exact hb
  outside := by
    rintro h mem h₁ h₂ past piece rest _ t split hne ⟨stands, -⟩ e
    exact not_standsAt_of_occursIn hn (lines h mem) (free h mem) split hne e stands
  gentle := by
    rintro past piece rest _ ⟨stands, rfl⟩
    exact gentle_reference word new stands

/-- **References are exchanged for a name**, which is the last segment of the namespace or does not
begin a call. -/
theorem Laid.replaceReferences (hroot : IsNamespace root) (laid : Laid root hs t)
    (hn : IsNamespace n) (word : IsIdentifier l)
    (new : l = lastSegment n ∨ ∀ w ∈ callWords, ¬ l <+: w) (free : Unmentioned n hs) :
    Laid root hs (replaceReferences t n l) :=
  laid.rewrites (careful_reference hroot hn word new laid.lines free)
    ((rewrites_replaceReferences hn.ne_nil t l).imp fun _ _ _ _ h => h.1)

/-! ## Declarations -/

/-- A declaration that is spelled out at the beginning of a line is exchanged for one of a local
name. -/
inductive Declares : Text → Text → Text → Text → Prop
  | spelled {past w path b tail : Text} (rest : Text) {ss : List Text} {c : Char}
      (starts : AtBreak past) (spaces : w.all isSpaceOrTab = true) (spells : Spells ss path)
      (hne : ss ≠ []) (words : ∀ s ∈ ss, IsIdentifier s) (blanks : b.all isBlank = true)
      (ends : c = '=' ∨ c = ';') (undotted : '.' ∉ tail) :
      Declares past (w ++ (path ++ (b ++ [c]))) rest (w ++ ("let" ++ tail))

theorem endsName_of_eq {b : Text} {c : Char} (hb : b.all isBlank = true)
    (hc : c = '=' ∨ c = ';') : EndsName b c := by
  rcases hc with rfl | rfl
  · exact ⟨hb, by decide, by decide, Or.inr (by decide)⟩
  · exact ⟨hb, by decide, by decide, Or.inr (by decide)⟩

/-- A piece without identifier characters ends before the first of them. -/
theorem prefix_of_not_isIdent {p v : Text} (hp : (p.all fun a => ! isIdent a) = true)
    (hh : ∃ a r, h = a :: r ∧ isIdent a = true) (e : p ++ rest = v ++ h) : p <+: v := by
  rcases List.prefix_or_prefix_of_prefix ⟨rest, e⟩ (List.prefix_append v h) with front | ⟨q, rfl⟩
  · exact front
  · obtain ⟨a, r, rfl, ha⟩ := hh
    cases q with
    | nil => simp
    | cons b q =>
      rw [List.append_assoc] at e
      obtain ⟨rfl, -⟩ := List.cons.inj (List.append_cancel_left e)
      have := List.all_eq_true.1 hp b (by simp)
      simp [ha] at this

/-- A declaration before a header ends before it. -/
theorem declaration_prefix {ss : List Text} {v w path b : Text} {c : Char}
    (spaces : w.all isSpaceOrTab = true) (spells : Spells ss path)
    (words : ∀ s ∈ ss, IsIdentifier s) (ends : EndsName b c) (silent : Silent callWords v)
    (breaks : AtBreak v.reverse) (hv : v ≠ []) (hc : isIdent c = false)
    (hh : ∃ a r, h = a :: r ∧ isIdent a = true)
    (e : w ++ (path ++ (b ++ [c])) ++ rest = v ++ h) : w ++ (path ++ (b ++ [c])) <+: v := by
  have blank {x : Text} (hx : x.all isBlank = true) : (x.all fun a => ! isIdent a) = true := by
    simp only [List.all_eq_true, Bool.not_eq_true'] at hx ⊢
    exact fun a ha => isIdent_eq_false_of_isBlank (hx a ha)
  simp only [List.append_assoc] at e
  obtain ⟨v, rfl⟩ := prefix_of_not_isIdent (blank (isBlank_of_gap spaces)) hh e
  -- the spaces do not reach the end of the line
  have hv' : v ≠ [] := by
    rintro rfl
    rw [List.append_nil] at breaks hv
    obtain ⟨w, rfl⟩ := (atBreak_reverse_iff.1 breaks).resolve_left hv
    exact not_mem_of_all (a := '\n') spaces (by decide) (by simp)
  rw [List.append_assoc] at e
  obtain ⟨v, rfl⟩ := spelling_prefix spells words silent.of_append
    (AtBreak.of_append (List.reverse_append ▸ breaks)) hv' (fun a ha => by
      obtain ⟨b, r, rfl, hb⟩ := hh
      obtain rfl : b = a := by simpa using ha
      exact hb) (List.append_cancel_left e)
  rw [List.append_assoc] at e
  have e := List.append_cancel_left (List.append_cancel_left e)
  rw [← List.append_assoc] at e
  obtain ⟨v, rfl⟩ := prefix_of_not_isIdent (p := b ++ [c]) (by simp [blank ends.blanks, hc]) hh e
  exact ⟨v, by simp⟩

/-- A declaration does not begin a header. -/
theorem declaration_ne_header {ss : List Text} {w path b : Text} {c : Char}
    (hroot : IsNamespace root) (line : IsHeaderLine root h) (spaces : w.all isSpaceOrTab = true)
    (spells : Spells ss path) (hne : ss ≠ []) (words : ∀ s ∈ ss, IsIdentifier s)
    (blanks : b.all isBlank = true) (ends : c = '=' ∨ c = ';') :
    w ++ (path ++ (b ++ [c])) ++ rest ≠ h ++ t := by
  intro e
  obtain rfl : w = [] := by
    cases w with
    | nil => rfl
    | cons a w =>
      obtain ⟨a', r, rfl, ha⟩ := line.exists_cons hroot
      obtain ⟨rfl, -⟩ := List.cons.inj e
      have blank := isBlank_of_isSpaceOrTab (Bool.and_eq_true_iff.1 spaces).1
      simp [isIdent_eq_false_of_isBlank blank] at ha
  obtain ⟨s, b₁, hs, -, rfl⟩ := line.statement
  obtain ⟨ss', p, b', c', r, hp, hne', words', ends', equals, semicolon, rfl⟩ :=
    hs.exists_name hroot
  have e : path ++ (b ++ c :: rest) = p ++ (b' ++ c' :: (r ++ (b₁ ++ [';']) ++ t)) := by
    simpa using e
  have same :=
    spells.end_unique hp words words' hne hne' (endsName_of_eq blanks ends) ends' e
  exact ends.elim (fun h => equals (same ▸ h)) fun h => semicolon (same ▸ h)

/-- Declarations keep out of the headers. -/
theorem careful_declares (hroot : IsNamespace root) (lines : ∀ h ∈ hs, IsHeaderLine root h) :
    Careful root hs Declares where
  first := by
    rintro _ _ _ _ ⟨rest, starts, spaces, spells, hne, words, blanks, ends, undotted⟩
    rename_i w path b tail ss c
    cases w with
    | nil =>
      obtain ⟨a, r, rfl, ha⟩ := spells.exists_cons hne words
      exact ⟨a, _, rfl, newline_ne_of_isIdent ha⟩
    | cons a w =>
      have newline : '\n' ∉ a :: w := not_mem_of_all spaces (by decide)
      exact ⟨a, _, rfl, fun e => newline (e ▸ List.mem_cons_self)⟩
  last := by
    rintro _ _ _ _ ⟨rest, starts, spaces, spells, hne, words, blanks, ends, undotted⟩ a ha
    rename_i w path b tail ss c
    obtain rfl : c = a := by simpa using ha
    exact ends.elim (fun h => by simp [h]) fun h => by simp [h]
  inside := by
    rintro _ _ _ _ ⟨rest, starts, spaces, spells, hne, words, blanks, ends, undotted⟩ v h t e
      silent breaks hv line
    obtain ⟨a, r, rfl, ha⟩ := line.exists_cons hroot
    refine declaration_prefix spaces spells words (endsName_of_eq blanks ends) silent breaks hv ?_
      ⟨a, _, rfl, ha⟩ e
    exact ends.elim (fun h => by rw [h]; decide) fun h => by rw [h]; decide
  outside := by
    rintro h mem h₁ h₂ past piece rest new t rfl hne' declares e
    generalize hpast : h₁.reverse ++ past = past' at declares
    obtain ⟨rest, starts, spaces, spells, hne, words, blanks, ends, undotted⟩ := declares
    have line := lines _ mem
    subst hpast
    obtain rfl : h₁ = [] := by
      rcases atBreak_reverse_iff.1 starts.of_append with first | ⟨x, rfl⟩
      · exact first
      · exact absurd (by simp) line.oneLine
    exact declaration_ne_header hroot line spaces spells hne words blanks ends e
  gentle := by
    rintro past _ _ _ ⟨rest, starts, spaces, spells, hne, words, blanks, ends, undotted⟩ u z hu
      silent
    rename_i w path b tail ss c
    have last : ∀ a ∈ u.getLast?, isIdent a = false := by
      intro a ha
      obtain rfl := starts a (hu a ha)
      decide
    have hz : Silent callWords z := silent.of_append.of_append
    have dotless : '.' ∉ w ++ ("let" ++ tail : Text) := by
      have inSpaces : '.' ∉ w := not_mem_of_all spaces (by decide)
      simp [inSpaces, undotted]
    have interrupts : Interrupts callWords u (w ++ ("let" ++ (tail ++ z))) :=
      interrupts_word (by decide) (by decide) (isBlank_of_gap spaces) (Or.inl last) (tail ++ z)
    have := silent.splice isIdentifier_of_mem_callWords interrupts (by
      simpa using (silent_of_not_mem dotless).append hz)
    simpa using this

end Modulize.Recast
