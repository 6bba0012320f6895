import Modulize.Proofs.Declaration.Headers
import Modulize.Proofs.Declaration.Statement
import Modulize.Proofs.Pattern.Rewriting
import Modulize.Proofs.Qualified.Paths
import Modulize.Recast.File

/-!
# Paths below the root namespace

The names that are shortened begin with the root and are not protected (`of_mem_strippedNames`,
`segments_root_prefix`). They are collected from the whole text and then shortened in the whole
text, one after another and the longest first, which is one pass over it (`substitutes_stripRoot`).

So the dotted paths of the text are treated one by one: `stripRoot_path` says what becomes of each.
A path is kept exactly if none of the names stands at its beginning. That is so for all paths that
do not start with the root; but a path with a full form to keep (`IsKept`) is altered if a shorter
path with which it begins has to be shortened elsewhere (`stripRoot_shortens_prototype`).
-/

namespace Modulize.Recast

open Pattern Qualified Declaration

variable {root t name : Text} {allowlist : List Text}

/-! ## The names that are shortened -/

/-- What holds of the root, and of a name with one more segment if it holds of the name, holds of
all names that are shortened. -/
theorem of_mem_strippedNames {P : Text → Prop} (base : P root)
    (member : ∀ n s, P n → IsIdentifier s → P (n ++ '.' :: s))
    (h : name ∈ strippedNames root allowlist t) : P name := by
  obtain ⟨m, hm, rfl⟩ := List.mem_map.1 (List.mem_filter.1 (mem_dedup.1 h)).1
  obtain ⟨-, -, hd⟩ := mem_allMatches hm
  obtain ⟨e, he, hd⟩ := mem_ends_seq.1 hd
  have first : (notAfter (fun c => guards c || c == '.') ++ literal root ++ one (· == '.') ++
      identifier).Gives fun _ piece _ => P piece := by
    refine ((((gives_notAfter _).seq (describes_literal root).gives).seq
      (describes_char '.').gives).seq describes_identifier.gives).imp ?_
    rintro _ _ _ ⟨_, _, s, _, ⟨_, _, _, _, ⟨_, _, _, _, ⟨-, rfl, rfl⟩, ⟨rfl, rfl⟩, rfl, rfl⟩,
      ⟨rfl, rfl⟩, rfl, rfl⟩, ⟨hs, rfl⟩, rfl, rfl⟩
    simpa using member _ s base hs
  obtain ⟨p, -, hp, reads, -⟩ := first _ _ he
  obtain ⟨q, reads', hq⟩ := reads_of_mem_repeatEnds
    (P := fun q => ∀ n, P n → P (n ++ q)) (by simp)
    (fun x y hx hy n hn => by simpa using hy _ (hx n hn))
    (fun c d hd => by
      obtain ⟨piece, rest, hc, ⟨_, s, rfl, hs, rfl⟩, rfl⟩ :=
        ((describes_char '.').seq describes_identifier c d).1 hd
      exact ⟨_, Cursor.reads_after hc, fun n hn => by simpa using member n s hn hs⟩) hd
  rw [Match.text, (reads.trans reads').textTo]
  exact hq p hp

theorem isNamespace_of_mem_strippedNames (hroot : IsNamespace root)
    (h : name ∈ strippedNames root allowlist t) : IsNamespace name :=
  of_mem_strippedNames hroot (fun _ _ => isNamespace_member) h

theorem segments_root_prefix (h : name ∈ strippedNames root allowlist t) :
    segments root <+: segments name := by
  refine of_mem_strippedNames (P := fun n => segments root <+: segments n) (List.prefix_refl _)
    (fun n s hn hs => ?_) h
  rw [segments_member hs]
  exact hn.trans (List.prefix_append _ _)

theorem isProtected_of_mem_strippedNames (h : name ∈ strippedNames root allowlist t) :
    isProtected root allowlist name = false := by
  simpa using (List.mem_filter.1 (mem_dedup.1 h)).2

/-! ## Shortening is one pass -/

/-- No name is shortened to the first segment of the root. -/
def ShortensAfresh (root : Text) (allowlist : List Text) (t : Text) : Prop :=
  ∀ n ∈ strippedNames root allowlist t, (segments root).head? ≠ some (lastSegment n)

instance (root : Text) (allowlist : List Text) (t : Text) :
    Decidable (ShortensAfresh root allowlist t) :=
  inferInstanceAs (Decidable (∀ n ∈ strippedNames root allowlist t, _ ≠ _))

theorem renaming_strippedNames (hroot : IsNamespace root)
    (fresh : ShortensAfresh root allowlist t) :
    Renaming (strippedNames root allowlist t) lastSegment := by
  refine ⟨fun n hn => isNamespace_of_mem_strippedNames hroot hn, fun n hn =>
    isNamespace_of_mem_strippedNames hroot hn _ (lastSegment_mem n), fun n hn m hm => ?_⟩
  obtain ⟨more, hmore⟩ := segments_root_prefix hm
  obtain ⟨s, ss, hs⟩ := List.exists_cons_of_ne_nil (segments_ne_nil root)
  have first := fresh n hn
  rw [hs] at first
  rw [← hmore, hs]
  exact first

theorem substitutes_stripRoot (hroot : IsNamespace root) (fresh : ShortensAfresh root allowlist t)
    (undotted : Undotted (strippedNames root allowlist t) [] t) :
    Substitutes (strippedNames root allowlist t) lastSegment [] t (stripRoot root allowlist t) := by
  have ren := renaming_strippedNames hroot fresh
  have same : ∀ n, n ∈ (sortBy (fun a b : Text => b.length ≤ a.length)
      (strippedNames root allowlist t)).reverse ++ [] ↔ n ∈ strippedNames root allowlist t := by
    simp [mem_sortBy]
  have sub := fun n => (same n).1
  exact (substitutes_foldl (ren.subset sub) (undotted.subset sub) (longestFirst_pairwise id _)
    (fun _ _ _ h => absurd h List.not_mem_nil) (.nothing lastSegment [] t)).congr same

/-! ## Path by path -/

/-- A path of these segments is to keep its full form: it does not start with the root, or its name
is protected. -/
def IsKept (root : Text) (allowlist : List Text) (ss : List Text) : Prop :=
  ¬ segments root <+: ss ∨ isProtected root allowlist (Text.joinWith ['.'] ss) = true

/-- **Shortening treats every path by itself**, if no reference to a name that is shortened comes
after a dot.
* A path is kept exactly if no such reference stands at its beginning.
* A path that is altered starts with the root; and if it was to be kept, then it goes on from a
  shorter path, which is not protected. -/
theorem stripRoot_path {x p y : Text} {ss : List Text} (hroot : IsNamespace root)
    (fresh : ShortensAfresh root allowlist t)
    (undotted : ∀ n ∈ strippedNames root allowlist t, ∀ i ≤ t.length,
      (reference n).fits (Cursor.ofText t i) = true → afterDot t i = false)
    (e : t = x ++ (p ++ y)) (path : PathAt ss x.reverse p y) :
    let names := strippedNames root allowlist t
    ∃ q, stripRoot root allowlist t = substitute names lastSegment x ++ q ++
        substituteFrom names lastSegment 0 (p.reverse ++ x.reverse) (x ++ p).length y ∧
      (q = p ↔ Free names x.reverse (p ++ y)) ∧
      (q ≠ p → ∃ n ∈ names, segments root <+: segments n ∧ segments n <+: ss ∧
        (IsKept root allowlist ss → segments n ≠ ss)) := by
  subst e
  intro names
  have dots := undotted_of_afterDot undotted
  have ren := renaming_strippedNames hroot fresh
  obtain ⟨q, written, cases⟩ := exists_path_of_substitutes ren.namespaces
    (substitutes_stripRoot hroot fresh dots) dots path
  refine ⟨q, written, ?_⟩
  rcases cases with ⟨rfl, free⟩ | ⟨n, hn, piece, u, rfl, rfl, first, stands⟩
  · exact ⟨iff_of_true rfl free, fun altered => absurd rfl altered⟩
  · -- the new name is an identifier, and is not what the name was spelled with
    have altered : lastSegment n ++ u ≠ piece ++ u := by
      intro e
      have spelled := stands.spelled
      rw [← List.append_cancel_right e] at spelled
      have single := spelled.eq_singleton (segments_ne_nil n) (ren.identifiers n hn)
      exact ren.fresh n hn n hn (by rw [single]; rfl)
    refine ⟨iff_of_false altered fun free => ?_, fun _ => ⟨n, hn, segments_root_prefix hn, first,
      fun kept same => ?_⟩⟩
    · exact free n hn piece (u ++ y) (List.append_assoc ..) stands
    · rcases kept with elsewhere | «protected»
      · exact elsewhere (same ▸ segments_root_prefix hn)
      · have open_ := isProtected_of_mem_strippedNames hn
        have joined : Text.joinWith ['.'] (segments n) = n := joinWith_splitOn '.' n
        rw [← same, joined, open_] at «protected»
        cases «protected»

/-- The theorem for a member of the root on the allowlist, next to a name that is shortened. -/
theorem stripRoot_path_allowed :
    ∃ q, stripRoot "goog" ["isDef"] "new goog.a.B; goog.isDef(x);" = "new B; " ++ q ++ "(x);" ∧
      (q = "goog.isDef" ↔
        Free ["goog.a.B"] ("new goog.a.B; " : Text).reverse "goog.isDef(x);") := by
  have path : PathAt ["goog", "isDef"] ("new goog.a.B; " : Text).reverse "goog.isDef" "(x);" :=
    ⟨by decide, by decide +kernel, spells_joinWith _, by decide +kernel, by decide +kernel,
      by decide +kernel⟩
  have names : strippedNames "goog" ["isDef"] "new goog.a.B; goog.isDef(x);" =
      [("goog.a.B" : Text)] := by decide +kernel
  have fresh : ShortensAfresh "goog" ["isDef"] "new goog.a.B; goog.isDef(x);" := by
    decide +kernel
  obtain ⟨q, e, kept, -⟩ :=
    stripRoot_path (by decide +kernel) fresh (by decide +kernel) rfl path
  have front : substitute ["goog.a.B"] lastSegment "new goog.a.B; " = "new B; " := by
    decide +kernel
  rw [names, front] at e
  rw [names] at kept
  exact ⟨q, e, kept⟩

/-- **A prototype chain is shortened** if it begins with a name that is shortened. -/
theorem stripRoot_shortens_prototype :
    PathAt ["goog", "a", "B", "prototype", "x", "call"] ("goog.a.B; " : Text).reverse
        "goog.a.B.prototype.x.call" "(this);" ∧
      IsKept "goog" [] ["goog", "a", "B", "prototype", "x", "call"] ∧
      stripRoot "goog" [] "goog.a.B; goog.a.B.prototype.x.call(this);" =
        "B; B.prototype.x.call(this);" := by
  refine ⟨⟨by decide, by decide +kernel, spells_joinWith _, by decide +kernel, by decide +kernel,
    by decide +kernel⟩, Or.inr (by decide +kernel), by decide +kernel⟩

end Modulize.Recast
