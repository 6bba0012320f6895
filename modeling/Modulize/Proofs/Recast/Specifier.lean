import Modulize.Proofs.Files.Plain
import Modulize.Proofs.Files.Written
import Modulize.Recast.Imports

/-!
# What a module specifier leads to

A specifier is followed from the folder of a file name by name (`Path.follow`). The way from a
folder to a target goes up behind the names that both have in common, and then down
(`Path.exists_common`), so the specifier of a target leads to it, and targets are told apart by
their specifiers (`importSpecifier_leads`).

A specifier is relative if it begins with a dot, or two, and a slash (`IsRelative`). It is not when
the way down begins with a name that begins with a dot, which is taken for a dot of the way
(`importSpecifier_hidden`).
-/

namespace Modulize

open FileStore (parentName)

namespace Path

/-- A path from a root without empty names and without dots to fold away. -/
structure IsNormal (p : Path) : Prop where
  absolute : p.isAbsolute = true
  read : p.IsRead
  plain : parentName ∉ p.names

instance (p : Path) : Decidable p.IsRead := inferInstanceAs (Decidable (∀ n ∈ p.names, _))

instance (p : Path) : Decidable p.IsNormal :=
  decidable_of_iff (p.isAbsolute = true ∧ p.IsRead ∧ parentName ∉ p.names)
    ⟨fun h => ⟨h.1, h.2.1, h.2.2⟩, fun h => ⟨h.absolute, h.read, h.plain⟩⟩

/-- Where a written path leads, from a folder. -/
def follow (folder : Path) (t : Text) : Path := (folder.join (parse t)).normalize

variable {p base target : Path} {done names common a b : List Text}

theorem IsNormal.normalize (h : p.IsNormal) : p.normalize = p := by
  rw [Path.normalize, h.absolute, foldNames_of_not_mem h.plain]
  rfl

theorem IsNormal.parent (h : p.IsNormal) : p.parent.IsNormal := by
  have sub : p.parent.names ⊆ p.names := (List.dropLast_sublist _).subset
  exact ⟨h.absolute, fun n hn => h.read n (sub hn), fun mem => h.plain (sub mem)⟩

/-! ## Up and down -/

/-- Two lists begin with their common beginning, and with what is left of them behind it. -/
theorem exists_common (a b : List Text) :
    ∃ common, a = common ++ (afterCommon a b).1 ∧ b = common ++ (afterCommon a b).2 := by
  fun_induction afterCommon a b with
  | case1 r n s ih =>
    obtain ⟨common, hr, hs⟩ := ih
    exact ⟨n :: common, congrArg (n :: ·) hr, congrArg (n :: ·) hs⟩
  | case2 => exact ⟨[], rfl, rfl⟩
  | case3 => exact ⟨[], rfl, rfl⟩

theorem afterCommon_append (common a b : List Text) :
    afterCommon (common ++ a) (common ++ b) = afterCommon a b := by
  induction common with
  | nil => rfl
  | cons n common ih => simp [afterCommon, ih]

theorem afterCommon_append_right (a b : List Text) : afterCommon a (a ++ b) = ([], b) := by
  have ways := afterCommon_append a [] b
  rw [List.append_nil] at ways
  simp [ways, afterCommon]

theorem afterCommon_append_left (a b : List Text) : afterCommon (a ++ b) a = (b, []) := by
  have ways := afterCommon_append a b []
  rw [List.append_nil] at ways
  simp [ways, afterCommon]

theorem afterCommon_self (a : List Text) : afterCommon a a = ([], []) := by
  simpa using afterCommon_append_right a []

/-- Double dots take as many names away. -/
theorem foldNames_up (h : parentName ∉ done) (up rest : List Text) :
    foldNames true done (up.map (fun _ => parentName) ++ rest) =
      foldNames true (done.drop up.length) rest := by
  induction up generalizing done with
  | nil => rfl
  | cons n up ih =>
    rw [List.map_cons, List.cons_append, foldNames_parent h,
      ih fun mem => h (List.mem_of_mem_tail mem), List.drop_tail, List.length_cons]

/-- Names are gone through as they are. -/
theorem foldNames_append (h : parentName ∉ names) (done rest : List Text) :
    foldNames true done (names ++ rest) = foldNames true (names.reverse ++ done) rest := by
  induction names generalizing done with
  | nil => rfl
  | cons n names ih =>
    rw [List.mem_cons, not_or] at h
    rw [List.cons_append, foldNames_cons (Ne.symm h.1), ih h.2, List.reverse_cons,
      List.append_assoc]
    rfl

theorem isAbsolute_join {q : Path} (h : p.isAbsolute = true) : (p.join q).isAbsolute = true := by
  unfold join
  split
  · assumption
  · exact h

theorem relativeFrom_eq (hb : base.IsNormal) (ht : target.IsNormal) :
    relativeFrom base target =
      ⟨.here, (afterCommon base.names target.names).1.map (fun _ => parentName) ++
        (afterCommon base.names target.names).2⟩ := by
  rw [relativeFrom, hb.normalize, ht.normalize]
  rfl

theorem isRead_relativeFrom (hb : base.IsNormal) (ht : target.IsNormal) :
    (relativeFrom base target).IsRead := by
  obtain ⟨common, -, split⟩ := exists_common base.names target.names
  rw [relativeFrom_eq hb ht]
  intro n hn
  rcases List.mem_append.1 hn with up | down
  · obtain ⟨-, -, rfl⟩ := List.mem_map.1 up
    decide
  · exact ht.read n (split ▸ List.mem_append_right common down)

/-- **The way from a folder to a target leads there.** -/
theorem normalize_join_relativeFrom (hb : base.IsNormal) (ht : target.IsNormal) :
    (base.join (relativeFrom base target)).normalize = ⟨base.anchor, target.names⟩ := by
  obtain ⟨common, hbase, htarget⟩ := exists_common base.names target.names
  rw [relativeFrom_eq hb ht]
  generalize afterCommon base.names target.names = ways at hbase htarget ⊢
  obtain ⟨up, down⟩ := ways
  have plainDown : parentName ∉ down := fun mem =>
    ht.plain (htarget ▸ List.mem_append_right common mem)
  have folded : foldNames true [] (base.names ++ (up.map (fun _ => parentName) ++ down)) =
      target.names := by
    have behind : (base.names.reverse ++ []).drop up.length = common.reverse := by
      simp [hbase]
    rw [foldNames_append hb.plain, foldNames_up (by simpa using hb.plain), behind,
      foldNames_of_not_mem plainDown, List.reverse_reverse, htarget]
  rw [normalize, isAbsolute_join hb.absolute]
  exact congrArg (Path.mk base.anchor) folded

/-- **A specifier that is written for the way from a folder to a target leads to the target.** -/
theorem follow_of_parse {t : Text} (hb : base.IsNormal) (ht : target.IsNormal)
    (read : parse t = relativeFrom base target) :
    base.follow t = ⟨base.anchor, target.names⟩ := by
  rw [follow, read]
  exact normalize_join_relativeFrom hb ht

end Path

namespace Recast

open Modulize.Path

variable {source target : Path} {ns : List Text}

/-- A specifier is relative: it begins with one or two dots and a slash. -/
def IsRelative (t : Text) : Prop := "./".toList <+: t ∨ "../".toList <+: t

instance (t : Text) : Decidable (IsRelative t) := inferInstanceAs (Decidable (_ ∨ _))

theorem isRelative_dot {t : Text} :
    IsRelative ('.' :: t) ↔ (∃ w, t = '/' :: w) ∨ ∃ w, t = '.' :: '/' :: w := by
  constructor
  · rintro (⟨w, e⟩ | ⟨w, e⟩)
    · exact Or.inl ⟨w, (List.cons.inj e).2.symm⟩
    · exact Or.inr ⟨w, (List.cons.inj e).2.symm⟩
  · rintro (⟨w, rfl⟩ | ⟨w, rfl⟩)
    · exact Or.inl ⟨w, rfl⟩
    · exact Or.inr ⟨w, rfl⟩

/-- The specifier for a way. -/
def wayText (way : Path) : Text :=
  if way.toText.head? = some '.' then way.toText else "./" ++ way.toText

theorem importSpecifier_eq (source target : Path) :
    importSpecifier source target = wayText (relativeFrom source.parent target) := rfl

/-- A dot and a slash in front of a written path change nothing. -/
theorem parse_dotSlash {t : Text} (h : t.head? ≠ some '/') : parse ("./" ++ t) = parse t := by
  have pieces : Text.splitOn '/' ('.' :: '/' :: t) = ['.'] :: Text.splitOn '/' t := by
    rw [Text.splitOn, Text.splitOn_cons_mark]
    simp
  have front : t.takeWhile (· == '/') = [] := by
    cases t with
    | nil => rfl
    | cons a t => exact List.takeWhile_cons_of_neg (by simpa using h)
  have text : ("./" ++ t : Text) = '.' :: '/' :: t := rfl
  rw [text, parse, parse, pieces, front]
  simp

/-- A path that is not empty is written as its first name, and what follows a slash behind that. -/
theorem exists_toText (n : Text) (ns : List Text) :
    ∃ u, toText ⟨.here, n :: ns⟩ = n ++ u ∧ (ns = [] ∧ u = [] ∨ ns ≠ [] ∧ ∃ w, u = '/' :: w) := by
  cases ns with
  | nil => exact ⟨[], (List.append_nil n).symm, Or.inl ⟨rfl, rfl⟩⟩
  | cons m ns =>
    have text : toText ⟨.here, n :: m :: ns⟩ = n ++ '/' :: Text.joinWith ['/'] (m :: ns) := by
      simp [toText, anchorText, Text.joinWith]
    exact ⟨_, text, Or.inr ⟨by simp, _, rfl⟩⟩

/-- The text of a way is read as the way. -/
theorem parse_wayText (h : ∀ n ∈ ns, (n ≠ [] ∧ n ≠ ['.']) ∧ '/' ∉ n) :
    parse (wayText ⟨.here, ns⟩) = ⟨.here, ns⟩ := by
  have read : (⟨.here, ns⟩ : Path).IsRead := h
  unfold wayText
  split
  · exact parse_toText read
  · rename_i bare
    rw [parse_dotSlash, parse_toText read]
    cases ns with
    | nil => exact absurd rfl bare
    | cons n ns =>
      obtain ⟨⟨some, -⟩, slash⟩ := h n List.mem_cons_self
      obtain ⟨u, text, -⟩ := exists_toText n ns
      obtain ⟨a, r, rfl⟩ := List.exists_cons_of_ne_nil some
      rw [text]
      simpa using fun e : a = '/' => slash (e ▸ List.mem_cons_self)

/-- A text that begins with a name with a dot in front is relative exactly if the name is a double
dot and a slash follows. -/
theorem isRelative_hidden_iff {b : Char} {r u : Text} (first : b ≠ '/') (slash : '/' ∉ r)
    (behind : ns = [] ∧ u = [] ∨ ns ≠ [] ∧ ∃ w, u = '/' :: w) :
    IsRelative ('.' :: b :: r ++ u) ↔ '.' :: b :: r = parentName ∧ ns ≠ [] := by
  rw [List.cons_append, isRelative_dot]
  constructor
  · rintro (⟨w, e⟩ | ⟨w, e⟩)
    · exact absurd (List.cons.inj e).1 first
    · obtain ⟨rfl, ends⟩ := List.cons.inj e
      cases r with
      | cons c r => exact absurd ((List.cons.inj ends).1 ▸ List.mem_cons_self) slash
      | nil =>
        rcases behind with ⟨-, rfl⟩ | ⟨more, -⟩
        · cases ends
        · exact ⟨rfl, more⟩
  · rintro ⟨e, more⟩
    obtain ⟨rfl, rfl⟩ : b = '.' ∧ r = [] := by simpa [parentName] using e
    rcases behind with ⟨none, -⟩ | ⟨-, w, rfl⟩
    · exact absurd none more
    · exact Or.inr ⟨w, rfl⟩

/-- The text of a way is relative exactly if the way begins with a name that does not begin with a
dot, or with a double dot that is not all of it. -/
theorem isRelative_wayText_iff (h : ∀ n ∈ ns, (n ≠ [] ∧ n ≠ ['.']) ∧ '/' ∉ n) :
    IsRelative (wayText ⟨.here, ns⟩) ↔
      ∃ n rest, ns = n :: rest ∧ (n.head? ≠ some '.' ∨ n = parentName ∧ rest ≠ []) := by
  cases ns with
  | nil =>
    have text : ¬ IsRelative (wayText ⟨.here, []⟩) := by decide
    simp [text]
  | cons n ns =>
    obtain ⟨⟨some, dot⟩, slash⟩ := h n List.mem_cons_self
    obtain ⟨a, r, rfl⟩ := List.exists_cons_of_ne_nil some
    obtain ⟨u, text, behind⟩ := exists_toText (a :: r) ns
    rw [wayText, text]
    by_cases hidden : a = '.'
    · subst hidden
      obtain ⟨b, r, rfl⟩ := List.exists_cons_of_ne_nil fun e : r = [] => dot (e ▸ rfl)
      obtain ⟨first, slash⟩ : b ≠ '/' ∧ '/' ∉ r := by simpa [eq_comm] using slash
      rw [if_pos (by rfl), isRelative_hidden_iff first slash behind]
      constructor
      · exact fun parent => ⟨_, ns, rfl, Or.inr parent⟩
      · rintro ⟨_, _, e, bare | parent⟩
        · obtain ⟨rfl, -⟩ := List.cons.inj e
          exact absurd rfl bare
        · obtain ⟨rfl, rfl⟩ := List.cons.inj e
          exact parent
    · have bare : ¬ (a :: r ++ u).head? = .some '.' := by simpa using hidden
      rw [if_neg bare]
      exact iff_of_true (Or.inl ⟨_, rfl⟩) ⟨_, _, rfl, Or.inl (by simpa using hidden)⟩

/-! ## The specifier of a target -/

/-- The specifier of a target is read as the way to it. -/
theorem parse_importSpecifier (hs : source.IsNormal) (ht : target.IsNormal) :
    parse (importSpecifier source target) = relativeFrom source.parent target := by
  have read := isRead_relativeFrom hs.parent ht
  rw [importSpecifier_eq]
  rw [relativeFrom_eq hs.parent ht] at read ⊢
  exact parse_wayText read

/-- The specifier of a target is relative, unless the target is the folder of the source or the
folder above that, or lies below the folder of the source with a dot in front. -/
theorem isRelative_importSpecifier_iff (hs : source.IsNormal) (ht : target.IsNormal) :
    IsRelative (importSpecifier source target) ↔
      target.names ≠ source.parent.names ∧ target.names ≠ source.parent.parent.names ∧
        ∀ n rest, target.names = source.parent.names ++ n :: rest → n.head? ≠ some '.' := by
  have read := isRead_relativeFrom hs.parent ht
  have plain : parentName ∉ target.names := ht.plain
  have above : source.parent.parent.names = source.parent.names.dropLast := rfl
  rw [importSpecifier_eq, above]
  rw [relativeFrom_eq hs.parent ht] at read ⊢
  rw [isRelative_wayText_iff read]
  generalize source.parent.names = folder
  generalize target.names = names at plain
  constructor
  · rintro ⟨n, rest, way, goes⟩
    refine ⟨?_, ?_, ?_⟩
    · rintro rfl
      rw [afterCommon_self] at way
      cases way
    · rintro rfl
      rcases List.eq_nil_or_concat folder with rfl | ⟨common, x, rfl⟩
      · cases way
      · rw [List.concat_eq_append, List.dropLast_concat, afterCommon_append_left] at way
        obtain ⟨rfl, rfl⟩ := List.cons.inj way
        rcases goes with bare | ⟨-, more⟩
        · exact bare rfl
        · exact more rfl
    · rintro m r rfl
      rw [afterCommon_append_right] at way
      obtain ⟨rfl, rfl⟩ := List.cons.inj way
      rcases goes with bare | ⟨rfl, -⟩
      · exact bare
      · exact absurd (List.mem_append_right folder List.mem_cons_self) plain
  · rintro ⟨other, otherAbove, shown⟩
    obtain ⟨common, hfolder, hnames⟩ := exists_common folder names
    generalize afterCommon folder names = ways at hfolder hnames
    obtain ⟨up, down⟩ := ways
    subst hfolder hnames
    cases up with
    | nil =>
      cases down with
      | nil => exact absurd rfl other
      | cons n rest => exact ⟨n, rest, rfl, Or.inl (shown n rest (by simp))⟩
    | cons x up =>
      refine ⟨parentName, _, rfl, Or.inr ⟨rfl, fun none => ?_⟩⟩
      obtain ⟨noUp, rfl⟩ := List.append_eq_nil_iff.1 none
      obtain rfl := List.map_eq_nil_iff.1 noUp
      exact otherAbove (by simp)

/-- **What a specifier leads to.** Followed from the folder of the source, the specifier of a target
leads to the names of the target, so targets at one root are told apart by their specifiers. It is
relative exactly if the target is neither the folder of the source nor the folder above that, and
the way to it does not go straight down to a name that begins with a dot. -/
theorem importSpecifier_leads (hs : source.IsNormal) (ht : target.IsNormal) :
    source.parent.follow (importSpecifier source target) = ⟨source.anchor, target.names⟩ ∧
      (∀ other : Path, other.IsNormal → other.anchor = target.anchor → other ≠ target →
        importSpecifier source other ≠ importSpecifier source target) ∧
      (IsRelative (importSpecifier source target) ↔
        target.names ≠ source.parent.names ∧ target.names ≠ source.parent.parent.names ∧
          ∀ n rest, target.names = source.parent.names ++ n :: rest → n.head? ≠ some '.') := by
  have leads {p : Path} (hp : p.IsNormal) :
      source.parent.follow (importSpecifier source p) = ⟨source.anchor, p.names⟩ :=
    follow_of_parse hs.parent hp (parse_importSpecifier hs hp)
  refine ⟨leads ht, fun other ho anchor ne same => ne ?_, isRelative_importSpecifier_iff hs ht⟩
  have names : other.names = target.names := by
    have both := leads ho
    rw [same, leads ht] at both
    exact (congrArg Path.names both).symm
  cases other
  cases target
  exact congr (congrArg Path.mk anchor) names

/-- A target beside the folder of the source, and another one below it. -/
theorem importSpecifier_leads_beside :
    let source : Path := ⟨.root, ["x", "a", "b.js"]⟩
    let target : Path := ⟨.root, ["x", "c", ".d.js"]⟩
    let other : Path := ⟨.root, ["x", "a", "e", "d.js"]⟩
    source.IsNormal ∧ target.IsNormal ∧ other.IsNormal ∧
      importSpecifier source target = "../c/.d.js" ∧ importSpecifier source other = "./e/d.js" ∧
      source.parent.follow "../c/.d.js" = target ∧ IsRelative "../c/.d.js" := by
  intro source target other
  have hs : source.IsNormal := by decide
  have ht : target.IsNormal := by decide
  have text : importSpecifier source target = "../c/.d.js" := by decide
  obtain ⟨leads, -, relative⟩ := importSpecifier_leads hs ht
  rw [text] at leads relative
  refine ⟨hs, ht, by decide, text, by decide, leads, relative.2 ⟨by decide, by decide, ?_⟩⟩
  intro n rest e
  cases e

/-- **A specifier is not relative** when the target lies beside the source and its name begins with
a dot. -/
theorem importSpecifier_hidden :
    let source : Path := ⟨.root, ["x", "a.js"]⟩
    let target : Path := ⟨.root, ["x", ".b.js"]⟩
    source.IsNormal ∧ target.IsNormal ∧ importSpecifier source target = ".b.js" ∧
      ¬ IsRelative (importSpecifier source target) := by decide

end Recast
end Modulize
