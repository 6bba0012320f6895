import Modulize.Class.Render
import Modulize.Proofs.Class.ParentForms

/-!
# Methods that delegate

The body that is written for a method which delegates to another function is a call of the dotted
name of that function (`isDotted_of_delegate?`), with the parameters that are documented
(`isIdentifier_of_mem_parameters`). In this call only one parenthesis opens
(`Delegation.of_one_parenthesis`). So it is a delegation to the parent only if the first of the
parameters is `this`: in the call of a member of a prototype, where `this` is added, the name has
the word `prototype` where a delegation has `superClass_` (`not_delegates_delegatedBody`).
-/

namespace Modulize.Class

open Pattern Qualified Declaration

/-! ## The name -/

/-- What is assigned to a method that delegates consists of the characters of a dotted name, and
blanks. -/
theorem gives_delegation : delegation.Gives fun _ _ notes =>
    ∃ t : Text, (t.all fun c => isDotted c || isBlank c) = true ∧ notes = [(1, t)] := by
  have blanks := Silent.of_describes (describes_run isBlank)
  have start : Silent textStart := silent_place _
  have front := blanks.behind ((Silent.of_describes (describes_char '=')).behind (start.seq blanks))
  have name : (run1 (fun c => isIdent c || c == '.' || isBlank c) ++ one (· == '.') ++
      identifier).Gives fun _ t n => (t.all fun c => isDotted c || isBlank c) = true ∧ n = [] := by
    refine (((describes_run1 _).seq (describes_char '.')).seq describes_identifier).gives.imp ?_
    rintro _ _ _ ⟨⟨_, v, ⟨_, _, ⟨a, r, ha, hr, rfl⟩, rfl, rfl⟩, hv, rfl⟩, rfl⟩
    have last : (v.all fun c => isDotted c || isBlank c) = true :=
      List.all_eq_true.2 fun c hc => by simp [isDotted, List.all_eq_true.1 hv.2 c hc]
    have first : ((a :: r).all fun c => isDotted c || isBlank c) = true :=
      Bool.and_eq_true_iff.2 ⟨ha, hr⟩
    have dot : (isDotted '.' || isBlank '.') = true := by decide
    rw [List.all_append, List.all_append, first, last, List.all_cons, dot]
    exact ⟨rfl, rfl⟩
  have value : (group 1 (run1 (fun c => isIdent c || c == '.' || isBlank c) ++ one (· == '.') ++
      identifier)).Gives fun _ _ notes =>
        ∃ t : Text, (t.all fun c => isDotted c || isBlank c) = true ∧ notes = [(1, t)] := by
    refine (name.group 1).imp ?_
    rintro _ t _ ⟨_, ⟨ht, rfl⟩, rfl⟩
    exact ⟨t, ht, rfl⟩
  have mark := Silent.of_describes (describes_orElse (describes_char ';') describes_nothing)
  exact (silent_place _).behind (blanks.behind (mark.behind (blanks.behind
    (Silent.seq front value))))

/-- The function that a method delegates to is a dotted name. -/
theorem isDotted_of_delegate? {m : Member} {delegate : Text} (h : m.delegate? = some delegate) :
    delegate.all isDotted = true := by
  obtain ⟨found, at_start, rfl⟩ := Option.map_eq_some_iff.1 h
  obtain ⟨-, ⟨t, ht, noted⟩, -⟩ :=
    Gives.of_mem_ends gives_delegation (mem_ends_of_matchAt? at_start)
  have group : found.groupText 1 = t := groupText_of_noted noted 1
  rw [group]
  refine List.all_eq_true.2 fun c hc => ?_
  obtain ⟨hc, inked⟩ := List.mem_filter.1 hc
  simpa [Bool.not_eq_true' _ ▸ inked] using List.all_eq_true.1 ht c hc

/-- A dotted name that is that of a member of a prototype. -/
theorem exists_of_isPrototypeMember {name : Text} (dotted : name.all isDotted = true)
    (h : isPrototypeMember name = true) :
    ∃ owner member, name = owner ++ '.' :: ("prototype" ++ '.' :: member) ∧ '.' ∉ member := by
  have start : textStart.Gives fun _ piece notes => piece = [] ∧ notes = [] := gives_place _
  obtain ⟨found, at_start⟩ := Option.isSome_iff_exists.1 h
  obtain ⟨d, hd, last⟩ := mem_ends_seq.1 (mem_ends_of_matchAt? at_start)
  have gives := ((start.seq (describes_run1 (· != '\n')).gives).seq
    (describes_literal ".prototype.").gives).seq describes_identifier.gives
  obtain ⟨piece, P, whole⟩ := Gives.of_mem_ends gives hd
  obtain ⟨_, _, member, _, ⟨owner, _, _, _, ⟨_, _, _, _, ⟨rfl, rfl⟩, -, rfl, -⟩, ⟨rfl, -⟩, rfl, -⟩,
    ⟨hm, -⟩, rfl, -⟩ := P
  have nil : d.rest = [] := by
    have ends := (mem_ends_place.1 last).1
    split at ends
    · assumption
    · rename_i a rest
      rw [beq_iff_eq] at ends
      subst ends
      have : isDotted '\n' = true := List.all_eq_true.1 dotted '\n' (by simp [whole, rest])
      cases this
    · cases ends
  refine ⟨owner, member, ?_, hm.not_mem (by decide)⟩
  rw [whole, nil]
  simp

/-! ## The parameters -/

/-- The parameters that a comment names are identifiers. -/
theorem isIdentifier_of_mem_parameters {comment p : Text} (h : p ∈ Doc.parameters comment) :
    IsIdentifier p := by
  have identifier {n : Nat} (h : Doc.identifierAt? comment n = some p) : IsIdentifier p := by
    unfold Doc.identifierAt? at h
    split at h
    · cases h
    · rename_i _ hne
      obtain rfl := Option.some.inj h
      exact ⟨hne, List.all_takeWhile⟩
  unfold Doc.parameters at h
  obtain ⟨found, -, h⟩ := List.mem_filterMap.1 h
  simp only at h
  split at h
  · obtain ⟨n, -, h⟩ := Option.bind_eq_some_iff.1 h
    exact identifier h
  · exact identifier h

/-! ## The call -/

section

variable {name m y w : Text} {way : Way}

/-- Where one parenthesis opens, a delegation has its name before it and `this` behind it. -/
theorem Delegates.of_one_parenthesis (hy : '(' ∉ y) (hw : '(' ∉ w)
    (h : Delegates name way m (y ++ '(' :: w)) :
    ∃ x head b b' tail rest, y = x ++ (head ++ b) ∧ w = b' ++ ("this" ++ (tail ++ rest)) ∧
      Spells (segments name ++ way.words m) head ∧ b.all isBlank = true ∧ b'.all isBlank = true ∧
      way.IsTail m tail rest := by
  obtain ⟨x, _, rest, split, -, -, head, _, tail, rfl, spelled, ⟨b, b', rfl, hb, hb'⟩, behind⟩ := h
  have split : y ++ '(' :: w = (x ++ (head ++ b)) ++ '(' :: (b' ++ ("this" ++ (tail ++ rest))) := by
    simpa using split
  have others : y.all (· != '(') = true :=
    List.all_eq_true.2 fun c hc => bne_iff_ne.2 (ne_of_mem_of_not_mem hc hy)
  obtain ⟨z, e, behind_y⟩ := append_eq_append_cons others (bne_self_eq_false '(') split
  cases z with
  | nil =>
    rw [List.append_nil] at e
    exact ⟨x, head, b, b', tail, rest, e.symm, (List.cons.inj behind_y).2, spelled, hb, hb', behind⟩
  | cons c z =>
    obtain ⟨-, rfl⟩ := List.cons.inj behind_y
    exact absurd (by simp) hw

/-- A call with parameters is no delegation, unless the first one is `this`. -/
theorem not_delegates_parameters {ps : List Text} (hps : ∀ p ∈ ps, IsIdentifier p)
    (first : ps.head? ≠ some "this".toList) (hy : '(' ∉ y) :
    ¬ Delegates name way m (y ++ '(' :: (Text.joinWith ", " ps ++ ");")) := by
  intro h
  have closed : '(' ∉ Text.joinWith ", " ps ++ ");" := by
    have inside : '(' ∉ Text.joinWith ", " ps :=
      Text.not_mem_joinWith (by decide) fun p hp => (hps p hp).not_mem (by decide)
    have behind : '(' ∉ ");".toList := by decide
    rw [List.mem_append, not_or]
    exact ⟨inside, behind⟩
  obtain ⟨_, _, _, b', tail, rest, -, e, -, -, hb', behind⟩ := h.of_one_parenthesis hy closed
  cases ps with
  | nil =>
    have : 't' ∈ ");".toList := by
      have e : ");".toList = b' ++ ("this".toList ++ (tail ++ rest)) := e
      rw [e]
      simp
    exact absurd this (by decide)
  | cons p ps =>
    have hp := hps p List.mem_cons_self
    obtain ⟨r, split, hr⟩ :
        ∃ r, Text.joinWith ", " (p :: ps) ++ ");" = p ++ r ∧ Way.WordEnds r := by
      cases ps with
      | nil => exact ⟨");", rfl, by rintro _ ⟨⟩; decide⟩
      | cons p' ps =>
        exact ⟨", ".toList ++ Text.joinWith ", " (p' :: ps) ++ ");", by simp [Text.joinWith],
          by rintro _ ⟨⟩; decide⟩
    rw [split] at e
    cases b' with
    | nil =>
      have this : "this".toList.all isIdent = true := by decide
      obtain ⟨rfl, -⟩ := append_inj_of_all hp.2 this hr behind.wordEnds e
      exact first rfl
    | cons c b' =>
      obtain ⟨a, p, rfl, ha⟩ := hp.exists_cons
      obtain ⟨rfl, -⟩ := List.cons.inj e
      rw [isIdent_eq_false_of_isBlank (Bool.and_eq_true_iff.1 hb').1] at ha
      cases ha

theorem append_dot_inj {u v s t : Text} (hs : '.' ∉ s) (ht : '.' ∉ t)
    (h : u ++ '.' :: s = v ++ '.' :: t) : u = v ∧ s = t := by
  have others : ((s.reverse).all (· != '.')) = true ∧ ((t.reverse).all (· != '.')) = true := by
    constructor <;> refine List.all_eq_true.2 fun c hc => bne_iff_ne.2 ?_
    · exact ne_of_mem_of_not_mem (List.mem_reverse.1 hc) hs
    · exact ne_of_mem_of_not_mem (List.mem_reverse.1 hc) ht
  have dot (u : Text) : ∀ c ∈ ('.' :: u).head?, (c != '.') = false := by
    rintro c ⟨⟩
    rfl
  have reversed := congrArg List.reverse h
  simp only [List.reverse_append, List.reverse_cons, List.append_assoc, List.singleton_append]
    at reversed
  obtain ⟨same, tail⟩ := append_inj_of_all others.1 others.2 (dot _) (dot _) reversed
  exact ⟨List.reverse_inj.1 (List.cons.inj tail).2, List.reverse_inj.1 same⟩

/-- The last segment of a spelling stands behind the last dot. -/
theorem Spells.behind_dot {ss : List Text} {s head b u t x : Text} (h : Spells (ss ++ [s]) head)
    (hne : ss ≠ []) (hs : '.' ∉ s) (hb : b.all isBlank = true) (ht : '.' ∉ t)
    (e : u ++ '.' :: t = x ++ (head ++ b)) :
    ∃ head' c c', Spells ss head' ∧ c.all isBlank = true ∧ u = x ++ (head' ++ c) ∧
      t = c' ++ (s ++ b) := by
  have undotted {b : Text} (hb : b.all isBlank = true) : '.' ∉ b := not_mem_of_all hb (by decide)
  obtain ⟨head', g, spelled, ⟨c, c', rfl, hc, hc'⟩, rfl⟩ := (spells_concat_iff hne).1 h
  have split : u ++ '.' :: t = (x ++ (head' ++ c)) ++ '.' :: (c' ++ (s ++ b)) := by simpa using e
  obtain ⟨rfl, rfl⟩ := append_dot_inj ht (by simp [undotted hc', hs, undotted hb]) split
  exact ⟨head', c, c', spelled, hc, rfl, rfl⟩

/-- A call of a member of a prototype is no delegation. -/
theorem not_delegates_prototype {owner member : Text} (hm : '.' ∉ member)
    (hy : y = ((owner ++ '.' :: "prototype") ++ '.' :: member) ++ '.' :: "call") (hp : '(' ∉ y)
    (hw : '(' ∉ w) : ¬ Delegates name way m (y ++ '(' :: w) := by
  intro h
  have hmember : '.' ∉ m := by
    obtain ⟨_, _, _, -, -, delegation⟩ := h
    exact delegation.member.not_mem (by decide)
  obtain ⟨x, head, b, _, _, _, e, -, spelled, hb, -, -⟩ := h.of_one_parenthesis hp hw
  rw [hy] at e
  have call : '.' ∉ "call".toList := by decide
  have prototype : '.' ∉ "prototype".toList := by decide
  have deeper {last : Text} (hlast : '.' ∉ last)
      (spelled : Spells (segments name ++ ["superClass_".toList, m, last]) head) : False := by
    have three : segments name ++ ["superClass_".toList, m, last] =
        ((segments name ++ ["superClass_".toList]) ++ [m]) ++ [last] := by simp
    rw [three] at spelled
    obtain ⟨_, _, _, spelled, hc, e, -⟩ := Spells.behind_dot spelled (by simp) hlast hb call e
    obtain ⟨_, _, _, spelled, hc, e, -⟩ := Spells.behind_dot spelled (by simp) hmember hc hm e
    obtain ⟨_, _, c', -, -, -, e⟩ := Spells.behind_dot spelled (segments_ne_nil name) (by decide) hc
      prototype e
    have : 'C' ∈ "prototype".toList := by
      rw [e]
      simp
    exact absurd this (by decide)
  cases way with
  | base =>
    obtain ⟨_, _, _, -, -, -, e⟩ :=
      Spells.behind_dot spelled (segments_ne_nil name) (by decide) hb call e
    have : 'b' ∈ "call".toList := by
      rw [e]
      simp
    exact absurd this (by decide)
  | call => exact deeper (by decide) spelled
  | applyNone | applySome => exact deeper (by decide) spelled

end

theorem not_delegates_delegateCall {name m delegate pre : Text} {way : Way} {member : Member}
    (first : (Doc.parameters member.doc.render).head? ≠ some "this".toList)
    (dotted : delegate.all isDotted = true) (hpre : '(' ∉ pre) :
    ¬ Delegates name way m (pre ++ (delegateCall delegate (documentedParams member) ++ [';'])) := by
  have identifiers : ∀ p ∈ Doc.parameters member.doc.render, IsIdentifier p :=
    fun p hp => isIdentifier_of_mem_parameters hp
  have params : '(' ∉ documentedParams member :=
    Text.not_mem_joinWith (by decide) fun p hp => (identifiers p hp).not_mem (by decide)
  have hdelegate : '(' ∉ delegate := not_mem_of_all dotted (by decide)
  unfold delegateCall
  split
  · rename_i prototype
    obtain ⟨owner, last, e, hlast⟩ := exists_of_isPrototypeMember dotted prototype
    generalize hargs : (if (documentedParams member).isEmpty then ["this"] else
      ["this", documentedParams member] : List Text) = arguments
    have plain : ∀ a ∈ arguments, '(' ∉ a := by
      have this : '(' ∉ "this".toList := by decide
      rw [← hargs]
      split
      · exact List.forall_mem_singleton.2 this
      · exact List.forall_mem_cons.2 ⟨this, List.forall_mem_singleton.2 params⟩
    have closed : '(' ∉ Text.joinWith ", " arguments ++ ");" := by
      have behind : '(' ∉ ");".toList := by decide
      rw [List.mem_append, not_or]
      exact ⟨Text.not_mem_joinWith (by decide) plain, behind⟩
    have name : pre ++ (delegate ++ ".call") =
        (((pre ++ owner) ++ '.' :: "prototype") ++ '.' :: last) ++ '.' :: "call" := by simp [e]
    have single : '(' ∉ pre ++ (delegate ++ ".call") := by simp [hpre, hdelegate]
    have call : pre ++ (delegate ++ ".call(" ++ Text.joinWith ", " arguments ++ ")" ++ [';']) =
        (pre ++ (delegate ++ ".call")) ++ '(' :: (Text.joinWith ", " arguments ++ ");") := by simp
    rw [call]
    exact not_delegates_prototype hlast name single closed
  · have call : pre ++ (delegate ++ "(" ++ documentedParams member ++ ")" ++ [';']) =
        (pre ++ delegate) ++
          '(' :: (Text.joinWith ", " (Doc.parameters member.doc.render) ++ ");") := by
      simp [documentedParams]
    rw [call]
    exact not_delegates_parameters identifiers first (by simp [hpre, hdelegate])

/-- **The body that is written for a method that delegates** contains no delegation to the parent,
unless the first parameter that is documented is `this`. -/
theorem not_delegates_delegatedBody {name m : Text} {way : Way} {member : Member}
    (first : (Doc.parameters member.doc.render).head? ≠ some "this".toList) :
    ¬ Delegates name way m (delegatedBody member) := by
  have nothing : ¬ Delegates name way m [] := not_delegates_of_not_mem (by simp)
  unfold delegatedBody
  split
  · exact nothing
  · rename_i delegate found
    split
    · exact nothing
    · have called (front : Text) (h : '(' ∉ front) : ¬ Delegates name way m
          (front ++ (delegateCall delegate (documentedParams member) ++ [';'])) :=
        not_delegates_delegateCall first (isDotted_of_delegate? found) h
      simp only
      split
      · exact called "return " (by decide)
      · exact called [] (by simp)

end Modulize.Class
