import Modulize.Class.Collect
import Modulize.Proofs.Collections
import Modulize.Proofs.Text
import Modulize.Proofs.Pattern.Matches
import Modulize.Proofs.Script.Scan

/-!
# Collected classes

What the classes found in a text are. The definition of a constructor is the statement behind the
head of the constructor, without the semicolon at the end (`ConstructorAt`); the body of a member is
the statement behind the equals sign with the sign in front of it, or a semicolon alone
(`MemberAt`). Every class that is collected consists of such constructors and members
(`collect_sound`).
-/

namespace Modulize.Class

open Pattern

/-! ## Heads -/

/-- What a constructor is in a text: the statement behind its head begins at offset `s`. -/
structure ConstructorAt (t : Text) (s : Nat) (c : Constructor) : Prop where
  start_le : c.span.1 ≤ s
  ends : Script.statementEnd t s = .ok c.span.2
  definition : c.definition = Text.dropEndWhile (· == ';') (Text.trimEnd (t.slice s c.span.2))
  name : ∃ a r, c.name = a :: r ∧ isBlank a = false
  binding : c.binding = [] ∨ ∃ a r, c.binding = a :: r ∧ isBlank a = false

theorem isBlank_eq_false_of_isDotted {a : Char} (h : isDotted a = true) : isBlank a = false := by
  have dot : isBlank '.' = false := by decide
  cases hb : isBlank a with
  | false => rfl
  | true =>
    simp only [isDotted, isIdent_eq_false_of_isBlank hb, Bool.false_or, beq_iff_eq] at h
    subst h
    rw [dot] at hb
    cases hb

/-- The name in the head of a constructor is a dotted name. -/
theorem groupText_constructorHead {c d : Cursor} (h : d ∈ constructorHead.ends c) :
    ∃ a r, (Match.mk c d).groupText 3 = a :: r ∧ isDotted a = true := by
  unfold constructorHead at h
  obtain ⟨d₁, h, hd₁⟩ := mem_ends_seq.1 h
  obtain ⟨d₂, h, hd₂⟩ := mem_ends_seq.1 h
  obtain ⟨d₃, h, hd₃⟩ := mem_ends_seq.1 h
  obtain ⟨d₄, h, hd₄⟩ := mem_ends_seq.1 h
  obtain ⟨d₅, h, hd₅⟩ := mem_ends_seq.1 h
  obtain ⟨b, -, hd⟩ := mem_ends_seq.1 h
  obtain ⟨e, he, rfl⟩ := mem_ends_group.1 hd
  have groups : d.groups = (b.close 3 e).groups := by
    rw [keepsGroups_place _ _ _ hd₁, (describes_literal _).keepsGroups _ _ hd₂,
      (describes_run _).keepsGroups _ _ hd₃, (describes_one _).keepsGroups _ _ hd₄,
      (describes_run _).keepsGroups _ _ hd₅]
  obtain ⟨_, rest, hb, ⟨a, r, ha, -, rfl⟩, rfl⟩ := (describes_run1 _ _ _).1 he
  refine ⟨a, r, ?_, ha⟩
  rw [Match.groupText, Match.group?, groups, lookup?_close]
  exact (Cursor.reads_after hb).textTo

theorem statementEnd_eq_ok {t : Text} {s e : Nat} : Script.statementEnd t s = .ok e ↔
    Script.Scan.outside.statementEnd? (t.take s).reverse s (t.drop s) = some e := by
  unfold Script.statementEnd
  constructor
  · intro h
    split at h
    · rename_i e' he
      obtain rfl := Except.ok.inj h
      exact he
    · cases h
  · intro h
    have h : Script.statementEndAmong 0 (Script.codeChars t s) = some e := h
    rw [h]

theorem lt_statementEnd {t : Text} {s e : Nat} (h : Script.statementEnd t s = .ok e) :
    s < e ∧ e ≤ t.length := by
  obtain ⟨piece, c, r, hr, he, -⟩ := Script.Scan.exists_of_statementEnd? (statementEnd_eq_ok.1 h)
  have := congrArg List.length hr
  simp only [List.length_drop, List.length_append, List.length_cons] at this
  omega

theorem constructorAt_of_read {t : Text} {m : Match} {c : Constructor}
    (hm : m ∈ constructorHead.allMatches t) (h : readConstructor t m = .ok c) :
    ConstructorAt t m.stop.offset c := by
  obtain ⟨-, -, hstop⟩ := mem_allMatches hm
  obtain ⟨piece, reads⟩ := reads_of_mem_ends hstop
  obtain ⟨e, he, h⟩ := bind_eq_ok h
  obtain rfl := Except.ok.inj h
  obtain ⟨a, r, name, ha⟩ := groupText_constructorHead hstop
  refine ⟨?_, he, rfl, ⟨a, r, name, isBlank_eq_false_of_isDotted ha⟩, ?_⟩
  · rw [reads.offset]
    exact Nat.le_add_right _ _
  · split
    · exact Or.inl rfl
    · rename_i word _ hword
      cases hw : (m.groupText 2).trim with
      | nil => exact absurd hw hword
      | cons a r => exact Or.inr ⟨a, r ++ [' '], by simp, Text.head_trim hw⟩

/-! ## Members -/

/-- What a member is in a text: a semicolon alone, or an equals sign with blanks around it and the
statement that begins behind them, at offset `s`. -/
inductive MemberAt (t : Text) (s : Nat) (m : Member) : Prop
  | bare (body : m.body = ";") (span : m.span.1 ≤ m.span.2)
  | assigned (b b' : Text) (hb : b.all isBlank = true) (hb' : b'.all isBlank = true)
      (start_le : m.span.1 ≤ s) (ends : Script.statementEnd t s = .ok m.span.2)
      (body : m.body = b ++ '=' :: (b' ++ t.slice s m.span.2))

/-- The mark in the head of a member is a semicolon, or an equals sign with blanks around it, at the
end of the head. -/
theorem group_memberHead {c d : Cursor} (h : d ∈ memberHead.ends c) :
    ∃ mark, (Match.mk c d).group? 4 = some mark ∧ c.offset ≤ mark.start ∧ mark.stop = d.offset ∧
      (∀ t, c.IsIn t → t.slice mark.start mark.stop = mark.text) ∧
      (mark.text = ";" ∨ ∃ b b', b.all isBlank = true ∧ b'.all isBlank = true ∧
        mark.text = b ++ '=' :: b') := by
  unfold memberHead at h
  obtain ⟨e, he, hd⟩ := mem_ends_seq.1 h
  obtain ⟨e', he', rfl⟩ := mem_ends_group.1 hd
  obtain ⟨x, hx⟩ := reads_of_mem_ends he
  refine ⟨_, lookup?_close 4 e e', ?_, rfl, ?_, ?_⟩
  · rw [hx.offset]
    exact Nat.le_add_right _ _
  · intro t ht
    obtain ⟨y, hy⟩ := reads_of_mem_ends he'
    exact (hy.slice (hx.isIn ht)).trans hy.textTo.symm
  · rcases List.mem_append.1 he' with he' | he'
    · obtain ⟨_, rest, hc, ⟨a, ha, rfl⟩, rfl⟩ := (describes_one _ _ _).1 he'
      left
      rw [(Cursor.reads_after hc).textTo, eq_of_beq ha]
      rfl
    · right
      obtain ⟨e₁, he₁, h₁⟩ := mem_ends_seq.1 he'
      obtain ⟨e₂, he₂, h₂⟩ := mem_ends_seq.1 he₁
      obtain ⟨-, rfl⟩ := mem_ends_notBefore.1 h₂
      obtain ⟨_, rest, hc, ⟨b, _, hb, ⟨a, ha, rfl⟩, rfl⟩, rfl⟩ :=
        ((describes_run isBlank).seq (describes_one (· == '='))) _ _ |>.1 he₂
      obtain ⟨b', rest', hc', hb', rfl⟩ := (describes_run _ _ _).1 h₁
      obtain rfl := eq_of_beq ha
      refine ⟨b, b', hb, hb', ?_⟩
      rw [((Cursor.reads_after hc).trans (Cursor.reads_after hc')).textTo]
      simp

theorem memberAt_of_read {root t : Text} {m : Match} {member : Member}
    (hm : m ∈ memberHead.allMatches t) (h : readMember root t m = .ok member) :
    MemberAt t m.stop.offset member := by
  obtain ⟨isIn, -, hstop⟩ := mem_allMatches hm
  obtain ⟨piece, reads⟩ := reads_of_mem_ends hstop
  obtain ⟨mark, group, start_le, stop, text, form⟩ := group_memberHead hstop
  have group : m.group? 4 = some mark := group
  unfold readMember at h
  rw [group] at h
  obtain ⟨⟨body, behind⟩, hbody, h⟩ := bind_eq_ok h
  obtain rfl := Except.ok.inj h
  simp only [Option.getD_some, Script.definition] at hbody
  split at hbody
  · obtain ⟨rfl, rfl⟩ := Prod.mk.inj (Except.ok.inj hbody)
    refine .bare rfl ?_
    simp only [Option.getD_some]
    omega
  · rename_i hmark
    obtain ⟨b, b', hb, hb', htext⟩ := form.resolve_left hmark
    cases he : Script.statementEnd t mark.stop with
    | error f =>
      rw [he] at hbody
      cases hbody
    | ok e =>
      rw [he] at hbody
      obtain ⟨rfl, rfl⟩ := Prod.mk.inj (Except.ok.inj hbody)
      obtain ⟨hlt, hle⟩ := lt_statementEnd he
      have hoff := reads.offset
      have hslice := text t isIn
      have mark_le : mark.start ≤ mark.stop := by
        by_cases hle : mark.start ≤ mark.stop
        · exact hle
        · have e : mark.stop - mark.start = 0 := by omega
          rw [Text.slice, e, List.take_zero, htext] at hslice
          cases b <;> cases hslice
      have span : mark.start + (t.slice mark.start e).length = e := by
        rw [Text.length_slice hle]
        omega
      refine .assigned b b' hb hb' (by simp only; omega) ?_ ?_
      · simp only [Option.getD_some, span]
        rw [← stop]
        exact he
      · simp only [Option.getD_some, span]
        rw [← stop, ← Text.slice_append_slice mark_le (Nat.le_of_lt hlt), hslice, htext]
        simp

/-! ## Classes -/

theorem mem_of_mem_foldl_keep {cs kept : List Constructor} {c : Constructor}
    (h : c ∈ cs.foldl
      (fun kept c => if kept.any (·.name = c.name) then kept else kept ++ [c]) kept) :
    c ∈ kept ∨ c ∈ cs := by
  induction cs generalizing kept with
  | nil => exact Or.inl h
  | cons a cs ih =>
    rcases ih h with h | h
    · simp only at h
      split at h
      · exact Or.inl h
      · rcases List.mem_append.1 h with h | h
        · exact Or.inl h
        · exact Or.inr (List.mem_singleton.1 h ▸ List.mem_cons_self)
    · exact Or.inr (List.mem_cons_of_mem _ h)

theorem constructorAt_of_mem {t : Text} {cs : List Constructor} {c : Constructor}
    (h : constructors t = .ok cs) (hc : c ∈ cs) : ∃ s, ConstructorAt t s c := by
  obtain ⟨all, hall, h⟩ := bind_eq_ok h
  obtain rfl := Except.ok.inj h
  obtain ⟨m, hm, hread⟩ := exists_of_mem_mapM hall
    ((mem_of_mem_foldl_keep hc).resolve_left List.not_mem_nil)
  exact ⟨m.stop.offset, constructorAt_of_read hm hread⟩

theorem memberAt_of_mem {root t : Text} {cs : List Constructor} {found : List (Text × Member)}
    {p : Text × Member} (h : members root t cs = .ok found) (hp : p ∈ found) :
    ∃ s, MemberAt t s p.2 := by
  obtain ⟨m, hm, hread⟩ := exists_of_mem_mapM h hp
  cases hr : readMember root t m with
  | error f =>
    rw [hr] at hread
    cases hread
  | ok member =>
    rw [hr] at hread
    obtain rfl := Except.ok.inj hread
    exact ⟨m.stop.offset, memberAt_of_read (List.mem_filter.1 hm).1 hr⟩

/-- A class that has been found in a text. -/
structure DefinitionAt (t : Text) (d : Definition) : Prop where
  constructorAt : ∃ s, ConstructorAt t s d.constructor
  memberAt : ∀ m ∈ d.members, ∃ s, MemberAt t s m
  inherits : ∀ s ∈ d.inheritsSpan, s.1 ≤ s.2

/-- **Collected classes are found in the text.** -/
theorem collect_sound {root t : Text} {ds : List Definition} (h : collect root t = .ok ds) :
    ∀ d ∈ ds, DefinitionAt t d := by
  obtain ⟨cs, hcs, h⟩ := bind_eq_ok h
  cases cs with
  | nil =>
    obtain rfl := Except.ok.inj h
    simp
  | cons c cs =>
    obtain ⟨found, hfound, h⟩ := bind_eq_ok h
    obtain rfl := Except.ok.inj h
    intro d hd
    obtain ⟨k, hk, rfl⟩ := List.mem_map.1 hd
    refine ⟨constructorAt_of_mem hcs hk, fun m hm => ?_, fun s hs => ?_⟩
    · obtain ⟨p, hp, rfl⟩ := List.mem_map.1 hm
      exact memberAt_of_mem hfound (List.mem_filter.1 hp).1
    · obtain ⟨call, hcall, rfl⟩ := Option.map_eq_some_iff.1 hs
      have mem := (List.mem_filter.1 (List.mem_of_mem_getLast? hcall)).1
      obtain ⟨-, -, hstop⟩ := mem_allMatches mem
      obtain ⟨piece, reads⟩ := reads_of_mem_ends hstop
      simp only [Match.span, reads.offset]
      omega

/-- The members of a class have been read in the text. -/
theorem exists_readMember {root t : Text} {ds : List Definition} (h : collect root t = .ok ds)
    {d : Definition} (hd : d ∈ ds) {m : Member} (hm : m ∈ d.members) :
    ∃ x ∈ memberHead.allMatches t, readMember root t x = .ok m := by
  obtain ⟨cs, -, h⟩ := bind_eq_ok h
  cases cs with
  | nil =>
    obtain rfl := Except.ok.inj h
    cases hd
  | cons c cs =>
    obtain ⟨found, hfound, h⟩ := bind_eq_ok h
    obtain rfl := Except.ok.inj h
    obtain ⟨k, -, rfl⟩ := List.mem_map.1 hd
    obtain ⟨p, hp, rfl⟩ := List.mem_map.1 hm
    obtain ⟨x, hx, hread⟩ := exists_of_mem_mapM hfound (List.mem_filter.1 hp).1
    obtain ⟨member, read, rfl⟩ := map_eq_ok hread
    exact ⟨x, (List.mem_filter.1 hx).1, read⟩

end Modulize.Class
