import Modulize.Proofs.Recast.Bindings
import Modulize.Proofs.Recast.Passes

/-!
# Provided namespaces turned local

On its turn a provided namespace becomes a local binding, or its members do, and its header is taken
away. The other headers stay where they are: a turn keeps the layout of a text but for that header
(`Holds.bindProvide`), and so does the whole conversion of a file (`Holds.convertProvided`).
-/

namespace Modulize.Recast

open Pattern Qualified Declaration

variable {root name localName member t x y : Text} {hs : List Text} {reserved : List Text}
  {c c' : Converted}

/-! ## Local names -/

/-- A name that can be written for the references to a namespace. -/
structure IsLocalName (name localName : Text) : Prop where
  word : IsIdentifier localName
  /-- It does not begin a call, unless the references end like that themselves. -/
  begins : localName = lastSegment name ∨ ∀ w ∈ callWords, ¬ localName <+: w

instance (name localName : Text) : Decidable (IsLocalName name localName) :=
  decidable_of_iff (IsIdentifier localName ∧
      (localName = lastSegment name ∨ ∀ w ∈ callWords, ¬ localName <+: w))
    ⟨fun h => ⟨h.1, h.2⟩, fun h => ⟨h.word, h.begins⟩⟩

theorem not_prefix_of_underscore (h : '_' ∈ localName) : ∀ w ∈ callWords, ¬ localName <+: w := by
  have none : ∀ w ∈ callWords, '_' ∉ w := by decide
  exact fun w hw front => none w hw (front.subset h)

theorem isLocalName_valueName (reserved : List Text) (hn : IsNamespace name) :
    IsLocalName name (valueName reserved name) := by
  have last : lastSegment name = ((segments name).reverse.head?).getD [] := by
    rw [List.head?_reverse, lastSegment]
  have words : ∀ s ∈ (segments name).reverse, IsIdentifier s := fun s hs =>
    hn s (List.mem_reverse.1 hs)
  have hne : (segments name).reverse ≠ [] := by simp [segments_ne_nil]
  have under : isIdent '_' = true := by decide
  unfold valueName
  split
  · rename_i l o ss e
    rw [e] at last words
    have hl := words l List.mem_cons_self
    have ho := words o (by simp)
    split
    · refine ⟨⟨by simp, ?_⟩, Or.inr (not_prefix_of_underscore (by simp))⟩
      rw [List.all_append, List.all_cons, ho.2, under, hl.2]
      rfl
    · exact ⟨hl, Or.inl last.symm⟩
  · rename_i l e
    rw [e] at last words
    exact ⟨words l List.mem_cons_self, Or.inl last.symm⟩
  · rename_i e
    exact absurd e hne

theorem isLocalName_memberName (name : Text) (reserved : List Text) (h : IsIdentifier member) :
    IsLocalName (name ++ '.' :: member) (memberName reserved member) := by
  have under : isIdent '_' = true := by decide
  unfold memberName
  split
  · refine ⟨⟨by simp, ?_⟩, Or.inr (not_prefix_of_underscore (by simp))⟩
    rw [List.all_cons, under, h.2]
    rfl
  · exact ⟨h, Or.inl (lastSegment_member h).symm⟩

/-! ## Declarations of values and members -/

theorem gives_equalsSign : (blanks ++ equalsSign).Gives fun _ piece notes =>
    ∃ b, b.all isBlank = true ∧ piece = b ++ ['='] ∧ notes = [] := by
  refine ((describes_run isBlank).gives.seq ((describes_char '=').gives.seq
    (gives_notBefore (· == '=')))).imp ?_
  rintro _ _ _ ⟨b, _, _, _, ⟨hb, rfl⟩, ⟨_, _, _, _, ⟨rfl, rfl⟩, ⟨rfl, rfl⟩, rfl, rfl⟩, rfl, rfl⟩
  exact ⟨b, hb, by simp, rfl⟩

theorem gives_semicolon : (blanks ++ one (· == ';')).Gives fun _ piece notes =>
    ∃ b, b.all isBlank = true ∧ piece = b ++ [';'] ∧ notes = [] := by
  refine ((describes_run isBlank).gives.seq (describes_char ';').gives).imp ?_
  rintro _ _ _ ⟨b, _, _, _, ⟨hb, rfl⟩, ⟨rfl, rfl⟩, rfl, rfl⟩
  exact ⟨b, hb, rfl, rfl⟩

theorem gives_valueDeclaration (name : Text) :
    (valueDeclaration name).Gives fun past piece notes => AtBreak past ∧ ∃ w path b c,
      w.all isSpaceOrTab = true ∧ Spells (segments name) path ∧ b.all isBlank = true ∧
      (c = '=' ∨ c = ';') ∧ piece = w ++ (path ++ (b ++ [c])) ∧
      notes = [(2, b ++ [c]), (1, w)] := by
  refine (((gives_lineStart.seq ((describes_run isSpaceOrTab).gives.group 1)).seq
    (describes_spaced name).gives).seq ((gives_equalsSign.alt gives_semicolon).group 2)).imp ?_
  rintro past _ _ ⟨_, _, tail, _, ⟨w, _, path, _, ⟨_, _, _, _, ⟨start, rfl, rfl⟩,
    ⟨_, ⟨hw, rfl⟩, rfl⟩, rfl, rfl⟩, ⟨hp, rfl⟩, rfl, rfl⟩, ⟨n, ends, rfl⟩, rfl, rfl⟩
  refine ⟨start, w, path, ?_⟩
  rcases ends with ⟨b, hb, rfl, rfl⟩ | ⟨b, hb, rfl, rfl⟩
  · exact ⟨b, '=', hw, hp, hb, Or.inl rfl, by simp, rfl⟩
  · exact ⟨b, ';', hw, hp, hb, Or.inr rfl, by simp, rfl⟩

theorem dot_not_mem_of_blanks {b : Text} (h : b.all isBlank = true) : '.' ∉ b :=
  not_mem_of_all h (by decide)

theorem gives_tail (form : MemberForm) : form.tail.Gives fun _ piece notes =>
    ∃ b c kept, b.all isBlank = true ∧ (c = '=' ∨ c = ';') ∧ '.' ∉ kept ∧ piece = b ++ [c] ∧
      notes = [(2, kept)] := by
  cases form with
  | assigned =>
    refine (gives_equalsSign.group 2).imp ?_
    rintro _ _ _ ⟨_, ⟨b, hb, rfl, rfl⟩, rfl⟩
    exact ⟨b, '=', b ++ ['='], hb, Or.inl rfl, by simp [dot_not_mem_of_blanks hb], rfl, rfl⟩
  | bare =>
    refine ((describes_run isBlank).gives.seq ((describes_char ';').gives.group 2)).imp ?_
    rintro _ _ _ ⟨b, _, _, _, ⟨hb, rfl⟩, ⟨_, ⟨rfl, rfl⟩, rfl⟩, rfl, rfl⟩
    exact ⟨b, ';', [';'], hb, Or.inr rfl, by decide, rfl, rfl⟩

theorem gives_memberDeclaration {r : Pattern} {M : Text → List (Nat × Text) → Prop} (name : Text)
    (form : MemberForm) (h : r.Gives fun _ => M) :
    (memberDeclaration name form r).Gives fun past piece notes => AtBreak past ∧
      ∃ path g m n b c kept, Spells (segments name) path ∧ IsGap g ∧ M m n ∧
        b.all isBlank = true ∧ (c = '=' ∨ c = ';') ∧ '.' ∉ kept ∧
        piece = path ++ (g ++ (m ++ (b ++ [c]))) ∧ notes = (2, kept) :: n := by
  refine ((((gives_lineStart.seq (describes_spaced name).gives).seq describes_dot.gives).seq h).seq
    (gives_tail form)).imp ?_
  rintro past _ _ ⟨_, _, _, _, ⟨_, _, m, n, ⟨path, _, g, _, ⟨_, _, _, _, ⟨start, rfl, rfl⟩,
    ⟨hp, rfl⟩, rfl, rfl⟩, ⟨hg, rfl⟩, rfl, rfl⟩, hm, rfl, rfl⟩,
    ⟨b, c, kept, hb, hc, undotted, rfl, rfl⟩, rfl, rfl⟩
  exact ⟨start, path, g, m, n, b, c, kept, hp, hg, hm, hb, hc, undotted, by simp, by simp⟩

/-- The members that are found have identifiers for names. -/
theorem isIdentifier_of_mem_memberNames {form : MemberForm} (h : member ∈ memberNames t name form) :
    IsIdentifier member := by
  obtain ⟨m, hm, rfl⟩ := List.mem_map.1 (mem_dedup.1 h)
  obtain ⟨past, notes, ⟨-, path, g, s, n, b, c, kept, -, -, ⟨hs, rfl⟩, -, -, -, -, rfl⟩, noted⟩ :=
    (gives_memberDeclaration name form
      ((describes_identifier.group 1).gives)).of_mem_allMatches hm
  rw [groupText_of_noted noted]
  exact hs

/-- The declaration of a value is exchanged for that of a local name. -/
theorem allows_valueDeclaration (hn : IsNamespace name) (word : IsIdentifier localName) :
    (valueDeclaration name).Allows
      (fun m => m.groupText 1 ++ "let " ++ localName ++ m.groupText 2) Declares := by
  refine (gives_valueDeclaration name).allows ?_
  rintro past _ _ rest m ⟨start, w, path, b, c, hw, hp, hb, hc, rfl, rfl⟩ noted
  have undotted : '.' ∉ (' ' :: (localName ++ (b ++ [c])) : Text) := by
    have last : c ≠ '.' := by rcases hc with rfl | rfl <;> decide
    simp [dot_not_mem_of_isIdentifier word, dot_not_mem_of_blanks hb, last.symm]
  have declares := Declares.spelled rest start hw hp (segments_ne_nil name) hn hb hc undotted
  rw [groupText_of_noted noted, groupText_of_noted noted]
  simpa [lookup?] using declares

/-- The declaration of a member is exchanged for that of a local name. -/
theorem allows_memberDeclaration (form : MemberForm) (hn : IsNamespace name)
    (hm : IsIdentifier member) (word : IsIdentifier localName) :
    (memberDeclaration name form (literal member)).Allows
      (fun m => "let " ++ localName ++ m.groupText 2) Declares := by
  refine (gives_memberDeclaration name form (describes_literal member).gives).allows ?_
  rintro past _ _ rest m ⟨start, path, g, member, _, b, c, kept, hp, hg, ⟨rfl, rfl⟩, hb, hc,
    undotted, rfl, rfl⟩ noted
  have undotted' : '.' ∉ (' ' :: (localName ++ kept) : Text) := by
    simp [dot_not_mem_of_isIdentifier word, undotted]
  have words : ∀ s ∈ segments name ++ [member], IsIdentifier s :=
    List.forall_mem_append.2 ⟨hn, List.forall_mem_singleton.2 hm⟩
  have declares := Declares.spelled (w := []) rest start rfl
    (hp.concat (segments_ne_nil name) hg member) (by simp) words hb hc undotted'
  rw [groupText_of_noted noted]
  simpa [lookup?] using declares

/-! ## What headers mention -/

/-- Where a member is mentioned its namespace is. -/
theorem unmentioned_member (hm : IsIdentifier member) (free : Unmentioned name hs) :
    Unmentioned (name ++ '.' :: member) hs := by
  refine fun h mem => occursIn_eq_false fun x y e => matchAt?_reference_eq_none.2 ?_
  intro piece rest e' stands
  have spelled := stands.spelled
  rw [segments_member hm] at spelled
  obtain ⟨p, g, rfl, hg, hp⟩ := spelled.of_concat (segments_ne_nil name)
  refine matchAt?_reference_eq_none.1 (matchAt?_of_occursIn_eq_false (free h mem) e) p
    (g ++ (member ++ rest)) ?_ ⟨hp, stands.before, clear_gap_append hg _⟩
  simpa using e'

theorem Unmentioned.subset {hs' : List Text} (free : Unmentioned name hs) (sub : hs' ⊆ hs) :
    Unmentioned name hs' := fun h mem => free h (sub mem)

/-! ## Defines -/

/-- No define is called in a text that is laid out. -/
theorem Laid.definesNothing (laid : Laid root hs t) : Silent ["define"] t := by
  have sub : (["define"] : List Text) ⊆ callWords := by simp [callWords]
  induction laid with
  | code silent => exact silent.mono sub
  | header silent _ line _ _ ih => exact (silent.mono sub).append (line.definesNothing.append ih)

theorem describes_defineCall (root : Text) : (defineCall root).Describes fun s =>
    ∃ path g b, Spells (segments root) path ∧ IsGap g ∧ b.all isBlank = true ∧
      s = path ++ (g ++ ("define" ++ (b ++ ['(']))) := by
  refine (((((describes_spaced root).seq describes_dot).seq (describes_literal "define")).seq
    (describes_run isBlank)).seq (describes_char '(')).congr fun t => ⟨?_, ?_⟩
  · rintro ⟨_, _, ⟨_, b, ⟨_, _, ⟨path, g, hp, hg, rfl⟩, rfl, rfl⟩, hb, rfl⟩, rfl, rfl⟩
    exact ⟨path, g, b, hp, hg, hb, by simp⟩
  · rintro ⟨path, g, b, hp, hg, hb, rfl⟩
    exact ⟨_, _, ⟨_, b, ⟨_, _, ⟨path, g, hp, hg, rfl⟩, rfl, rfl⟩, hb, rfl⟩, rfl, by simp⟩

/-- No define is read in a text where none is called. -/
theorem not_mem_ends_defineCall {c : Cursor} {d e : Cursor} {p : Text} (reads : c.Reads p e)
    (h : Silent ["define"] (x ++ c.rest)) : d ∉ (defineCall root).ends e := by
  intro hd
  obtain ⟨_, rest, he, ⟨path, g, b, -, ⟨b₁, b₂, rfl, -, hb₂⟩, hb, rfl⟩, -⟩ :=
    (describes_defineCall root e d).1 hd
  have split : x ++ c.rest = (x ++ (p ++ (path ++ b₁))) ++
      '.' :: (b₂ ++ ("define" ++ (b ++ '(' :: rest))) := by
    simp [reads.rest, he]
  rw [split] at h
  have word : IsIdentifier "define" := by decide
  have paren : beforeTag ('(' :: rest) = '(' :: beforeTag rest :=
    List.takeWhile_cons_of_pos (by decide)
  refine h.not_beginsCall ?_
  rw [beforeTag_blanks_append hb₂, beforeTag_identifier_append word, beforeTag_blanks_append hb,
    paren]
  exact beginsCall_call hb₂ (by simp) word hb _

theorem Laid.bindDefines_eq_self (laid : Laid root hs t) (root' : Text) :
    bindDefines root' t = ⟨t, []⟩ := by
  have silent := laid.definesNothing
  refine Recast.bindDefines_eq_self (occursIn_eq_false_of_ends fun x y d e hd => ?_)
    (occursIn_eq_false_of_ends fun x y d e hd => ?_)
  · obtain ⟨f, hf, hd⟩ := mem_ends_seq.1 hd
    obtain ⟨p, reads⟩ := reads_of_mem_ends hf
    exact not_mem_ends_defineCall reads (e ▸ silent) hd
  · obtain ⟨f, hf, hd⟩ := mem_ends_seq.1 hd
    obtain ⟨p, reads⟩ := reads_of_mem_ends hf
    obtain ⟨g, hg, -⟩ := mem_ends_group.1 hd
    simp only [mem_ends_seq] at hg
    obtain ⟨_, ⟨_, ⟨_, ⟨_, ⟨_, ⟨_, call, _⟩, _⟩, _⟩, _⟩, _⟩, _⟩ := hg
    exact not_mem_ends_defineCall reads (e ▸ silent) call

/-! ## The clause of exports -/

theorem trimEnd_append (s t : Text) {a : Char} (ha : isBlank a = false) :
    (s ++ a :: t).trimEnd = s ++ a :: t.trimEnd := by
  have kept : (a :: s.reverse).dropWhile isBlank = a :: s.reverse := by
    rw [List.dropWhile_cons, if_neg (by simp [ha])]
  have reversed : (s ++ a :: t).reverse = t.reverse ++ a :: s.reverse := by simp
  rw [Text.trimEnd, Text.dropEndWhile, reversed, List.dropWhile_append, kept]
  split
  · rename_i none
    have none : t.reverse.dropWhile isBlank = [] := List.isEmpty_iff.1 none
    simp [Text.trimEnd, Text.dropEndWhile, none]
  · simp [Text.trimEnd, Text.dropEndWhile]

/-- Something of its own on lines of their own can be put in place of the blanks at the end. -/
theorem Laid.trimEnd_append {q : Text} (laid : Laid root hs t) (breaks : AtBreak q)
    (interrupts : ∀ u, Interrupts callWords u q) (silent : Silent callWords q) :
    Laid root hs (t.trimEnd ++ q) := by
  induction laid with
  | @code x hx =>
    obtain ⟨w, e, hw⟩ := Text.exists_dropEndWhile isBlank x
    rw [e] at hx
    exact .code (hx.splice isIdentifier_of_mem_callWords (interrupts _) silent)
  | @header x h t hs hx ends line starts rest ih =>
    obtain ⟨r, rfl⟩ := line.exists_concat
    have split : (x ++ (r ++ [';'] ++ t)).trimEnd = x ++ (r ++ [';'] ++ t.trimEnd) := by
      have := Recast.trimEnd_append (x ++ r) t (a := ';') (by decide)
      simpa using this
    rw [split, List.append_assoc, List.append_assoc]
    refine .header hx ends line ?_ ih
    cases e : t.trimEnd with
    | nil => exact breaks
    | cons a s =>
      obtain ⟨w, e', -⟩ := Text.exists_dropEndWhile isBlank t
      have e' : t = t.trimEnd ++ w := e'
      rw [e', e] at starts
      exact starts

theorem dot_not_mem_exportClause {e : ExportEntry} (h : '.' ∉ e.external ∧ '.' ∉ e.internal) :
    '.' ∉ e.exportClause := by
  unfold ExportEntry.exportClause
  split
  · exact h.2
  · simp [h.1, h.2]

/-- A clause of exports comes behind everything else. -/
theorem Laid.appendExports {es : List ExportEntry} (laid : Laid root hs t)
    (undotted : ∀ e ∈ es, '.' ∉ e.external ∧ '.' ∉ e.internal) :
    Laid root hs (appendExports t es) := by
  have clauses : '.' ∉ Text.joinWith ", " (es.map ExportEntry.exportClause) :=
    Text.not_mem_joinWith (by decide) (List.forall_mem_map.2 fun e he =>
      dot_not_mem_exportClause (undotted e he))
  have added : Recast.appendExports t es = t.trimEnd ++ (("\n\n" : Text) ++ ("export" ++
      (" \x7b" ++ Text.joinWith ", " (es.map ExportEntry.exportClause) ++ "\x7d;\n"))) := by
    simp [Recast.appendExports]
  rw [added]
  generalize Text.joinWith ", " (es.map ExportEntry.exportClause) = clause at clauses
  refine laid.trimEnd_append (by simp [AtBreak]) (fun u => ?_) (silent_of_not_mem ?_)
  · exact interrupts_word (by decide) (by decide) (by decide) (Or.inr (by simp)) _
  · simp [clauses]

/-! ## Turns -/

/-- The text of a conversion is laid out, and no name of an export has a dot. -/
structure Holds (root : Text) (hs : List Text) (c : Converted) : Prop where
  laid : Laid root hs c.text
  undotted : ∀ e ∈ c.entries, '.' ∉ e.external ∧ '.' ∉ e.internal

theorem undotted_of_exportOf {es : List ExportEntry} (h : exportOf name localName = .ok es)
    (hn : '.' ∉ name) (hl : '.' ∉ localName) : ∀ e ∈ es, '.' ∉ e.external ∧ '.' ∉ e.internal := by
  unfold exportOf at h
  split at h
  · unfold ExportEntry.make at h
    split at h
    · cases h
    · obtain rfl := Except.ok.inj h
      simp [hn, hl]
  · obtain rfl := Except.ok.inj h
    simp

/-- A value becomes a local binding outside of the headers. -/
theorem Holds.bindValue (hroot : IsNamespace root) (holds : Holds root hs c)
    (hn : IsNamespace name) (free : Unmentioned name hs)
    (h : bindValue reserved name c = .ok c') : Holds root hs c' := by
  obtain ⟨es, exported, h⟩ := bind_eq_ok h
  obtain rfl := Except.ok.inj h
  have isLocal := isLocalName_valueName reserved hn
  have declared := holds.laid.rewrites (careful_declares hroot holds.laid.lines)
    (rewrites_replaceFirst (allows_valueDeclaration hn isLocal.word) c.text)
  refine ⟨declared.replaceReferences hroot hn isLocal.word isLocal.begins free, ?_⟩
  exact List.forall_mem_append.2 ⟨holds.undotted, undotted_of_exportOf exported
    (dot_not_mem_of_isIdentifier (hn _ (lastSegment_mem name)))
    (dot_not_mem_of_isIdentifier isLocal.word)⟩

theorem Holds.bindMember {form : MemberForm} (hroot : IsNamespace root) (holds : Holds root hs c)
    (hn : IsNamespace name) (free : Unmentioned name hs) (hm : IsIdentifier member)
    (h : bindMember reserved name form c member = .ok c') : Holds root hs c' := by
  obtain ⟨es, exported, h⟩ := bind_eq_ok h
  obtain rfl := Except.ok.inj h
  have isLocal := isLocalName_memberName name reserved hm
  have declared := holds.laid.rewrites (careful_declares hroot holds.laid.lines)
    (rewrites_replaceFirst (allows_memberDeclaration form hn hm isLocal.word) c.text)
  refine ⟨declared.replaceReferences hroot (isNamespace_member hn hm) isLocal.word isLocal.begins
    (unmentioned_member hm free), ?_⟩
  exact List.forall_mem_append.2 ⟨holds.undotted, undotted_of_exportOf exported
    (dot_not_mem_of_isIdentifier hm) (dot_not_mem_of_isIdentifier isLocal.word)⟩

/-- The members of an object become local bindings outside of the headers. -/
theorem Holds.bindMembers {form : MemberForm} (hroot : IsNamespace root) (holds : Holds root hs c)
    (hn : IsNamespace name) (free : Unmentioned name hs)
    (h : bindMembers reserved name form c = .ok c') : Holds root hs c' := by
  have words : ∀ m ∈ memberNames c.text name form, IsIdentifier m := fun _ =>
    isIdentifier_of_mem_memberNames
  unfold Recast.bindMembers at h
  generalize memberNames c.text name form = members at h words
  induction members generalizing c with
  | nil =>
    obtain rfl := Except.ok.inj h
    exact holds
  | cons m members ih =>
    rw [List.foldlM_cons] at h
    obtain ⟨c₁, first, h⟩ := bind_eq_ok h
    obtain ⟨hm, words⟩ := List.forall_mem_cons.1 words
    exact ih (holds.bindMember hroot hn free hm first) h words

theorem Holds.removeHeader {d : Provide} (hroot : IsNamespace root) (holds : Holds root hs c)
    (apart : Apart hs) (header : ∀ h ∈ d.matched, h ∈ hs)
    (h : (match d.matched with
      | some (a :: header) => pure { c with text := removeFirst c.text (a :: header) }
      | _ => pure c : Except Failure Converted) = .ok c') :
    ∃ hs', hs.Perm (d.matched.toList ++ hs') ∧ Holds root hs' c' := by
  cases matched : d.matched with
  | none =>
    rw [matched] at h
    obtain rfl := Except.ok.inj h
    exact ⟨hs, .refl hs, holds⟩
  | some line =>
    have mem := header line matched
    have isLine := holds.laid.lines line mem
    obtain ⟨a, r, rfl⟩ := List.exists_cons_of_ne_nil isLine.ne_nil
    rw [matched] at h
    obtain rfl := Except.ok.inj h
    obtain ⟨hs', without, laid⟩ := holds.laid.exists_removeFirst hroot isLine mem apart
    exact ⟨hs', without.perm, laid, holds.undotted⟩

/-- **A turn takes the header of its namespace away** and keeps the others. -/
theorem Holds.bindProvide {d : Provide} (hroot : IsNamespace root) (holds : Holds root hs c)
    (apart : Apart hs) (hn : IsNamespace d.name) (free : Unmentioned d.name hs)
    (header : ∀ h ∈ d.matched, h ∈ hs) (turn : bindProvide reserved c d = .ok c') :
    ∃ hs', hs.Perm (d.matched.toList ++ hs') ∧ Holds root hs' c' := by
  unfold Recast.bindProvide at turn
  cases shape : shapeOf c.text d.name with
  | value =>
    simp only [shape] at turn
    obtain ⟨c₁, bound, turn⟩ := bind_eq_ok turn
    exact (holds.bindValue hroot hn free bound).removeHeader hroot apart header turn
  | object =>
    simp only [shape] at turn
    obtain ⟨c₂, bound, turn⟩ := bind_eq_ok turn
    obtain ⟨c₁, assigned, bare⟩ := bind_eq_ok bound
    have holds₂ := (holds.bindMembers hroot hn free assigned).bindMembers hroot hn free bare
    exact holds₂.removeHeader hroot apart header turn

theorem filterMap_cons_toList {α β : Type} (f : α → Option β) (a : α) (l : List α) :
    (a :: l).filterMap f = (f a).toList ++ l.filterMap f := by
  cases h : f a <;> simp [h]

/-- All turns together. -/
theorem Holds.foldlM_bindProvide {ds : List Provide} {others : List Text}
    (hroot : IsNamespace root) (holds : Holds root hs c) (apart : Apart hs)
    (names : ∀ d ∈ ds, IsNamespace d.name ∧ Unmentioned d.name hs)
    (headers : hs.Perm (ds.filterMap Provide.matched ++ others))
    (turns : ds.foldlM (Recast.bindProvide reserved) c = .ok c') :
    ∃ hs', hs'.Perm others ∧ Holds root hs' c' := by
  induction ds generalizing hs c with
  | nil =>
    obtain rfl := Except.ok.inj turns
    exact ⟨hs, headers, holds⟩
  | cons d ds ih =>
    rw [List.foldlM_cons] at turns
    obtain ⟨c₁, first, turns⟩ := bind_eq_ok turns
    obtain ⟨⟨hn, free⟩, names⟩ := List.forall_mem_cons.1 names
    rw [filterMap_cons_toList, List.append_assoc] at headers
    obtain ⟨hs', perm, holds'⟩ := holds.bindProvide hroot apart hn free
      (fun h hh => headers.mem_iff.2 (List.mem_append_left _ (Option.mem_toList.2 hh))) first
    have left := (List.perm_append_left_iff _).1 (perm.symm.trans headers)
    have apart' : Apart hs' := (List.pairwise_append.1 (apart.perm perm)).2.1
    have sub : hs' ⊆ hs := fun h hh => perm.mem_iff.2 (List.mem_append_right _ hh)
    exact ih holds' apart' (fun d hd => (names d hd).imp_right (·.subset sub)) left turns

/-- **The conversion of the declarations** takes the headers of the provided namespaces away and
keeps the others. -/
theorem Laid.convertProvided {ds : List Provide} {others : List Text} (hroot : IsNamespace root)
    (laid : Laid root hs t) (apart : Apart hs)
    (names : ∀ d ∈ ds, IsNamespace d.name ∧ Unmentioned d.name hs)
    (headers : hs.Perm (ds.filterMap Provide.matched ++ others))
    (h : convertProvided root reserved t ds = .ok c) :
    ∃ hs', hs'.Perm others ∧ Laid root hs' c.text := by
  obtain ⟨c₁, turns, -, rfl⟩ := exists_of_convertProvided h
  rw [laid.bindDefines_eq_self] at turns
  have longest : (longestFirst Provide.name ds).Perm ds := sortBy_perm _ _
  have headers' : hs.Perm ((longestFirst Provide.name ds).filterMap Provide.matched ++ others) :=
    headers.trans ((longest.symm.filterMap _).append_right _)
  have holds : Holds root hs ⟨t, []⟩ := ⟨laid, by simp⟩
  obtain ⟨hs', perm, holds'⟩ := holds.foldlM_bindProvide hroot apart
    (fun d hd => names d (longest.mem_iff.1 hd)) headers' turns
  refine ⟨hs', perm, ?_⟩
  rw [holds'.laid.bindDefines_eq_self]
  refine holds'.laid.appendExports fun e he => holds'.undotted e ?_
  simpa [ExportEntry.sort] using he

end Modulize.Recast
