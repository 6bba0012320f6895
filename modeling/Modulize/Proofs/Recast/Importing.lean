import Modulize.Proofs.Recast.Localizing
import Modulize.Proofs.Recast.Stripping
import Modulize.Recast.File

/-!
# Requires turned into imports

A require is replaced by an import statement in its place, and a namespace by a local name in the
whole text. What the replacement of one require can do is told case by case (`Replacement`,
`replacement_of_replaceRequire`, `exists_written_of_addImport`), and what is written for the
requires of a file is recorded (`writtenImports`). If none of it looks like a call
(`WrittenImport.Keeps`), then the replacement of a require takes its header away and keeps the
others (`Laid.replaceRequire`). When all headers are gone the text is silent, and it stays silent
when the file is finished (`silent_finishFile`).
-/

namespace Modulize.Recast

open Pattern Qualified Declaration

variable {root name t x y : Text} {hs : List Text} {ctx : FileContext} {s s' : Importing}
  {r : Require} {target : Path} {c : Converted}

/-! ## What is written -/

/-- What is written for a require: an import statement, and perhaps a local name for the references
to its namespace. -/
structure WrittenImport where
  name : Text
  localName : Option Text
  statement : Text
  deriving DecidableEq, Repr

/-- What is written for the import of a namespace from the file `target`. -/
def writtenFor (ctx : FileContext) (s : Importing) (r : Require) (target : Path) :
    List WrittenImport :=
  match r.binding with
  | .members entries => [⟨r.name, none, importMembers entries (importSpecifier ctx.path target)⟩]
  | _ =>
    match aliasFor ctx s r with
    | .ok localName =>
      [⟨r.name, some localName,
        ctx.importStatement r.name localName (importSpecifier ctx.path target)⟩]
    | .error _ => []

/-- What is written for a require. -/
def writtenByRequire (ctx : FileContext) (s : Importing) (r : Require) : List WrittenImport :=
  match ctx.graph.providerOf? r.name with
  | none => []
  | some target => if isRedundant ctx s r target then [] else writtenFor ctx s r target

/-- What is written for the requires of a file with converted declarations. -/
def writtenImports (ctx : FileContext) (c : Converted) : List WrittenImport :=
  trace (replaceRequire ctx) (writtenByRequire ctx) ⟨c.text, c.internals, []⟩
    (longestFirst Require.name (ctx.withSiblings c.text))

/-- The exchange of the references to a namespace for the local name, if there is one. -/
def WrittenImport.exchange (w : WrittenImport) (t : Text) : Text :=
  match w.localName with
  | none => t
  | some localName => replaceReferences t w.name localName

/-- An import is written into the text with exchanged references. -/
theorem exists_written_of_addImport (h : addImport ctx s r target = .ok s') :
    ∃ w, writtenFor ctx s r target = [w] ∧ w.name = r.name ∧
      s'.text = placeImport (w.exchange s.text) r.matched w.statement := by
  unfold addImport at h
  unfold writtenFor
  cases binding : r.binding with
  | members entries =>
    simp only [binding] at h
    obtain rfl := Except.ok.inj h
    exact ⟨_, rfl, rfl, rfl⟩
  | _ =>
    simp only [binding] at h
    obtain ⟨localName, found, h⟩ := bind_eq_ok h
    obtain rfl := Except.ok.inj h
    simp only [found]
    exact ⟨_, rfl, rfl, rfl⟩

/-- What the replacement of a require can do: an advisory one without a provider is passed over, a
redundant one at most loses its header, and any other one is imported. -/
inductive Replacement (ctx : FileContext) (s : Importing) (r : Require) (s' : Importing) : Prop
  | passed (unowned : ctx.graph.providerOf? r.name = none) (same : s' = s)
  | redundant {target : Path} (owner : ctx.graph.providerOf? r.name = some target)
      (redundant : isRedundant ctx s r target = true) (bare : ∀ h ∈ r.matched, h = [])
      (same : s' = s)
  | deleted {target : Path} {header : Text} (owner : ctx.graph.providerOf? r.name = some target)
      (redundant : isRedundant ctx s r target = true) (matched : r.matched = some header)
      (removed : s' = { s with text := removeStatement s.text header })
  | imported {target : Path} (owner : ctx.graph.providerOf? r.name = some target)
      (needed : isRedundant ctx s r target = false) (added : addImport ctx s r target = .ok s')

theorem replacement_of_replaceRequire (h : replaceRequire ctx s r = .ok s') :
    Replacement ctx s r s' := by
  unfold replaceRequire at h
  cases owner : ctx.graph.providerOf? r.name with
  | none =>
    simp only [owner] at h
    split at h
    · exact .passed owner (Except.ok.inj h).symm
    · cases h
  | some target =>
    simp only [owner] at h
    split at h
    · rename_i redundant
      split at h
      · rename_i a header matched
        exact .deleted owner redundant matched (Except.ok.inj h).symm
      · rename_i other
        refine .redundant owner redundant (fun line matched => ?_) (Except.ok.inj h).symm
        cases line with
        | nil => rfl
        | cons a header => exact absurd matched (other a header)
    · rename_i needed
      exact .imported owner (Bool.eq_false_iff.2 needed) h

/-- What is written does not look like a call, and no header mentions what it is written for. -/
structure WrittenImport.Keeps (hs : List Text) (w : WrittenImport) : Prop where
  silent : Silent callWords w.statement
  exchange : ∀ localName ∈ w.localName,
    IsNamespace w.name ∧ Unmentioned w.name hs ∧ IsLocalName w.name localName

instance (hs : List Text) (w : WrittenImport) : Decidable (w.Keeps hs) :=
  decidable_of_iff (Silent callWords w.statement ∧ ∀ localName ∈ w.localName,
      IsNamespace w.name ∧ Unmentioned w.name hs ∧ IsLocalName w.name localName)
    ⟨fun h => ⟨h.1, h.2⟩, fun h => ⟨h.silent, h.exchange⟩⟩

theorem WrittenImport.Keeps.subset {w : WrittenImport} {hs' : List Text} (h : w.Keeps hs)
    (sub : hs' ⊆ hs) : w.Keeps hs' :=
  ⟨h.silent, fun l hl => (h.exchange l hl).imp_right (And.imp_left (·.subset sub))⟩

/-! ## One require -/

/-- **A statement takes the place of a header**, or comes first. -/
theorem Laid.placeImport {matched : Option Text} {statement : Text} (laid : Laid root hs t)
    (apart : Apart hs) (header : ∀ h ∈ matched, h ∈ hs) (silent : Silent callWords statement) :
    ∃ hs', hs.Perm (matched.toList ++ hs') ∧
      Laid root hs' (placeImport t matched statement) := by
  cases matched with
  | none =>
    refine ⟨hs, .refl hs, ?_⟩
    simp only [Recast.placeImport]
    split
    · exact laid
    · have first : Silent callWords (statement ++ ['\n']) :=
        silent.append (silent_of_not_mem (by decide))
      simpa using laid.prepend first (Or.inl (by simp [AtBreak]))
  | some h =>
    have mem := header h rfl
    obtain ⟨hs', without, laid'⟩ := laid.exists_placeImport (laid.lines h mem) mem apart silent
    exact ⟨hs', without.perm, laid'⟩

/-- The exchange of references for a local name keeps the headers. -/
theorem Laid.exchange {w : WrittenImport} (hroot : IsNamespace root) (laid : Laid root hs t)
    (keeps : w.Keeps hs) : Laid root hs (w.exchange t) := by
  unfold WrittenImport.exchange
  cases given : w.localName with
  | none => exact laid
  | some localName =>
    obtain ⟨hn, free, isLocal⟩ := keeps.exchange localName given
    exact laid.replaceReferences hroot hn isLocal.word isLocal.begins free

theorem Laid.addImport (hroot : IsNamespace root) (laid : Laid root hs s.text) (apart : Apart hs)
    (header : ∀ h ∈ r.matched, h ∈ hs) (written : ∀ w ∈ writtenFor ctx s r target, w.Keeps hs)
    (h : addImport ctx s r target = .ok s') :
    ∃ hs', hs.Perm (r.matched.toList ++ hs') ∧ Laid root hs' s'.text := by
  obtain ⟨w, recorded, -, text⟩ := exists_written_of_addImport h
  have keeps := written w (recorded ▸ List.mem_singleton_self w)
  rw [text]
  exact (laid.exchange hroot keeps).placeImport apart header keeps.silent

/-- **The replacement of a require takes its header away** and keeps the others. -/
theorem Laid.replaceRequire (hroot : IsNamespace root) (laid : Laid root hs s.text)
    (apart : Apart hs) (header : ∀ h ∈ r.matched, h ∈ hs)
    (resolved : r.matched.isSome → (ctx.graph.providerOf? r.name).isSome)
    (written : ∀ w ∈ writtenByRequire ctx s r, w.Keeps hs)
    (h : replaceRequire ctx s r = .ok s') :
    ∃ hs', hs.Perm (r.matched.toList ++ hs') ∧ Laid root hs' s'.text := by
  cases replacement_of_replaceRequire h with
  | passed unowned same =>
    have none : r.matched = none := by simpa [unowned] using resolved
    subst same
    exact ⟨hs, by simp [none], laid⟩
  | redundant owner redundant bare same =>
    have none : r.matched = none := by
      refine Option.eq_none_iff_forall_not_mem.2 fun line matched => ?_
      exact (laid.lines line (header line matched)).ne_nil (bare line matched)
    subst same
    exact ⟨hs, by simp [none], laid⟩
  | @deleted _ line owner redundant matched removed =>
    have mem := header line matched
    obtain ⟨hs', without, laid'⟩ := laid.exists_removeStatement (laid.lines line mem) mem apart
    subst removed
    exact ⟨hs', by rw [matched]; exact without.perm, laid'⟩
  | imported owner needed added =>
    simp only [writtenByRequire, owner, needed] at written
    exact laid.addImport hroot apart header written added

/-! ## All requires -/

/-- **When all requires have been replaced**, and no headers but theirs have been left, the text is
silent. -/
theorem Laid.foldlM_replaceRequire {rs : List Require} (hroot : IsNamespace root)
    (laid : Laid root hs s.text) (apart : Apart hs)
    (headers : hs.Perm (rs.filterMap Require.matched))
    (resolved : ∀ r ∈ rs, r.matched.isSome → (ctx.graph.providerOf? r.name).isSome)
    (written : ∀ w ∈ trace (Recast.replaceRequire ctx) (writtenByRequire ctx) s rs, w.Keeps hs)
    (h : rs.foldlM (Recast.replaceRequire ctx) s = .ok s') : Silent callWords s'.text := by
  induction rs generalizing hs s with
  | nil =>
    obtain rfl := Except.ok.inj h
    obtain rfl := List.perm_nil.1 headers
    exact laid.silent
  | cons r rs ih =>
    rw [List.foldlM_cons] at h
    obtain ⟨s₁, first, h⟩ := bind_eq_ok h
    obtain ⟨resolved₁, resolved⟩ := List.forall_mem_cons.1 resolved
    rw [filterMap_cons_toList] at headers
    simp only [trace, first] at written
    obtain ⟨written₁, written⟩ := List.forall_mem_append.1 written
    obtain ⟨hs', perm, laid'⟩ := laid.replaceRequire hroot apart
      (fun h hh => headers.mem_iff.2 (List.mem_append_left _ (Option.mem_toList.2 hh))) resolved₁
      written₁ first
    have left := (List.perm_append_left_iff _).1 (perm.symm.trans headers)
    have apart' : Apart hs' := (List.pairwise_append.1 (apart.perm perm)).2.1
    have sub : hs' ⊆ hs := fun h hh => perm.mem_iff.2 (List.mem_append_right _ hh)
    exact ih laid' apart' left resolved (fun w hw => (written w hw).subset sub) h

theorem filterMap_matched_implied (names : List Text) :
    (names.map Require.implied).filterMap Require.matched = [] := by
  induction names with
  | nil => rfl
  | cons _ _ ih => exact ih

theorem silent_replaceRequires {out : Text} (hroot : IsNamespace root) (laid : Laid root hs c.text)
    (apart : Apart hs)
    (headers : hs.Perm ((ctx.graph.requiresOf ctx.path).filterMap Require.matched))
    (resolved : ∀ r ∈ ctx.graph.requiresOf ctx.path,
      r.matched.isSome → (ctx.graph.providerOf? r.name).isSome)
    (written : ∀ w ∈ writtenImports ctx c, w.Keeps hs)
    (h : replaceRequires ctx c.text (ctx.withSiblings c.text) c.internals = .ok out) :
    Silent callWords out := by
  have longest : (longestFirst Require.name (ctx.withSiblings c.text)).Perm
      (ctx.withSiblings c.text) := sortBy_perm _ _
  have same : (ctx.withSiblings c.text).filterMap Require.matched =
      (ctx.graph.requiresOf ctx.path).filterMap Require.matched := by
    rw [FileContext.withSiblings, List.filterMap_append, filterMap_matched_implied,
      List.append_nil]
  unfold replaceRequires at h
  cases run : (longestFirst Require.name (ctx.withSiblings c.text)).foldlM (replaceRequire ctx)
      ⟨c.text, c.internals, []⟩ with
  | error f =>
    rw [run] at h
    cases h
  | ok s' =>
    rw [run] at h
    obtain rfl := Except.ok.inj h
    refine laid.foldlM_replaceRequire hroot apart
      (headers.trans (same ▸ (longest.symm.filterMap _))) (fun r hr => ?_) written run
    rcases List.mem_append.1 (longest.mem_iff.1 hr) with hr | hr
    · exact resolved r hr
    · obtain ⟨n, -, rfl⟩ := List.mem_map.1 hr
      exact fun h => nomatch h

/-! ## What is left at the end -/

theorem gives_suppressTag :
    suppressTag.Gives fun _ piece notes => (∃ r, piece = '@' :: r) ∧ notes = [] := by
  refine (((describes_literal "@suppress").gives.seq (describes_run isBlank).gives).seq
    (describes_literal "\x7bextraRequire\x7d").gives).imp ?_
  rintro _ _ _ ⟨_, _, _, _, ⟨_, _, _, _, ⟨rfl, rfl⟩, ⟨-, rfl⟩, rfl, rfl⟩, ⟨rfl, rfl⟩, rfl, rfl⟩
  exact ⟨⟨_, rfl⟩, rfl⟩

/-- A tag is erased without leaving a call behind. -/
theorem silent_eraseTag (silent : Silent callWords t) : Silent callWords (suppressTag.erase t) := by
  have consumes : suppressTag.Consumes := gives_suppressTag.consumes fun _ _ _ ⟨⟨_, e⟩, _⟩ => by
    simp [e]
  have allows : suppressTag.Allows (fun _ => [])
      fun _ piece _ new => (∃ r, piece = '@' :: r) ∧ new = [] :=
    gives_suppressTag.allows fun _ _ _ _ _ h _ => ⟨h.1, rfl⟩
  refine Silent.rewrites (u := []) ?_ (rewrites_replace consumes allows t) (by simp) silent
  rintro past _ rest _ ⟨⟨r, rfl⟩, rfl⟩ u z - silent
  exact Silent.of_tag silent |>.append silent.of_append.of_append

/-- References below the root are shortened without leaving a call behind. -/
theorem silent_stripRoot (hroot : IsNamespace root) (allowlist : List Text)
    (silent : Silent callWords t) : Silent callWords (stripRoot root allowlist t) := by
  have names : ∀ n ∈ sortBy (fun a b => b.length ≤ a.length) (strippedNames root allowlist t),
      IsNamespace n := fun n hn => isNamespace_of_mem_strippedNames hroot ((mem_sortBy _).1 hn)
  unfold stripRoot
  generalize sortBy _ (strippedNames root allowlist t) = ns at names
  induction ns generalizing t with
  | nil => exact silent
  | cons n ns ih =>
    obtain ⟨hn, names⟩ := List.forall_mem_cons.1 names
    have laid : Laid root [] t := .code silent
    exact ih (laid.replaceReferences hroot hn (hn _ (lastSegment_mem n)) (Or.inl rfl)
      (by simp [Unmentioned])).silent names

/-- The flag is replaced without leaving a call behind. -/
theorem silent_compiledFlag (silent : Silent callWords t) :
    Silent callWords (compiledFlag.replace (fun _ => "true") t) := by
  have gives : compiledFlag.Gives fun past piece _ =>
      (∀ a ∈ past.head?, isIdent a = false) ∧ piece = "COMPILED" := by
    refine (((gives_notAfter _).seq (describes_literal "COMPILED").gives).seq
      (gives_notBefore isIdent)).imp ?_
    rintro past _ _ ⟨_, _, _, _, ⟨_, _, _, _, ⟨before, rfl, rfl⟩, ⟨rfl, rfl⟩, rfl, rfl⟩, ⟨rfl, rfl⟩,
      rfl, rfl⟩
    exact ⟨fun a ha => (Bool.or_eq_false_iff.1 (before a ha)).1, rfl⟩
  have allows : compiledFlag.Allows (fun _ => "true") fun past piece _ new =>
      (∀ a ∈ past.head?, isIdent a = false) ∧ piece = "COMPILED" ∧ new = "true" :=
    gives.allows fun _ _ _ _ _ h _ => ⟨h.1, h.2, rfl⟩
  have consumes : compiledFlag.Consumes := gives.consumes fun _ _ _ h => by simp [h.2]
  refine Silent.rewrites (u := []) ?_ (rewrites_replace consumes allows t) (by simp) silent
  rintro past _ rest _ ⟨before, rfl, rfl⟩ u z hu silent
  have interrupts : Interrupts callWords u (([] : Text) ++ ("true" ++ z)) :=
    interrupts_word (by decide) (by decide) rfl (Or.inl fun a ha => before a (hu a ha)) z
  exact silent.splice isIdentifier_of_mem_callWords interrupts
    ((silent_of_not_mem (by decide)).append silent.of_append.of_append)

/-- **A finished file is silent** when its headers are those of its requires. -/
theorem silent_finishFile {out : Text} (hroot : IsNamespace ctx.settings.root)
    (laid : Laid ctx.settings.root hs c.text) (apart : Apart hs)
    (headers : hs.Perm ((ctx.graph.requiresOf ctx.path).filterMap Require.matched))
    (resolved : ∀ r ∈ ctx.graph.requiresOf ctx.path,
      r.matched.isSome → (ctx.graph.providerOf? r.name).isSome)
    (written : ∀ w ∈ writtenImports ctx c, w.Keeps hs) (h : finishFile ctx c = .ok out) :
    Silent callWords out := by
  obtain ⟨t, replaced, h⟩ := bind_eq_ok h
  obtain rfl := Except.ok.inj h
  have silent := silent_replaceRequires hroot laid apart headers resolved written replaced
  exact silent_compiledFlag (silent_stripRoot hroot _ (silent_eraseTag silent))

end Modulize.Recast
