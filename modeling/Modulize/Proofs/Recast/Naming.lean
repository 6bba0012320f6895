import Modulize.Proofs.Alias.Allocation
import Modulize.Proofs.Recast.Agreement
import Modulize.Proofs.Recast.Importing

/-!
# Collisions of local names

A converted file binds the names that it declares (`declaredNames`) and those of its imports
(`importedNames`). An import that no name is given for gets an alias that is not in use, neither
among the exports of the file nor among the imports before it (`cases_replaceRequire`). The names
that requires give are not compared with anything, and an alias is not compared with the names that
the requires still to come are going to give.

So the aliases keep clear of the exported names and of each other (`pairwise_importedNames`), and
the names of a converted file are distinct exactly if those that are not compared are
(`nodup_localNames_iff`). They need not be (`import_clashes_with_import`): an alias that has been
searched for can be given by a later require.
-/

namespace Modulize.Recast

variable {ctx : FileContext} {s s' : Importing} {r : Require} {target : Path}

/-! ## The names of imports -/

/-- A local name that an import binds, and whether it is an alias that has been searched for. The
others are given by the requires. -/
structure ImportedName where
  name : Text
  searched : Bool
  deriving DecidableEq, Repr

/-- The local names that a require gives to what it imports. -/
def givenNames (r : Require) : List Text :=
  match r.binding with
  | .plain => []
  | .alias name => [name]
  | .members entries => entries.map ExportEntry.internal

/-- A statement is put into the text for an import, unless the import is implied and its statement
is there already. -/
def isPlaced (t : Text) (matched : Option Text) (statement : Text) : Bool :=
  matched.isSome || !Text.contains statement t

/-- A statement that is placed stands in the text that results. -/
theorem infix_placeImport {t statement : Text} {matched : Option Text}
    (h : isPlaced t matched statement = true) : statement <:+: placeImport t matched statement := by
  have first : statement <:+: statement ++ '\n' :: t := (List.prefix_append _ _).isInfix
  unfold placeImport
  split
  · split
    · rename_i there
      simp [isPlaced, there] at h
    · exact first
  · split
    · exact first
    · exact List.infix_append _ _ _

/-- A statement that is not placed changes nothing. -/
theorem placeImport_eq_self {t statement : Text} {matched : Option Text}
    (h : isPlaced t matched statement = false) : placeImport t matched statement = t := by
  cases matched with
  | none =>
    have there : Text.contains statement t = true := by simpa [isPlaced] using h
    simp only [placeImport, there, if_true]
  | some header => cases h

/-- The import of a namespace under a local name is placed, when the references to the namespace
have been recast. -/
def isPlacedAs (ctx : FileContext) (s : Importing) (r : Require) (target : Path)
    (localName : Text) : Bool :=
  isPlaced (Qualified.replaceReferences s.text r.name localName) r.matched
    (ctx.importStatement r.name localName (importSpecifier ctx.path target))

/-- The names that are bound by the import from the file `target`. -/
def boundByImport (ctx : FileContext) (s : Importing) (r : Require) (target : Path) :
    List ImportedName :=
  match r.binding with
  | .members entries =>
    if isPlaced s.text r.matched (importMembers entries (importSpecifier ctx.path target)) then
      entries.map fun e => ⟨e.internal, false⟩
    else []
  | .alias localName => if isPlacedAs ctx s r target localName then [⟨localName, false⟩] else []
  | .plain =>
    match aliasFor ctx s r with
    | .ok localName => if isPlacedAs ctx s r target localName then [⟨localName, true⟩] else []
    | .error _ => []

/-- The names that are bound by the import that a require becomes. -/
def boundByRequire (ctx : FileContext) (s : Importing) (r : Require) : List ImportedName :=
  match ctx.graph.providerOf? r.name with
  | none => []
  | some target => if isRedundant ctx s r target then [] else boundByImport ctx s r target

/-- The names that are bound by the imports of a file with converted declarations. -/
def importedNames (ctx : FileContext) (c : Converted) : List ImportedName :=
  trace (replaceRequire ctx) (boundByRequire ctx) ⟨c.text, c.internals, []⟩
    (longestFirst Require.name (ctx.withSiblings c.text))

/-! ## One import -/

/-- What a step of the imports binds, and what it does to the names in use. -/
inductive ImportStep (s s' : Importing) (r : Require) (bound : List ImportedName) : Prop
  | nothing (bound : bound = []) (used : s'.used = s.used)
  | given (bound : bound.Sublist ((givenNames r).map (⟨·, false⟩)))
      (used : s'.used = s.used ++ givenNames r)
  | searched (a : Text) (fresh : a ∉ s.used) (bound : bound.Sublist [⟨a, true⟩])
      (used : s'.used = s.used ++ [a])

theorem cases_addImport (h : addImport ctx s r target = .ok s') :
    ImportStep s s' r (boundByImport ctx s r target) := by
  unfold addImport at h
  unfold boundByImport
  cases hb : r.binding with
  | members entries =>
    simp only [hb] at h
    obtain rfl := Except.ok.inj h
    have names : givenNames r = entries.map ExportEntry.internal := by simp only [givenNames, hb]
    refine .given ((ite_nil_sublist _ _).trans ?_) (by rw [names])
    rw [names, List.map_map]
    exact List.Sublist.refl _
  | «alias» localName =>
    simp only [hb, aliasFor] at h
    obtain rfl := Except.ok.inj h
    have names : givenNames r = [localName] := by simp only [givenNames, hb]
    refine .given ?_ (by rw [names])
    rw [names]
    exact ite_nil_sublist _ _
  | plain =>
    simp only [hb] at h
    obtain ⟨a, found, h⟩ := bind_eq_ok h
    obtain rfl := Except.ok.inj h
    simp only [found]
    refine .searched a (fun used => ?_) (ite_nil_sublist _ _) rfl
    simp only [aliasFor, hb] at found
    exact (Alias.free_of_allocate found).1 (List.mem_append_left _ used)

/-- **A step of the imports** binds nothing, or the names that the require gives, or an alias that
is not in use; and what it binds is in use from then on. -/
theorem cases_replaceRequire (h : replaceRequire ctx s r = .ok s') :
    ImportStep s s' r (boundByRequire ctx s r) := by
  cases replacement_of_replaceRequire h with
  | passed unowned same => exact .nothing (by simp [boundByRequire, unowned]) (same ▸ rfl)
  | redundant owner redundant _ same =>
    exact .nothing (by simp [boundByRequire, owner, redundant]) (same ▸ rfl)
  | deleted owner redundant _ removed =>
    exact .nothing (by simp [boundByRequire, owner, redundant]) (removed ▸ rfl)
  | imported owner needed added =>
    simp only [boundByRequire, owner, needed]
    exact cases_addImport added

namespace ImportStep

variable {bound : List ImportedName} {b : ImportedName} {x : Text}

theorem mem_used (h : ImportStep s s' r bound) (hx : x ∈ s.used) : x ∈ s'.used := by
  cases h with
  | nothing _ used => exact used ▸ hx
  | given _ used => exact used ▸ List.mem_append_left _ hx
  | searched _ _ _ used => exact used ▸ List.mem_append_left _ hx

/-- What a step binds is in use after it. -/
theorem mem_used_of_bound (h : ImportStep s s' r bound) (hb : b ∈ bound) : b.name ∈ s'.used := by
  cases h with
  | nothing none _ => exact absurd (none ▸ hb) List.not_mem_nil
  | given sub used =>
    obtain ⟨x, hx, rfl⟩ := List.mem_map.1 (sub.subset hb)
    exact used ▸ List.mem_append_right _ hx
  | searched a _ sub used =>
    obtain rfl := List.mem_singleton.1 (sub.subset hb)
    exact used ▸ List.mem_append_right _ (List.mem_singleton_self a)

/-- An alias that a step has searched for was not in use before it. -/
theorem not_mem_used (h : ImportStep s s' r bound) (hb : b ∈ bound) (searched : b.searched = true) :
    b.name ∉ s.used := by
  cases h with
  | nothing none _ => exact absurd (none ▸ hb) List.not_mem_nil
  | given sub _ =>
    obtain ⟨x, -, rfl⟩ := List.mem_map.1 (sub.subset hb)
    cases searched
  | searched a fresh sub _ =>
    obtain rfl := List.mem_singleton.1 (sub.subset hb)
    exact fresh

theorem pairwise (h : ImportStep s s' r bound) :
    bound.Pairwise fun b b' => b'.searched = true → b.name ≠ b'.name := by
  cases h with
  | nothing none _ => exact none ▸ List.Pairwise.nil
  | given sub _ =>
    refine List.Pairwise.sublist sub (List.pairwise_map.2 (List.pairwise_of_forall fun _ _ => ?_))
    exact fun searched => nomatch searched
  | searched a _ sub _ => exact List.Pairwise.sublist sub (List.pairwise_singleton _ _)

/-- The names that a step binds and that have not been searched for are given by the require. -/
theorem given_sublist (h : ImportStep s s' r bound) :
    (bound.filterMap fun b => if b.searched then none else some b.name).Sublist
      (givenNames r) := by
  cases h with
  | nothing none _ => exact none ▸ List.nil_sublist _
  | given sub _ =>
    have given := sub.filterMap fun b => if b.searched then none else some b.name
    rw [List.filterMap_map] at given
    exact given.trans (List.filterMap_some.symm ▸ List.Sublist.refl _)
  | searched a _ sub _ => exact (sub.filterMap _).trans (List.nil_sublist _)

end ImportStep

/-! ## All imports -/

/-- **An alias that has been searched for** is different from the names that the file exports, and
from everything that the imports before it bind. -/
theorem pairwise_importedNames (ctx : FileContext) (c : Converted) :
    (importedNames ctx c).Pairwise (fun b b' => b'.searched = true → b.name ≠ b'.name) ∧
      ∀ b ∈ importedNames ctx c, b.searched = true → b.name ∉ c.internals := by
  -- The state knows the names in use: they grow, and an alias is searched for outside of them.
  obtain ⟨pairwise, fromState⟩ := pairwise_trace (boundByRequire ctx)
    (Q := fun s b => b.name ∈ s.used) (R := fun b b' => b'.searched = true → b.name ≠ b'.name)
    (fun _ _ _ h _ hb => (cases_replaceRequire h).mem_used hb)
    (fun _ _ _ h _ hb => (cases_replaceRequire h).mem_used_of_bound hb)
    (fun _ _ _ h _ hb _ hb' searched same =>
      (cases_replaceRequire h).not_mem_used hb' searched (same ▸ hb))
    (fun _ _ _ h => (cases_replaceRequire h).pairwise) ⟨c.text, c.internals, []⟩
    (longestFirst Require.name (ctx.withSiblings c.text))
  exact ⟨pairwise, fun b hb searched listed => fromState b listed b hb searched rfl⟩

theorem flatMap_givenNames_implied (names : List Text) :
    (names.map Require.implied).flatMap givenNames = [] := by
  induction names with
  | nil => rfl
  | cons _ _ ih => exact ih

/-- The names that requires give are different, if the file gives different ones. -/
theorem pairwise_given {c : Converted}
    (given : ((ctx.graph.requiresOf ctx.path).flatMap givenNames).Nodup) :
    (importedNames ctx c).Pairwise fun b b' =>
      b.searched = false → b'.searched = false → b.name ≠ b'.name := by
  have sub := filterMap_trace_sublist (replaceRequire ctx) (boundByRequire ctx)
    (fun _ _ _ h => (cases_replaceRequire h).given_sublist) ⟨c.text, c.internals, []⟩
    (longestFirst Require.name (ctx.withSiblings c.text))
  have all : ((ctx.withSiblings c.text).flatMap givenNames).Nodup := by
    rwa [FileContext.withSiblings, List.flatMap_append, flatMap_givenNames_implied,
      List.append_nil]
  have nodup := sub.nodup (((sortBy_perm _ _).flatMap_right givenNames).nodup_iff.2 all)
  refine (List.pairwise_filterMap.1 nodup).imp fun h first later => ?_
  exact h _ (by rw [first]; rfl) _ (by rw [later]; rfl)

/-! ## All local names -/

section

variable {t out : Text}

/-- The names that the declarations of a file are going to bind. -/
def FileContext.declaredNames (ctx : FileContext) (t : Text) : List DeclaredName :=
  Recast.declaredNames ctx.settings.root ctx.settings.reservedNames t
    (ctx.graph.providesOf ctx.path)

/-- The local names of a file whose declarations have been converted. -/
def localNames (ctx : FileContext) (t : Text) (c : Converted) : List Text :=
  (ctx.declaredNames t).map DeclaredName.name ++ (importedNames ctx c).map ImportedName.name

/-- **When local names are distinct.** A file, no module, is converted, and the names that its own
requires give are distinct. Then all local names that the conversion binds are distinct if and
only if
* the names that the file declares are,
* no import binds a declared name; an alias that has been searched for cannot do so, unless the
  name is not exported,
* and no import gives a name that an import before it has got as its alias. -/
theorem nodup_localNames_iff
    (plain : ∀ d ∈ ctx.graph.providesOf ctx.path, d.isModule = false)
    (given : ((ctx.graph.requiresOf ctx.path).flatMap givenNames).Nodup)
    (converted : convertFile ctx t = .ok (some out)) :
    ∃ c, convertDeclarations ctx t = .ok (some c) ∧
      ((localNames ctx t c).Nodup ↔
        ((ctx.declaredNames t).map DeclaredName.name).Nodup ∧
          (∀ d ∈ ctx.declaredNames t, ∀ b ∈ importedNames ctx c,
            (b.searched = true → d.exported = false) → d.name ≠ b.name) ∧
          (importedNames ctx c).Pairwise fun b b' =>
            b.searched = true → b'.searched = false → b.name ≠ b'.name) := by
  obtain ⟨found, declarations, rest⟩ := bind_eq_ok converted
  cases found with
  | none => cases Except.ok.inj rest
  | some c =>
    refine ⟨c, declarations, ?_⟩
    have provided := convertProvided_of_convertDeclarations plain declarations
    obtain ⟨aliases, fresh⟩ := pairwise_importedNames ctx c
    constructor
    · intro nodup
      obtain ⟨own, imports, apart⟩ := List.nodup_append.1 nodup
      refine ⟨own, fun d hd b hb _ => ?_, ?_⟩
      · exact apart _ (List.mem_map_of_mem hd) _ (List.mem_map_of_mem hb)
      · exact (List.pairwise_map.1 imports).imp fun h _ _ => h
    · rintro ⟨own, apart, later⟩
      refine List.nodup_append.2 ⟨own, List.pairwise_map.2 ?_, fun x hx y hy => ?_⟩
      · refine (aliases.and (later.and (pairwise_given given))).imp fun {b b'} h => ?_
        cases hb' : b'.searched with
        | true => exact h.1 hb'
        | false =>
          cases hb : b.searched with
          | true => exact h.2.1 hb hb'
          | false => exact h.2.2 hb hb'
      · obtain ⟨d, hd, rfl⟩ := List.mem_map.1 hx
        obtain ⟨b, hb, rfl⟩ := List.mem_map.1 hy
        cases exported : d.exported with
        | false => exact apart d hd b hb fun _ => exported
        | true =>
          cases searched : b.searched with
          | false => exact apart d hd b hb fun h => nomatch searched.symm.trans h
          | true =>
            intro same
            exact fresh b hb searched (same ▸ lists_of_mem_declaredNames provided hd exported)

end

/-! ## A tree of three files -/

/-- A file that requires two namespaces: one under an alias that is to be found, and after it, the
name being shorter, one for its member `Foo`. -/
def usingText : Text :=
  "goog.provide('p.P');\n\ngoog.require('x.yy.Foo');\n" ++
    "const \x7bFoo\x7d = goog.require('z.F');\n\np.P = [x.yy.Foo, Foo];\n"

/-- The file that provides the former. -/
def valueText : Text :=
  "goog.provide('x.yy.Foo');\n\ngoog.require('z.F');\n\nx.yy.Foo = z.F.Foo;\n"

/-- The module that provides the latter. -/
def moduleText : Text := "goog.module('z.F');\nexports.Foo = 1;\n"

def usingPath : Path := ⟨.here, ["a.js"]⟩

def valuePath : Path := ⟨.here, ["b.js"]⟩

def modulePath : Path := ⟨.here, ["c.js"]⟩

def threeFiles : List (Path × Text) :=
  [(usingPath, usingText), (valuePath, valueText), (modulePath, moduleText)]

/-- What the three files declare. -/
def threeFilesGraph : DependencyGraph where
  owners := [("p.P", usingPath), ("x.yy.Foo", valuePath), ("z.F", modulePath)]
  provided :=
    [(usingPath, [⟨"p.P", false, [], some ("goog.provide('p.P');" : Text), some .value, none⟩]),
     (valuePath,
      [⟨"x.yy.Foo", false, [], some ("goog.provide('x.yy.Foo');" : Text), some .value, none⟩]),
     (modulePath,
      [⟨"z.F", true, [⟨⟨"Foo", "Foo"⟩, true, "exports.Foo ="⟩],
        some ("goog.module('z.F');" : Text), none, none⟩])]
  required :=
    [(usingPath,
      [⟨"x.yy.Foo", .explicit, .plain, some ("goog.require('x.yy.Foo');" : Text)⟩,
       ⟨"z.F", .explicit, .members [⟨"Foo", "Foo"⟩],
        some ("const \x7bFoo\x7d = goog.require('z.F');" : Text)⟩]),
     (valuePath, [⟨"z.F", .explicit, .plain, some ("goog.require('z.F');" : Text)⟩]),
     (modulePath, [])]

/-- The first file with its declarations converted. -/
def usingConverted : Converted :=
  ⟨"goog.require('x.yy.Foo');\nconst \x7bFoo\x7d = goog.require('z.F');\n\n" ++
    ("let P = [x.yy.Foo, Foo];\n\nexport \x7bP\x7d;\n" : Text), [⟨"P", "P"⟩]⟩

/-- The theorem for the second file, which imports the module under an alias. -/
theorem nodup_localNames_iff_searched :
    ∃ c, convertDeclarations ⟨threeFilesGraph, {}, valuePath⟩ valueText = .ok (some c) ∧
      ((localNames ⟨threeFilesGraph, {}, valuePath⟩ valueText c).Nodup ↔
        ((FileContext.declaredNames ⟨threeFilesGraph, {}, valuePath⟩ valueText).map
            DeclaredName.name).Nodup ∧
          (∀ d ∈ FileContext.declaredNames ⟨threeFilesGraph, {}, valuePath⟩ valueText,
            ∀ b ∈ importedNames ⟨threeFilesGraph, {}, valuePath⟩ c,
              (b.searched = true → d.exported = false) → d.name ≠ b.name) ∧
          (importedNames ⟨threeFilesGraph, {}, valuePath⟩ c).Pairwise fun b b' =>
            b.searched = true → b'.searched = false → b.name ≠ b'.name) :=
  have converted : convertFile ⟨threeFilesGraph, {}, valuePath⟩ valueText =
      .ok (some ("import * as F from './c.js';\n\n" ++
        ("let Foo = F.Foo;\n\nexport \x7bFoo\x7d;\n" : Text))) := by rfl
  nodup_localNames_iff (by decide) (by decide) converted

set_option maxRecDepth 8000 in
/-- **Imports can clash.** The first file is converted; it imports `x.yy.Foo` under the alias `Foo`
and after that the member `Foo` of the module under its own name. -/
theorem import_clashes_with_import :
    twoFilesRule.addTexts .empty threeFiles = (threeFilesGraph, none) ∧
      (∀ d ∈ threeFilesGraph.providesOf usingPath, d.isModule = false) ∧
      ((threeFilesGraph.requiresOf usingPath).flatMap givenNames).Nodup ∧
      convertDeclarations ⟨threeFilesGraph, {}, usingPath⟩ usingText =
        .ok (some usingConverted) ∧
      convertFile ⟨threeFilesGraph, {}, usingPath⟩ usingText =
        .ok (some (namedImport "Foo" "Foo" "./b.js" ++ '\n' :: namedImport "Foo" "Foo" "./c.js" ++
          "\n\nlet P = [Foo, Foo];\n\nexport \x7bP\x7d;\n")) ∧
      localNames ⟨threeFilesGraph, {}, usingPath⟩ usingText usingConverted =
        ["P", "Foo", "Foo"] ∧
      ¬ (localNames ⟨threeFilesGraph, {}, usingPath⟩ usingText usingConverted).Nodup := by
  have names : localNames ⟨threeFilesGraph, {}, usingPath⟩ usingText usingConverted =
      ["P", "Foo", "Foo"] := by rfl
  refine ⟨by rfl, by decide, by decide, by rfl, by rfl, names, ?_⟩
  rw [names]
  decide

end Modulize.Recast
