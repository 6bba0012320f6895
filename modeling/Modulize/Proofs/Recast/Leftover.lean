import Modulize.Proofs.Recast.Importing
import Modulize.Proofs.Recast.Naming

/-!
# What is left of the declarations

The headers of a file that provides namespaces go one after another: on the turns of its namespaces,
and when its requires are replaced. None is left if the headers stand on lines of their own and
nothing else in the file looks like one (`occursIn_headers_of_convertFile`).

The assignment to `exports` in a module can stay behind (`wholeExport_left`): references to members
are recast in it before it is looked for.
-/

namespace Modulize.Recast

open Pattern Qualified Declaration

/-! ## Files that provide namespaces -/

/-- The headers of a file as they have been read. -/
def FileContext.headers (ctx : FileContext) : List Text :=
  (ctx.graph.providesOf ctx.path).filterMap Provide.matched ++
    (ctx.graph.requiresOf ctx.path).filterMap Require.matched

section

variable {ctx : FileContext} {hs : List Text} {t out : Text} {c : Converted}

/-- **No header is left** of a file, no module, that is converted, if
* its headers stand on lines of their own, none being a part of another, and the text between them
  calls neither a define nor anything that is named like a header;
* no header mentions a namespace that the file provides, except in quotes;
* all requires with headers are provided;
* and what is written for the requires does not look like a call, nor does a header mention what it
  is written for. -/
theorem occursIn_headers_of_convertFile (hroot : IsNamespace ctx.settings.root)
    (plain : ∀ d ∈ ctx.graph.providesOf ctx.path, d.isModule = false)
    (laid : Laid ctx.settings.root hs t) (apart : Apart hs) (recorded : hs.Perm ctx.headers)
    (provided : ∀ d ∈ ctx.graph.providesOf ctx.path, IsNamespace d.name ∧ Unmentioned d.name hs)
    (resolved : ∀ r ∈ ctx.graph.requiresOf ctx.path,
      r.matched.isSome → (ctx.graph.providerOf? r.name).isSome)
    (declared : convertDeclarations ctx t = .ok (some c))
    (written : ∀ w ∈ writtenImports ctx c, w.Keeps hs)
    (converted : convertFile ctx t = .ok (some out)) :
    (provideHeader ctx.settings.root).occursIn out = false ∧
      (requireHeader ctx.settings.root).occursIn out = false := by
  obtain ⟨found, declared', finished⟩ := bind_eq_ok converted
  obtain rfl := Except.ok.inj (declared'.symm.trans declared)
  simp only at finished
  cases run : finishFile ctx c with
  | error f =>
    rw [run] at finished
    cases finished
  | ok out' =>
    rw [run] at finished
    obtain rfl := Option.some.inj (Except.ok.inj finished)
    obtain ⟨hs', left, laid'⟩ := laid.convertProvided hroot apart provided recorded
      (convertProvided_of_convertDeclarations plain declared)
    have apart' : Apart hs' :=
      Apart.perm (List.pairwise_append.1 (apart.perm recorded)).2.1 left.symm
    have sub : hs' ⊆ hs := fun h hh =>
      recorded.mem_iff.2 (List.mem_append_right _ (left.mem_iff.1 hh))
    have silent := silent_finishFile hroot laid' apart' left resolved
      (fun w hw => (written w hw).subset sub) run
    exact ⟨occursIn_provideHeader _ silent, occursIn_requireHeader _ silent⟩

end

/-- The headers of a file with one namespace and one require. -/
def valueHeaders : List Text :=
  [callLine "goog" "provide" "x.yy.Foo", callLine "goog" "require" "z.F"]

/-- What follows them. -/
def valueCode : Text := "\n\nx.yy.Foo = z.F.Foo;\n"

/-- The file with its declarations converted. -/
def valueConverted : Converted :=
  ⟨"goog.require('z.F');\n\nlet Foo = z.F.Foo;\n\nexport \x7bFoo\x7d;\n", [⟨"Foo", "Foo"⟩]⟩

/-- The file when all of it is converted. -/
def valueOutput : Text :=
  "import * as F from './c.js';\n\nlet Foo = F.Foo;\n\nexport \x7bFoo\x7d;\n"

theorem laid_valueText : Laid "goog" valueHeaders valueText := by
  have provide : IsHeaderLine "goog" (callLine "goog" "provide" "x.yy.Foo") :=
    isHeaderLine_usual (by decide) (by decide) (by decide) (by decide)
  have require : IsHeaderLine "goog" (callLine "goog" "require" "z.F") :=
    isHeaderLine_usual (by decide) (by decide) (by decide) (by decide)
  have code : Laid "goog" [] valueCode := .code (by decide)
  have behind : Laid "goog" [callLine "goog" "require" "z.F"]
      (("\n\n" : Text) ++ (callLine "goog" "require" "z.F" ++ valueCode)) :=
    .header (by decide) (by decide) require (by decide) code
  have text : valueText = [] ++ (callLine "goog" "provide" "x.yy.Foo" ++
      (("\n\n" : Text) ++ (callLine "goog" "require" "z.F" ++ valueCode))) := by decide
  rw [valueHeaders, text]
  exact .header (by decide) (by decide) provide (by decide) behind

theorem apart_valueHeaders : Apart valueHeaders := by decide +kernel

/-- The theorem for this file. -/
theorem occursIn_headers_of_convertFile_value :
    convertFile ⟨threeFilesGraph, {}, valuePath⟩ valueText = .ok (some valueOutput) ∧
      (provideHeader "goog").occursIn valueOutput = false ∧
      (requireHeader "goog").occursIn valueOutput = false := by
  have declared : convertDeclarations ⟨threeFilesGraph, {}, valuePath⟩ valueText =
      .ok (some valueConverted) := by rfl
  have converted : convertFile ⟨threeFilesGraph, {}, valuePath⟩ valueText =
      .ok (some valueOutput) := by rfl
  have recorded : valueHeaders.Perm (FileContext.headers ⟨threeFilesGraph, {}, valuePath⟩) :=
    .of_eq (by decide)
  have provided : ∀ d ∈ threeFilesGraph.providesOf valuePath,
      IsNamespace d.name ∧ Unmentioned d.name valueHeaders := by decide
  have imports : writtenImports ⟨threeFilesGraph, {}, valuePath⟩ valueConverted =
      [⟨"z.F", some ("F" : Text), "import * as F from './c.js';"⟩] := by rfl
  have written : ∀ w ∈ writtenImports ⟨threeFilesGraph, {}, valuePath⟩ valueConverted,
      w.Keeps valueHeaders := by
    rw [imports]
    decide
  exact ⟨converted, @occursIn_headers_of_convertFile ⟨threeFilesGraph, {}, valuePath⟩ valueHeaders
    valueText valueOutput valueConverted (by decide) (by decide) laid_valueText apart_valueHeaders
    recorded provided (by decide) declared written converted⟩

/-! ## Modules -/

/-- A module whose list of exports mentions one of them in a comment. -/
def listingText : Text :=
  "goog.module('m');\nconst a = 1;\nexports = \x7b\n  // like exports.b\n  a,\n\x7d;\n"

def listingPath : Path := ⟨.here, ["m.js"]⟩

/-- What the module declares. -/
def listingGraph : DependencyGraph where
  owners := [("m", listingPath)]
  provided :=
    [(listingPath,
      [⟨"m", true, [⟨⟨"a", "a"⟩, false, "exports = \x7b\n  // like exports.b\n  a,\n\x7d;"⟩],
        some ("goog.module('m');" : Text), none, none⟩])]
  required := [(listingPath, [])]

set_option maxRecDepth 8000 in
/-- **A list of exports can stay behind.** The module assigns to `exports` once, and all that it
requires is provided; the assignment is still there when the module has been converted. -/
theorem wholeExport_left :
    twoFilesRule.addTexts .empty [(listingPath, listingText)] = (listingGraph, none) ∧
      listingGraph.unresolved = [] ∧
      (Declaration.wholeExport.allMatches listingText).length = 1 ∧
      convertFile ⟨listingGraph, {}, listingPath⟩ listingText =
        .ok (some ("const a = 1;\nexports = \x7b\n  // like b\n  a,\n\x7d;\n\nexport \x7ba\x7d;\n" :
          Text)) ∧
      Declaration.wholeExport.occursIn
        ("const a = 1;\nexports = \x7b\n  // like b\n  a,\n\x7d;\n\nexport \x7ba\x7d;\n" : Text) =
          true :=
  ⟨by rfl, by rfl, by rfl, by rfl, by rfl⟩

end Modulize.Recast
