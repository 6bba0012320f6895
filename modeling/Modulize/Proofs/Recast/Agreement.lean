import Modulize.Proofs.Project.Indexed
import Modulize.Proofs.Recast.Turns
import Modulize.Recast.File

/-!
# Importers and exporters

A file that requires a namespace imports its name, when the reader has found a value under it. The
file that provides the namespace decides again, on its turn, whether it is a value, and exports the
name only if it is public. `mem_exports_iff_of_namedImport` says when the two agree. They can differ
(`namedImport_not_exported`): a namespace whose name ends with an underscore is imported by name,
and not exported.
-/

namespace Modulize.Recast

/-! ## Imports by name -/

/-- The statement that imports one name of a file. -/
def namedImport (name localName specifier : Text) : Text :=
  if name = localName then "import \x7b" ++ localName ++ "\x7d" ++ (" from '" ++ specifier ++ "';")
  else "import \x7b" ++ name ++ " as " ++ localName ++ "\x7d" ++ (" from '" ++ specifier ++ "';")

namespace FileContext

variable {ctx : FileContext} {name exported localName specifier : Text}

theorem namedImport_inj {other : Text}
    (h : namedImport exported localName specifier = namedImport other localName specifier) :
    exported = other := by
  unfold namedImport at h
  split at h <;> split at h
  · rename_i same same'
    exact same.trans same'.symm
  · have := congrArg List.length h
    simp at this
    omega
  · have := congrArg List.length h
    simp at this
    omega
  · exact List.append_cancel_left (List.append_cancel_right (List.append_cancel_right
      (List.append_cancel_right (List.append_cancel_right h))))

/-- The statement for a namespace imports a name exactly if the namespace is exported under it. -/
theorem importStatement_eq_namedImport_iff :
    ctx.importStatement name localName specifier = namedImport exported localName specifier ↔
      ctx.importedName? name = some exported := by
  unfold importStatement
  cases found : ctx.importedName? name with
  | none =>
    refine ⟨fun h => ?_, fun h => nomatch h⟩
    have brace : ((namedImport exported localName specifier).drop 7).head? = some '{' := by
      unfold namedImport
      split <;> rfl
    rw [← h] at brace
    cases brace
  | some other =>
    change namedImport other localName specifier = _ ↔ _
    constructor
    · intro h
      rw [namedImport_inj h]
    · intro h
      rw [Option.some.inj h]

/-- A file that is no module is imported by name exactly for the values that it provides. -/
theorem importedName?_eq_some_iff {d : Provide} (hd : ctx.graph.provide? name = some d)
    (plain : d.isModule = false) : ctx.importedName? name = some exported ↔
      d.shape = some .value ∧ exported = Qualified.lastSegment name := by
  simp only [importedName?, hd, plain, Bool.false_eq_true, if_false]
  split
  · rename_i value
    simp [value, eq_comm]
  · rename_i other
    simp [other]

end FileContext

/-! ## Agreement -/

/-- The file binds the name for another namespace than `ns`, or for a member of `ns`. -/
def BoundElsewhere (root : Text) (reserved : List Text) (t : Text) (provides : List Provide)
    (ns name : Text) : Prop :=
  ∃ d c, Turn root reserved t provides d c ∧ Binds reserved d.name c name ∧
    (d.name = ns → Declaration.shapeOf c.text ns = .object)

theorem convertProvided_of_convertDeclarations {ctx : FileContext} {t : Text} {c : Converted}
    (plain : ∀ d ∈ ctx.graph.providesOf ctx.path, d.isModule = false)
    (h : convertDeclarations ctx t = .ok (some c)) :
    convertProvided ctx.settings.root ctx.settings.reservedNames t
      (ctx.graph.providesOf ctx.path) = .ok c := by
  have none : (ctx.graph.providesOf ctx.path).find? (·.isModule) = none :=
    List.find?_eq_none.2 fun d hd => by simp [plain d hd]
  simp only [convertDeclarations, none] at h
  cases hc : convertProvided ctx.settings.root ctx.settings.reservedNames t
      (ctx.graph.providesOf ctx.path) with
  | error f =>
    rw [hc] at h
    cases h
  | ok c' =>
    rw [hc] at h
    obtain rfl := Option.some.inj (Except.ok.inj h)
    rfl

section

variable {rule : ReadRule} {files : List (Path × Text)} {g : DependencyGraph}
  {settings : RecastSettings} {p q : Path} {t ns name localName specifier : Text} {c : Converted}

/-- **When importers and exporters agree.** Distinct files are registered in a graph; one of them,
no module, owns the namespace `ns` and is converted; a statement imports `ns` from it as `name`.
Then the converted file exports `name` if and only if it is the name of a define, or it is public
and
* either `ns` has the same shape on its turn, among the namespaces of the file, as in the text that
  has been read,
* or the file binds `name` for another reason. -/
theorem mem_exports_iff_of_namedImport (distinct : (files.map Prod.fst).Nodup)
    (indexed : rule.addTexts .empty files = (g, none)) (file : (p, t) ∈ files)
    (owner : g.providerOf? ns = some p) (plain : ∀ d ∈ g.providesOf p, d.isModule = false)
    (converted : convertDeclarations ⟨g, settings, p⟩ t = .ok (some c))
    (imported : FileContext.importStatement ⟨g, settings, q⟩ ns localName specifier =
      namedImport name localName specifier) :
    (∃ body, c.text = appendExports body c.entries) ∧
      ∃ d ∈ g.providesOf p, d.name = ns ∧
        ∃ c₁, Turn settings.root settings.reservedNames t (g.providesOf p) d c₁ ∧
          (name ∈ c.exports ↔ name ∈ (bindDefines settings.root t).exports ∨
            isPublic name = true ∧
              (Declaration.shapeOf c₁.text ns = Declaration.shapeOf t ns ∨
                BoundElsewhere settings.root settings.reservedNames t (g.providesOf p) ns
                  name)) := by
  have declares := ReadRule.declares_addTexts distinct indexed
  obtain ⟨d, t', unclear, hd, hmem, rfl, file', provides, nodup⟩ := declares.exists_provide owner
  have same : t' = t := by
    rcases pairwise_cases (List.pairwise_map.1 distinct) file file' with eq | other | other
    · exact (Prod.mk.inj eq).2.symm
    · exact absurd rfl other
    · exact absurd rfl other
  subst same
  obtain ⟨value, rfl⟩ := (FileContext.importedName?_eq_some_iff hd (plain d hmem)).1
    (FileContext.importStatement_eq_namedImport_iff.1 imported)
  have shape : Declaration.shapeOf t' d.name = .value :=
    (ReadRule.shape_of_mem_providesOf provides hmem value).symm
  have done := convertProvided_of_convertDeclarations plain converted
  obtain ⟨c₁, turn⟩ := exists_turn done hmem
  refine ⟨text_convertProvided done, d, hmem, rfl, c₁, turn, ?_⟩
  rw [mem_exports_convertProvided done, shape]
  constructor
  · rintro (hx | ⟨isPub, d', c₂, turn', binds⟩)
    · exact Or.inl hx
    · refine Or.inr ⟨isPub, ?_⟩
      cases own : Declaration.shapeOf c₁.text d.name with
      | value => exact Or.inl rfl
      | object =>
        refine Or.inr ⟨d', c₂, turn', binds, fun hname => ?_⟩
        obtain rfl := Turn.unique nodup turn' turn hname
        exact own
  · rintro (hx | ⟨isPub, own | ⟨d', c₂, turn', binds, -⟩⟩)
    · exact Or.inl hx
    · exact Or.inr ⟨isPub, d, c₁, turn, .value own⟩
    · exact Or.inr ⟨isPub, d', c₂, turn', binds⟩

end

/-! ## A tree of two files -/

/-- A file that provides two values, the name of one of them ending with an underscore. -/
def exporterText : Text :=
  "goog.provide('a.b_');\ngoog.provide('a.C');\n\na.b_ = 1;\na.C = 2;\n"

/-- A file that requires the former. -/
def importerText : Text := "goog.provide('q.Q');\n\ngoog.require('a.b_');\n\nq.Q = a.b_;\n"

def exporterPath : Path := ⟨.here, ["p.js"]⟩

def importerPath : Path := ⟨.here, ["q.js"]⟩

def twoFiles : List (Path × Text) := [(exporterPath, exporterText), (importerPath, importerText)]

def twoFilesRule : ReadRule := ⟨{}, "goog", false⟩

/-- What the two files declare. -/
def twoFilesGraph : DependencyGraph where
  owners := [("a.b_", exporterPath), ("a.C", exporterPath), ("q.Q", importerPath)]
  provided :=
    [(exporterPath,
      [⟨"a.b_", false, [], some ("goog.provide('a.b_');" : Text), some .value, none⟩,
       ⟨"a.C", false, [], some ("goog.provide('a.C');" : Text), some .value, none⟩]),
     (importerPath, [⟨"q.Q", false, [], some ("goog.provide('q.Q');" : Text), some .value, none⟩])]
  required :=
    [(exporterPath, []),
     (importerPath, [⟨"a.b_", .explicit, .plain, some ("goog.require('a.b_');" : Text)⟩])]

/-- The first file with its declarations converted. -/
def exporterConverted : Converted :=
  ⟨"let b_ = 1;\nlet C = 2;\n\nexport \x7bC\x7d;\n", [⟨"C", "C"⟩]⟩

theorem addTexts_twoFiles :
    twoFilesRule.addTexts .empty twoFiles = (twoFilesGraph, none) := by rfl

theorem convertDeclarations_exporter :
    convertDeclarations ⟨twoFilesGraph, {}, exporterPath⟩ exporterText =
      .ok (some exporterConverted) := by rfl

/-- The theorem for the namespace of the first file that is public. -/
theorem mem_exports_iff_of_namedImport_public :
    (∃ body, exporterConverted.text = appendExports body exporterConverted.entries) ∧
      ∃ d ∈ twoFilesGraph.providesOf exporterPath, d.name = "a.C" ∧
        ∃ c₁, Turn "goog" ({} : RecastSettings).reservedNames exporterText
            (twoFilesGraph.providesOf exporterPath) d c₁ ∧
          ("C".toList ∈ exporterConverted.exports ↔
            "C".toList ∈ (bindDefines "goog" exporterText).exports ∨
              isPublic "C" = true ∧
                (Declaration.shapeOf c₁.text "a.C" = Declaration.shapeOf exporterText "a.C" ∨
                  BoundElsewhere "goog" ({} : RecastSettings).reservedNames exporterText
                    (twoFilesGraph.providesOf exporterPath) "a.C" "C")) :=
  have imported : FileContext.importStatement ⟨twoFilesGraph, {}, importerPath⟩ "a.C" "D" "./p.js" =
      namedImport "C" "D" "./p.js" := by rfl
  mem_exports_iff_of_namedImport (by decide) addTexts_twoFiles (.head _) (by decide) (by decide)
    convertDeclarations_exporter imported

/-- **Importers and exporters can disagree.** Both files are converted; the second one imports the
name `b_` from the first one, which does not export it. -/
theorem namedImport_not_exported :
    twoFilesRule.addTexts .empty twoFiles = (twoFilesGraph, none) ∧
      twoFilesGraph.providerOf? "a.b_" = some exporterPath ∧
      (∀ d ∈ twoFilesGraph.providesOf exporterPath, d.isModule = false) ∧
      convertDeclarations ⟨twoFilesGraph, {}, exporterPath⟩ exporterText =
        .ok (some exporterConverted) ∧
      convertFile ⟨twoFilesGraph, {}, exporterPath⟩ exporterText =
        .ok (some exporterConverted.text) ∧
      convertFile ⟨twoFilesGraph, {}, importerPath⟩ importerText =
        .ok (some (namedImport "b_" "b_" "./p.js" ++
          "\n\nlet Q = b_;\n\nexport \x7bQ\x7d;\n")) ∧
      "b_".toList ∉ exporterConverted.exports :=
  ⟨addTexts_twoFiles, by decide, by decide, convertDeclarations_exporter, by rfl, by rfl,
    by decide⟩

end Modulize.Recast
