import ServerActions.Proofs.ActionsModule.Scanning
import ServerActions.Proofs.Generation.Rendering
import ServerActions.Proofs.Path.Places

namespace ServerActions

open ServerActions.Path

namespace ActionsModule

def outputName (settings : Settings) (declaration : Path) : String :=
  settings.outputStem ++ "." ++ declaration.extension?.getD settings.extension

structure Nested (settings : Settings) (declaration : Path) (directories : List String) : Prop where
  outputDir : (⟨settings.outputDir⟩ : Path).components = directories.map .name
  stem : '/' ∉ settings.outputStem.toList
  extension : '/' ∉ settings.extension.toList
  name : outputName settings declaration ∉ [".", ".."]

variable {settings : Settings} {declaration : Path} {directories : List String} {last : String}

theorem components_outputName (h : Nested settings declaration directories) :
    (⟨outputName settings declaration⟩ : Path).components =
      [.name (outputName settings declaration)] := by
  have hext : '/' ∉ (declaration.extension?.getD settings.extension).toList := by
    cases he : declaration.extension? with
    | none => exact h.extension
    | some ext => exact slash_not_mem_of_extension he
  have ht : (outputName settings declaration).toList = settings.outputStem.toList ++
      '.' :: (declaration.extension?.getD settings.extension).toList := by
    simp [outputName]
  have hname := h.name
  rw [List.mem_cons, List.mem_singleton, not_or] at hname
  apply components_eq_name
  · rw [ht]
    simp [h.stem, hext]
  · have hne : (outputName settings declaration).toList ≠ [] := by simp [ht]
    have hdot : (outputName settings declaration).toList ≠ ['.'] := fun hs =>
      hname.1 (String.toList_inj.mp hs)
    simp only [isFiller, Bool.or_eq_false_iff, beq_eq_false_iff_ne]
    exact ⟨hne, hdot⟩
  · exact fun hs => hname.2 (String.toList_inj.mp hs)

theorem components_outputPath (h : Nested settings declaration directories) :
    (outputPath settings declaration).components =
      declaration.directory.components ++ directories.map .name ++
        [.name (outputName settings declaration)] := by
  have hname := components_outputName h
  have hpath : outputPath settings declaration = (declaration.directory.join
      ⟨settings.outputDir⟩).join ⟨outputName settings declaration⟩ := rfl
  rw [hpath, components_join (lead_eq_nil [_] hname), components_join (lead_eq_nil _ h.outputDir),
    hname, h.outputDir]

theorem components_directory_outputPath (h : Nested settings declaration directories) :
    (outputPath settings declaration).directory.components =
      declaration.directory.components ++ directories.map .name :=
  components_directory (components_outputPath h)

theorem place_directory_outputPath (h : Nested settings declaration directories) :
    (outputPath settings declaration).directory.place =
      (directories.map .name).reverse ++ declaration.directory.place := by
  rw [place, placeFrom, components_directory_outputPath h, List.foldl_append, foldl_enter_names]
  · rfl
  · simp

theorem placeFrom_dotted_current (h : Nested settings declaration (directories ++ [last]))
    {i : ImportBinding} {t : String} (hi : i.path = "./" ++ t) :
    placeFrom (outputPath settings declaration).directory.place ⟨(dotted i).path⟩ =
      placeFrom ((directories.map .name).reverse ++ declaration.directory.place) ⟨i.path⟩ := by
  have hdotted : (dotted i).path = "../" ++ t := by
    rw [dotted, hi]
    exact String.append_assoc.symm
  rw [hdotted, hi, placeFrom_parent, placeFrom_current, place_directory_outputPath h,
    List.map_append, List.reverse_append]
  rfl

theorem placeFrom_dotted_parent (h : Nested settings declaration directories)
    {i : ImportBinding} {t : String} (hi : i.path = "../" ++ t) :
    placeFrom (outputPath settings declaration).directory.place ⟨(dotted i).path⟩ =
      placeFrom (.name "..." :: ((directories.map .name).reverse ++ declaration.directory.place))
        ⟨"./" ++ t⟩ := by
  have hdotted : (dotted i).path = "..." ++ "/" ++ t := by
    rw [dotted, hi]
    exact String.append_assoc.symm
  rw [hdotted, placeFrom_step (by decide), placeFrom_current, place_directory_outputPath h]
  rfl

/-- One directory below the declaration file, `./` keeps its meaning.  What follows `../` is looked
for in a directory `...` beside the module; that is another place, unless the steps in it lead above
the root. -/
theorem specifier_place (h : Nested settings declaration [last]) (i : ImportBinding)
    (t : String) :
    let output := (outputPath settings declaration).directory.place
    let source := declaration.directory.place
    (i.path = "./" ++ t → placeFrom output ⟨(dotted i).path⟩ = placeFrom source ⟨i.path⟩) ∧
      (i.path = "../" ++ t →
        placeFrom output ⟨(dotted i).path⟩ =
          placeFrom (.name "..." :: .name last :: source) ⟨"./" ++ t⟩ ∧
        (declaration.isAbsolute = false →
          placeFrom output ⟨(dotted i).path⟩ ≠ placeFrom source ⟨i.path⟩)) := by
  intro output source
  refine ⟨fun hi => ?_, fun hi => ?_⟩
  · have h' : Nested settings declaration ([] ++ [last]) := h
    simpa using placeFrom_dotted_current h' hi
  have hplace : placeFrom output ⟨(dotted i).path⟩ =
      placeFrom (.name "..." :: .name last :: source) ⟨"./" ++ t⟩ :=
    placeFrom_dotted_parent h hi
  refine ⟨hplace, ?_⟩
  intro ha he
  have hroot : .root ∉ source := root_not_mem_place_directory ha
  -- The places differ in height: two names are entered on the one side, one is left on the other.
  have hheight := congrArg height he
  rw [hplace, hi, height_placeFrom_current (by simpa using hroot),
    height_placeFrom_parent hroot] at hheight
  simp only [height, Component.rise] at hheight
  omega

theorem specifier_place_default :
    Nested {} ⟨"app/troute.ts"⟩ [".troute"] ∧
      placeFrom (outputPath {} ⟨"app/troute.ts"⟩).directory.place
          ⟨(dotted ⟨["a"], "./" ++ "x"⟩).path⟩ =
        placeFrom (directory ⟨"app/troute.ts"⟩).place ⟨"./" ++ "x"⟩ ∧
      placeFrom (outputPath {} ⟨"app/troute.ts"⟩).directory.place
          ⟨(dotted ⟨["a"], "../" ++ "x"⟩).path⟩ ≠
        placeFrom (directory ⟨"app/troute.ts"⟩).place ⟨"../" ++ "x"⟩ := by
  have h : Nested {} ⟨"app/troute.ts"⟩ [".troute"] := by
    constructor <;> decide +kernel
  refine ⟨h, (specifier_place h ⟨["a"], "./" ++ "x"⟩ "x").1 rfl, ?_⟩
  exact ((specifier_place h ⟨["a"], "../" ++ "x"⟩ "x").2 rfl).2 (by decide +kernel)

def importing (specifier : String) : String :=
  "import \x7b a \x7d from \"" ++ specifier ++ "\";\ncreateTroute(\x7b a \x7d)\n"

theorem evaluate_importing_parent :
    ∃ generation,
      ((Generator.ofSettings {}).evaluate ⟨"app/troute.ts"⟩ (.ok (importing "../x"))).2 =
        .ok generation ∧
      generation.content =
        "\"use server\"\n\nimport \x7b a \x7d from \".../x\";\n\nexport \x7b a \x7d\n" ∧
      ∃ i ∈ generation.resolution.imports, i.path = "../x" ∧
        placeFrom generation.output.directory.place ⟨(dotted i).path⟩ ≠
          placeFrom generation.declaration.directory.place ⟨i.path⟩ := by
  let i : ImportBinding := ⟨["a"], "../x"⟩
  let d : Declaration := ⟨[i], ⟨["a"]⟩, 0⟩
  refine ⟨_, Generator.evaluate_eq_ok_iff.mpr ⟨importing "../x", d, rfl, ?_, ?_, rfl⟩, ?_, i, ?_, rfl,
    ?_⟩ <;> decide +kernel

theorem specifier_place_iff (h : Nested settings declaration (directories ++ [last]))
    {i : ImportBinding} {t : String} (hi : i.path = "./" ++ t)
    (hup : .parent ∉ (⟨i.path⟩ : Path).components) :
    let output := (outputPath settings declaration).directory.place
    let source := declaration.directory.place
    placeFrom output ⟨(dotted i).path⟩ =
        placeFrom ((directories.map .name).reverse ++ source) ⟨i.path⟩ ∧
      (placeFrom output ⟨(dotted i).path⟩ = placeFrom source ⟨i.path⟩ ↔ directories = []) := by
  intro output source
  have hplace : placeFrom output ⟨(dotted i).path⟩ =
      placeFrom ((directories.map .name).reverse ++ source) ⟨i.path⟩ :=
    placeFrom_dotted_current h hi
  have hnames : ∀ c ∈ below t, ∃ n, c = .name n := by
    have hpath : i.path = "." ++ "/" ++ t := hi
    rw [hpath, components_step (by decide)] at hup
    intro c hc
    rcases mem_below hc with rfl | hn
    · exact absurd (List.mem_append_right _ hc) hup
    · exact hn
  refine ⟨hplace, ?_⟩
  rw [hplace, hi, placeFrom_current, placeFrom_current, foldl_enter_names hnames,
    foldl_enter_names hnames, List.append_cancel_left_eq, List.append_left_eq_self]
  simp

theorem specifier_place_iff_two_levels :
    Nested { outputDir := "gen/api" } ⟨"app/troute.ts"⟩ (["gen"] ++ ["api"]) ∧
      .parent ∉ (⟨"./" ++ "x"⟩ : Path).components ∧
      placeFrom (outputPath { outputDir := "gen/api" } ⟨"app/troute.ts"⟩).directory.place
          ⟨(dotted ⟨["a"], "./" ++ "x"⟩).path⟩ =
        placeFrom (.name "gen" :: (directory ⟨"app/troute.ts"⟩).place) ⟨"./" ++ "x"⟩ ∧
      (placeFrom (outputPath { outputDir := "gen/api" } ⟨"app/troute.ts"⟩).directory.place
          ⟨(dotted ⟨["a"], "./" ++ "x"⟩).path⟩ =
        placeFrom (directory ⟨"app/troute.ts"⟩).place ⟨"./" ++ "x"⟩ ↔ ["gen"] = []) := by
  have h : Nested { outputDir := "gen/api" } ⟨"app/troute.ts"⟩ (["gen"] ++ ["api"]) := by
    constructor <;> decide +kernel
  have hup : .parent ∉ (⟨"./" ++ "x"⟩ : Path).components := by decide +kernel
  let i : ImportBinding := ⟨["a"], "./" ++ "x"⟩
  exact ⟨h, hup, specifier_place_iff (i := i) h rfl hup⟩

theorem evaluate_importing_two_levels :
    ∃ generation,
      ((Generator.ofSettings { outputDir := "gen/api" }).evaluate ⟨"app/troute.ts"⟩
        (.ok (importing "./x"))).2 = .ok generation ∧
      generation.content =
        "\"use server\"\n\nimport \x7b a \x7d from \"../x\";\n\nexport \x7b a \x7d\n" ∧
      ∃ i ∈ generation.resolution.imports, i.path = "./x" ∧
        placeFrom generation.output.directory.place ⟨(dotted i).path⟩ ≠
          placeFrom generation.declaration.directory.place ⟨i.path⟩ := by
  let i : ImportBinding := ⟨["a"], "./x"⟩
  let d : Declaration := ⟨[i], ⟨["a"]⟩, 0⟩
  refine ⟨_, Generator.evaluate_eq_ok_iff.mpr ⟨importing "./x", d, rfl, ?_, ?_, rfl⟩, ?_, i, ?_, rfl,
    ?_⟩ <;> decide +kernel

end ActionsModule

end ServerActions
