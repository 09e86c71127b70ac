import ServerActions.Proofs.ActionsModule.Specifiers

namespace ServerActions

open ServerActions.Path

namespace ActionsModule

/-- The extension for a name: what follows its last `.`, or the default one if no `.` follows its
first character. -/
inductive ExtensionFor (default name : String) : String → Prop
  | own {stem ext : String} (named : stem ≠ "") (last : '.' ∉ ext.toList)
      (cut : name = stem ++ "." ++ ext) : ExtensionFor default name ext
  | default (plain : '.' ∉ name.toList.tail) : ExtensionFor default name default

theorem extensionFor_extensionOf (default name : String) :
    ExtensionFor default name (((extensionOf name.toList).map String.ofList).getD default) := by
  have hcut := List.takeWhile_append_dropWhile (p := (· != '.')) (l := name.toList.reverse)
  have hlast : '.' ∉ name.toList.reverse.takeWhile (· != '.') := fun h => by
    simpa using List.all_eq_true.mp List.all_takeWhile _ h
  have hhead := List.head?_dropWhile_not (· != '.') name.toList.reverse
  rw [extensionOf]
  generalize name.toList.reverse.takeWhile (· != '.') = ext at hcut hlast
  generalize name.toList.reverse.dropWhile (· != '.') = rest at hcut hhead
  have hname : name.toList = rest.reverse ++ ext.reverse := by
    rw [← List.reverse_append, hcut, List.reverse_reverse]
  cases rest with
  | nil =>
    refine .default fun h => hlast ?_
    rw [hname] at h
    simpa using List.mem_of_mem_tail h
  | cons d rest =>
    obtain rfl : d = '.' := by simpa using hhead
    cases rest with
    | nil =>
      -- the last `.` is the first character
      refine .default fun h => hlast ?_
      rw [hname] at h
      simpa using h
    | cons c stem =>
      have hne : String.ofList (c :: stem).reverse ≠ "" := by simp
      refine .own hne (by simpa using hlast) ?_
      rw [← String.toList_inj, hname]
      simp

theorem outputName_not_mem {settings : Settings} (hne : settings.outputStem ≠ "")
    (hdot : settings.outputStem.toList.head? ≠ some '.') (declaration : Path) :
    outputName settings declaration ∉ [".", ".."] := by
  have hhead : (outputName settings declaration).toList.head? ≠ some '.' := by
    have hstem : settings.outputStem.toList ≠ [] := by simpa using hne
    obtain ⟨c, s, hs⟩ := List.exists_cons_of_ne_nil hstem
    rw [hs] at hdot
    simpa [outputName, hs] using hdot
  intro h
  rw [List.mem_cons, List.mem_singleton] at h
  rcases h with h | h <;> exact hhead (by rw [h]; rfl)

/-- The module lies below the directory of the declaration file, whose extension it has.  Other
spellings of the declaration file give the same components, and they are not those of the
declaration file. -/
theorem output_components {settings : Settings} {declaration : Path} {above : List Component}
    {name directory : String} (hname : declaration.components = above ++ [.name name])
    (hdirectory : (⟨settings.outputDir⟩ : Path).components = [.name directory])
    (hne : settings.outputStem ≠ "") (hstem : '/' ∉ settings.outputStem.toList)
    (hdot : settings.outputStem.toList.head? ≠ some '.')
    (hext : '/' ∉ settings.extension.toList) :
    ∃ parent ext, declaration.parent? = some parent ∧
      ExtensionFor settings.extension name ext ∧
      (outputPath settings declaration).components =
        parent.components ++ [.name directory, .name (settings.outputStem ++ "." ++ ext)] ∧
      (∀ spelling : Path, spelling.components = declaration.components →
        (outputPath settings spelling).components = (outputPath settings declaration).components) ∧
      (outputPath settings declaration).components ≠ declaration.components := by
  have hnested (d : Path) : Nested settings d [directory] :=
    ⟨hdirectory, hstem, hext, outputName_not_mem hne hdot d⟩
  have houtput {d : Path} (hd : d.components = above ++ [.name name]) :
      (outputPath settings d).components = above ++ [.name directory,
        .name (settings.outputStem ++ "." ++
          ((extensionOf name.toList).map String.ofList).getD settings.extension)] := by
    rw [components_outputPath (hnested d), components_directory hd, outputName, extension?,
      fileName_eq hd, List.append_assoc]
    rfl
  obtain ⟨parent, hparent, habove⟩ := exists_parent hname
  refine ⟨parent, _, hparent, extensionFor_extensionOf settings.extension name, ?_, ?_, ?_⟩
  · rw [houtput hname, habove]
  · intro spelling hs
    rw [houtput (hs.trans hname), houtput hname]
  · intro h
    rw [houtput hname, hname] at h
    simpa using congrArg List.length h

theorem output_components_hidden_name :
    (⟨"./app//.routes.v2.tsx/."⟩ : Path).components =
        [.current, .name "app"] ++ [.name ".routes.v2.tsx"] ∧
      (⟨"gen//."⟩ : Path).components = [.name "gen"] ∧
      ∃ parent ext, (⟨"./app//.routes.v2.tsx/."⟩ : Path).parent? = some parent ∧
        ExtensionFor "ts" ".routes.v2.tsx" ext ∧
        (outputPath { outputDir := "gen//." } ⟨"./app//.routes.v2.tsx/."⟩).components =
          parent.components ++ [.name "gen", .name ("actions" ++ "." ++ ext)] ∧
        (∀ spelling : Path,
          spelling.components = (⟨"./app//.routes.v2.tsx/."⟩ : Path).components →
          (outputPath { outputDir := "gen//." } spelling).components =
            (outputPath { outputDir := "gen//." } ⟨"./app//.routes.v2.tsx/."⟩).components) ∧
        (outputPath { outputDir := "gen//." } ⟨"./app//.routes.v2.tsx/."⟩).components ≠
          (⟨"./app//.routes.v2.tsx/."⟩ : Path).components := by
  have hname : (⟨"./app//.routes.v2.tsx/."⟩ : Path).components =
      [.current, .name "app"] ++ [.name ".routes.v2.tsx"] := by decide +kernel
  have hdirectory : (⟨"gen//."⟩ : Path).components = [.name "gen"] := by decide +kernel
  let settings : Settings := { outputDir := "gen//." }
  have hne : settings.outputStem ≠ "" := by decide
  exact ⟨hname, hdirectory, output_components hname hdirectory hne (by decide) (by decide)
    (by decide)⟩

end ActionsModule

end ServerActions
