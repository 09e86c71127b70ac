import ServerActions.Proofs.ActionsModule.Decoding
import ServerActions.Proofs.FileTree.Reading
import ServerActions.Proofs.Generation.Rendering

namespace ServerActions.Generator

open Declaration ActionsModule Resolution

theorem flatMap_names_dotted (imports : List ImportBinding) :
    (imports.map dotted).flatMap ImportBinding.names = imports.flatMap ImportBinding.names := by
  rw [List.flatMap_map]
  rfl

/-- A strict generator imports every name that the module exports, each once and nothing else, from
the module that the first import of the declaration with this name gives. -/
theorem render_rescan {g : Generator} {path : Path} {s : Session} {generation : Generation}
    (hstrict : g.strict = true)
    (hd : ¬ "import".toList <:+: g.settings.directive.toList.map Char.toLower)
    (h : ((g.render path : StateM Session (Except Failure Generation)) s).1 = .ok generation) :
    ∃ content, s.tree.readText path = .ok content ∧
      EndsInExport (afterImports g.settings.directive generation.content)
        generation.entryPoints.names ∧
      ((importsIn generation.content).flatMap ImportBinding.names).Nodup ∧
      (∀ n, n ∈ (importsIn generation.content).flatMap ImportBinding.names ↔
        n ∈ generation.entryPoints.names) ∧
      ∀ line ∈ importsIn generation.content, ∀ n ∈ line.names,
        ∃ i, (importsIn content).find? (fun i => i.names.contains n) = some i ∧
          line.path = "." ++ i.path := by
  rw [render_fst] at h
  obtain ⟨content, d, hread, hdecl, hbacked, rfl⟩ := evaluate_eq_ok_iff.mp h
  obtain ⟨calls, -, -, himports⟩ := read_eq_some_iff.mp hdecl
  obtain ⟨hscan, hexport⟩ := scan_render hd (renderable_resolve hdecl)
  refine ⟨content, hread, hexport, ?_, ?_, ?_⟩
  · rw [hscan, flatMap_names_dotted, flatMap_names_resolve]
    exact nodup_flatMap_contributions _ _ _
  · intro n
    rw [hscan, flatMap_names_dotted, flatMap_names_resolve, mem_flatMap_contributions]
    constructor
    · rintro ⟨-, hn, -⟩
      exact hn
    · intro hn
      exact ⟨List.not_mem_nil, hn, isFullyBacked_resolve.mp (hbacked hstrict) n hn⟩
  · intro line hline n hn
    rw [hscan] at hline
    obtain ⟨i, hi, rfl⟩ := List.mem_map.mp hline
    rw [← himports]
    obtain ⟨j, hj, hp⟩ := find_of_mem_contributions (mem_imports_resolve.mp hi).1 hn
    exact ⟨j, hj, by rw [dotted, hp]⟩

def repeatedNames : String :=
  "import \x7b a, b \x7d from \"./x\";\nimport \x7b a \x7d from './y';\ncreateTroute(\x7b b, a, a \x7d)"

def repeatedNamesModule : Generation where
  declaration := ⟨"troute.ts"⟩
  output := ⟨".troute/actions.ts"⟩
  entryPoints := ⟨["b", "a", "a"]⟩
  resolution := ⟨[⟨["a", "b"], "./x"⟩], ["./y"], []⟩
  extraCalls := 0
  content := "\"use server\"\n\nimport \x7b a, b \x7d from \"../x\";\n\nexport \x7b b, a, a \x7d\n"

theorem render_rescan_repeated_names :
    (ofSettings {}).strict = true ∧
      ¬ "import".toList <:+: (ofSettings {}).settings.directive.toList.map Char.toLower ∧
      (((ofSettings {}).render ⟨"troute.ts"⟩ : StateM Session (Except Failure Generation))
        ⟨.holding "troute.ts" repeatedNames, []⟩).1 = .ok repeatedNamesModule ∧
      ∃ content, (FileTree.holding "troute.ts" repeatedNames).readText ⟨"troute.ts"⟩ = .ok content ∧
        EndsInExport (afterImports (ofSettings {}).settings.directive repeatedNamesModule.content)
          repeatedNamesModule.entryPoints.names ∧
        ((importsIn repeatedNamesModule.content).flatMap ImportBinding.names).Nodup ∧
        (∀ n, n ∈ (importsIn repeatedNamesModule.content).flatMap ImportBinding.names ↔
          n ∈ repeatedNamesModule.entryPoints.names) ∧
        ∀ line ∈ importsIn repeatedNamesModule.content, ∀ n ∈ line.names,
          ∃ i, (importsIn content).find? (fun i => i.names.contains n) = some i ∧
            line.path = "." ++ i.path := by
  have hs : (ofSettings {}).strict = true := rfl
  have hd : ¬ "import".toList <:+: (ofSettings {}).settings.directive.toList.map Char.toLower := by
    decide +kernel
  have hread : (FileTree.holding "troute.ts" repeatedNames).readText ⟨"troute.ts"⟩ =
      .ok repeatedNames := by
    apply FileTree.readText_holding <;> decide
  have heval : ((ofSettings {}).evaluate ⟨"troute.ts"⟩
      ((FileTree.holding "troute.ts" repeatedNames).readText ⟨"troute.ts"⟩)).2 =
        .ok repeatedNamesModule := by
    rw [hread]
    refine evaluate_eq_ok_iff.mpr ⟨repeatedNames, ⟨[⟨["a", "b"], "./x"⟩, ⟨["a"], "./y"⟩],
      ⟨["b", "a", "a"]⟩, 0⟩, rfl, ?_, ?_, ?_⟩ <;> decide +kernel
  have hr : (((ofSettings {}).render ⟨"troute.ts"⟩ : StateM Session (Except Failure Generation))
      ⟨.holding "troute.ts" repeatedNames, []⟩).1 = .ok repeatedNamesModule := by
    rw [render_fst]
    exact heval
  have hrescan := render_rescan hs hd hr
  exact ⟨hs, hd, hr, hrescan⟩

end ServerActions.Generator
