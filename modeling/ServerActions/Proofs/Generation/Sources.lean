import Mathlib.Control.Monad.Basic
import ServerActions.Proofs.ActionsModule.Specifiers
import ServerActions.Proofs.FileTree.Reading
import ServerActions.Proofs.FileTree.Targets
import ServerActions.Proofs.Generation.Operations
import ServerActions.Settings.Document

namespace ServerActions

open ActionsModule

variable {settings : Settings} {path : Path} {directories : List String} {last : String}

theorem foldl_enter_map_name (names : List String) (l : Location) :
    (names.map Path.Component.name).foldl Location.enter l = names.reverse ++ l := by
  induction names generalizing l with
  | nil => rfl
  | cons name names ih =>
    rw [List.map_cons, List.foldl_cons, ih, Location.enter, List.reverse_cons, List.append_assoc,
      List.singleton_append]

theorem length_target_outputPath (t : FileTree) (h : Nested settings path directories) :
    (t.target (outputPath settings path)).length =
      (t.target path.directory).length + directories.length + 1 := by
  rw [FileTree.target, FileTree.target, components_outputPath h, List.foldl_append,
    List.foldl_append, foldl_enter_map_name]
  simp only [List.foldl_cons, List.foldl_nil, Location.enter, List.length_cons, List.length_append,
    List.length_reverse]
  omega

theorem target_outputPath_ne (t : FileTree) (h : Nested settings path (directories ++ [last])) :
    t.target (outputPath settings path) ≠ t.target path := by
  intro he
  -- the module lies too deep to be the declaration file
  have hdeep := length_target_outputPath t h
  have hle := t.length_target_le path
  rw [he, List.length_append, List.length_singleton] at hdeep
  omega

namespace Generator

/-- A declaration file is kept if its module cannot be written.  If it is written, the declaration
file is kept unless the output path leads to it; then it holds the module instead. -/
theorem find_generate (g : Generator) (path : Path) (s : Session) :
    let outcome := (g.perform path .generate s).1
    let after := (g.perform path .generate s).2.tree
    (∀ reason, outcome = .error reason → after.find path = s.tree.find path) ∧
    (∀ generation, outcome = .ok generation → after.find path =
      if s.tree.target generation.output = s.tree.target path then
        .ok (.file generation.content.toUTF8)
      else s.tree.find path) ∧
    ∀ directories last, Nested g.settings path (directories ++ [last]) →
      after.find path = s.tree.find path := by
  intro outcome after
  rcases g.generate_cases path s with ⟨reason, -, hr, htree⟩ | ⟨generation, heval, hr⟩
  · have hkept : after.find path = s.tree.find path := by simp only [after, htree]
    refine ⟨fun _ _ => hkept, fun generation hg => ?_, fun _ _ _ => hkept⟩
    simp only [outcome, hr] at hg
    cases hg
  obtain ⟨content, d, hread, -, -, hgeneration⟩ := evaluate_eq_ok_iff.mp heval
  have hfile := FileTree.readText_eq_ok_iff.mp hread
  rcases hr with ⟨q, cause, hr, hgrow⟩ | ⟨hr, hwritten⟩
  · have hkept : after.find path = s.tree.find path := by rw [hgrow.find hfile, hfile]
    refine ⟨fun _ _ => hkept, fun generation hg => ?_, fun _ _ _ => hkept⟩
    simp only [outcome, hr] at hg
    cases hg
  · have hfind := hwritten.find_eq hfile
    rw [← hfile] at hfind
    refine ⟨fun reason he => ?_, fun generation' hg => ?_, fun directories last hn => ?_⟩
    · simp only [outcome, hr] at he
      cases he
    · obtain rfl := Except.ok.inj (hr.symm.trans hg)
      exact hfind
    · have hne : s.tree.target generation.output ≠ s.tree.target path := by
        rw [hgeneration]
        exact target_outputPath_ne s.tree hn
      rw [if_neg hne] at hfind
      exact hfind

def beside : Settings := { outputDir := ".", outputStem := "troute" }

theorem generate_beside :
    let g := ofSettings beside
    let s : Session := ⟨.holding "troute.ts" (importing "./x"), []⟩
    let after := (g.perform ⟨"troute.ts"⟩ .generate s).2.tree
    Settings.parse "[generate]\noutput_dir = \".\"\noutput_stem = \"troute\"\n" = .ok beside ∧
      s.tree.readText ⟨"troute.ts"⟩ = .ok (importing "./x") ∧
      after.readText ⟨"troute.ts"⟩ =
        .ok "\"use server\"\n\nimport \x7b a \x7d from \"../x\";\n\nexport \x7b a \x7d\n" ∧
      after.readText ⟨"troute.ts"⟩ ≠ s.tree.readText ⟨"troute.ts"⟩ := by
  refine ⟨?_, ?_, ?_, ?_⟩ <;> decide +kernel

end Generator

end ServerActions
