import Mathlib.Control.Monad.Basic
import ServerActions.Proofs.ActionsModule.Specifiers
import ServerActions.Proofs.FileTree.Reading
import ServerActions.Proofs.FileTree.Rewriting
import ServerActions.Proofs.Generation.Operations

namespace ServerActions.Generator

open ActionsModule

variable {g : Generator} {path : Path} {generation : Generation}

def history (g : Generator) (path : Path) :
    List Operation → Session → List (Except Failure Generation × FileTree)
  | [], _ => []
  | op :: ops, s =>
    let next := g.perform path op s
    (next.1, next.2.tree) :: g.history path ops next.2

/-- A tree with the module that a generator makes of its declaration file in the output file. -/
structure UpToDate (g : Generator) (path : Path) (t : FileTree) (generation : Generation) : Prop where
  rendering : (g.evaluate path (t.readText path)).2 = .ok generation
  written : t.find generation.output = .ok (.file generation.content.toUTF8)

theorem makeParent_of_find {t : FileTree} {p : Path} {e : Entry} (h : t.find p = .ok e) :
    runIn t (makeParent p) = (.ok (), ⟨t, []⟩) := by
  rw [makeParent]
  cases hp : p.parent? with
  | none => rfl
  | some parent =>
    simp only
    split_ifs with hempty
    · rfl
    · obtain ⟨l, hl, -⟩ := FileTree.find_eq_ok_iff.mp h
      have hmem : parent ∈ p.ancestors := by
        rw [Path.ancestors_eq_cons hp]
        exact List.mem_cons_self
      have hmade := FileTree.makeDirectories_of_find (FileTree.find_ancestor hl hmem hempty)
      show ((t.makeDirectories parent).1.mapError (Failure.access parent),
        (⟨(t.makeDirectories parent).2, []⟩ : Session)) = _
      rw [hmade]
      rfl

theorem writeModule_of_find {t : FileTree} {p : Path} {text : String}
    (h : t.find p = .ok (.file text.toUTF8)) :
    runIn t (writeModule p text) = (.ok (), ⟨t, []⟩) := by
  simp only [runIn_writeModule, makeParent_of_find h, runIn_writeText,
    FileTree.writeBytes_of_find h]
  rfl

theorem UpToDate.perform {s : Session} (h : UpToDate g path s.tree generation) (op : Operation) :
    (g.perform path op s).1 = .ok generation ∧ (g.perform path op s).2.tree = s.tree := by
  obtain ⟨messages, hrun⟩ := perform_of_ok h.rendering op
  cases op with
  | render =>
    rw [hrun]
    exact ⟨rfl, rfl⟩
  | generate => exact generate_of_writeModule h.rendering (writeModule_of_find h.written)
  | check =>
    rw [hrun, Operation.finish, comparing_apply]
    exact ⟨compared_eq_ok_iff.mpr ⟨h.written, rfl⟩, rfl⟩

theorem UpToDate.history {s : Session} (h : UpToDate g path s.tree generation)
    (ops : List Operation) :
    g.history path ops s = ops.map fun _ => (.ok generation, s.tree) := by
  induction ops generalizing s with
  | nil => rfl
  | cons op ops ih =>
    obtain ⟨hfst, htree⟩ := h.perform op
    rw [← htree] at h
    rw [Generator.history, List.map_cons, ih h, hfst, htree]

theorem upToDate_generate {s : Session} (h : (g.perform path .generate s).1 = .ok generation)
    (hne : s.tree.target generation.output ≠ s.tree.target path) :
    UpToDate g path (g.perform path .generate s).2.tree generation := by
  obtain ⟨heval, hwritten⟩ := generate_eq_ok h
  obtain ⟨content, d, hread, -⟩ := evaluate_eq_ok_iff.mp heval
  refine ⟨?_, hwritten.find⟩
  rw [hwritten.readText hread hne, ← hread]
  exact heval

/-- Generation is idempotent: after a module has been written to another place than its declaration
file, every operation in a row succeeds with that module and keeps the tree. -/
theorem history_generate {s : Session} (h : (g.perform path .generate s).1 = .ok generation)
    (hne : s.tree.target generation.output ≠ s.tree.target path) (ops : List Operation) :
    g.history path ops (g.perform path .generate s).2 =
      ops.map fun _ => (.ok generation, (g.perform path .generate s).2.tree) :=
  (upToDate_generate h hne).history ops

def moduleBelowParent : Generation where
  declaration := ⟨"troute.ts"⟩
  output := ⟨"lib/../gen/actions.ts"⟩
  entryPoints := ⟨["a"]⟩
  resolution := ⟨[⟨["a"], "./x"⟩], [], []⟩
  extraCalls := 0
  content := "\"use server\"\n\nimport \x7b a \x7d from \"../x\";\n\nexport \x7b a \x7d\n"

theorem history_generate_below_parent :
    let g := ofSettings { outputDir := "lib/../gen" }
    let s : Session := ⟨.holding "troute.ts" (importing "./x"), []⟩
    let first := g.perform ⟨"troute.ts"⟩ .generate s
    first.1 = .ok moduleBelowParent ∧
      s.tree.target moduleBelowParent.output ≠ s.tree.target ⟨"troute.ts"⟩ ∧
      g.history ⟨"troute.ts"⟩ [.check, .generate, .render] first.2 =
        [.check, .generate, .render].map fun (_ : Operation) =>
          (.ok moduleBelowParent, first.2.tree) := by
  intro g s first
  have h : first.1 = .ok moduleBelowParent := by decide +kernel
  have hne : s.tree.target moduleBelowParent.output ≠ s.tree.target ⟨"troute.ts"⟩ := by
    decide +kernel
  exact ⟨h, hne, history_generate h hne _⟩

end ServerActions.Generator
