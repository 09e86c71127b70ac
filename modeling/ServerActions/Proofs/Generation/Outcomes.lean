import ServerActions.Proofs.ActionsModule.Specifiers
import ServerActions.Proofs.Declaration.Declared
import ServerActions.Proofs.Generation.Operations
import ServerActions.Proofs.Resolution.Contributions

namespace ServerActions.Generator

open Declaration Resolution

/-- What rendering comes to: there is no declaration file, or no text in it, or no factory call in
the text, or some entry points are in no import statement, or there is a module. -/
inductive Renders (g : Generator) (tree : FileTree) (path : Path) : Except Failure Generation → Prop
  | missing (found : tree.find path = .error .notFound) :
    Renders g tree path (.error (.declarationNotFound path))
  | unreadable {cause : AccessError} (source : tree.Unreadable path cause)
    (present : cause ≠ .notFound) : Renders g tree path (.error (.access path cause))
  | uncalled {text : String} (found : tree.find path = .ok (.file text.toUTF8))
    (calls : ∀ c : FactoryCall, ¬ c.text g.settings.factory <:+: text.toList) :
    Renders g tree path (.error (.factoryNotCalled path g.settings.factory))
  | refused {text : String} {d : Declaration} (found : tree.find path = .ok (.file text.toUTF8))
    (declares : Declares g.settings.factory text.toList d) (strict : g.strict = true)
    (unbacked : ∃ n ∈ d.entryPoints.names, ∀ i ∈ d.imports, n ∉ i.names) :
    Renders g tree path (.error (.unbacked
      (firstPlaces (fun n => d.imports.all fun i => !i.names.contains n) d.entryPoints.names)))
  | rendered {text : String} {d : Declaration} (found : tree.find path = .ok (.file text.toUTF8))
    (declares : Declares g.settings.factory text.toList d)
    (backed : g.strict = true → ∀ n ∈ d.entryPoints.names, ∃ i ∈ d.imports, n ∈ i.names) :
    Renders g tree path (.ok
      { declaration := path
        output := ActionsModule.outputPath g.settings path
        entryPoints := d.entryPoints
        resolution := resolve d.imports d.entryPoints
        extraCalls := d.extraCalls
        content := ActionsModule.render g.settings.directive
          (resolve d.imports d.entryPoints).imports d.entryPoints })

theorem evaluate_error (g : Generator) (path : Path) {cause : AccessError}
    (h : cause ≠ .notFound) :
    (g.evaluate path (.error cause)).2 = .error (.access path cause) := by
  cases cause with
  | notFound => exact absurd rfl h
  | _ => rfl

theorem isFullyBacked_eq_false_iff {imports : List ImportBinding} {e : EntryPoints} :
    (resolve imports e).isFullyBacked = false ↔ ∃ n ∈ e.names, ∀ i ∈ imports, n ∉ i.names := by
  rw [← Bool.not_eq_true, isFullyBacked_resolve]
  simp

theorem evaluate_renders (g : Generator) (tree : FileTree) (path : Path) :
    Renders g tree path (g.evaluate path (tree.readText path)).2 := by
  cases hread : tree.readText path with
  | error cause =>
    by_cases hcause : cause = .notFound
    · subst hcause
      exact .missing (FileTree.readText_eq_notFound_iff.mp hread)
    · rw [evaluate_error g path hcause]
      exact .unreadable (FileTree.readText_eq_error_iff.mp hread) hcause
  | ok text =>
    have hfound := FileTree.readText_eq_ok_iff.mp hread
    cases hd : Declaration.read? g.settings.factory text with
    | none =>
      rw [evaluate, hd]
      exact .uncalled hfound (read_eq_none_iff_not_isInfix.mp hd)
    | some d =>
      have hdeclares := read_eq_some_iff_declares.mp hd
      rw [evaluate_ok_of_read hd, produce]
      split_ifs with hrefused
      · simp only [Bool.and_eq_true, Bool.not_eq_true', isFullyBacked_eq_false_iff] at hrefused
        rw [unbacked_eq_firstPlaces]
        exact .refused hfound hdeclares hrefused.1 hrefused.2
      · refine .rendered hfound hdeclares fun hstrict => isFullyBacked_resolve.mp ?_
        simpa [hstrict] using hrefused

theorem Renders.evaluate_eq {g : Generator} {tree : FileTree} {path : Path}
    {outcome : Except Failure Generation} (h : Renders g tree path outcome) :
    (g.evaluate path (tree.readText path)).2 = outcome := by
  cases h with
  | missing found => rw [FileTree.readText_eq_notFound_iff.mpr found, evaluate]
  | unreadable source present =>
    rw [FileTree.readText_eq_error_iff.mpr source, evaluate_error g path present]
  | uncalled found calls =>
    rw [FileTree.readText_of_find found, evaluate, read_eq_none_iff_not_isInfix.mpr calls]
  | refused found declares strict unbacked =>
    rw [FileTree.readText_of_find found,
      evaluate_ok_of_read (read_eq_some_iff_declares.mpr declares), produce, strict,
      isFullyBacked_eq_false_iff.mpr unbacked, unbacked_eq_firstPlaces]
    rfl
  | rendered found declares backed =>
    exact evaluate_eq_ok_iff.mpr ⟨_, _, FileTree.readText_of_find found,
      read_eq_some_iff_declares.mpr declares,
      fun hstrict => isFullyBacked_resolve.mpr (backed hstrict), rfl⟩

/-- Rendering comes to exactly what the tree and the statements in the declaration file say.  The
generator is strict unless the settings, or a lenient flag, say otherwise. -/
theorem render_eq_iff (settings : Settings) (allow : Bool) (tree : FileTree) (path : Path) :
    let g := (ofSettings settings).lenient allow
    g.settings = settings ∧ (g.strict = true ↔ settings.strict = true ∧ allow = false) ∧
      ∀ outcome, (runIn tree (g.render path)).1 = outcome ↔ Renders g tree path outcome := by
  intro g
  refine ⟨settings_lenient _ _, ?_, fun outcome => ?_⟩
  · rw [strict_lenient, Bool.and_eq_true, Bool.not_eq_true', ofSettings]
  · rw [runIn, render_fst]
    constructor
    · rintro rfl
      exact g.evaluate_renders tree path
    · exact Renders.evaluate_eq

variable {g : Generator} {path : Path} {tree : FileTree} {m : Generation}

theorem runIn_check (h : (runIn tree (g.render path)).1 = .ok m) :
    (runIn tree (g.check path)).1 = (compared m (tree.readText m.output)).1 := by
  have heval : (g.evaluate path (tree.readText path)).2 = .ok m := by
    rwa [runIn, render_fst] at h
  obtain ⟨messages, hrun⟩ := @perform_of_ok g path ⟨tree, []⟩ m heval .check
  have hcheck : (runIn tree (g.check path)).1 = (g.perform path .check ⟨tree, []⟩).1 := rfl
  rw [hcheck, hrun, Operation.finish, comparing_apply]

/-- A module that can be rendered is up to date if the file has its bytes, and stale if there is no
file or one with another text; a file that holds no text cannot be compared. -/
theorem check_eq_iff (h : (runIn tree (g.render path)).1 = .ok m) :
    let outcome := (runIn tree (g.check path)).1
    (outcome = .ok m ↔ tree.find m.output = .ok (.file m.content.toUTF8)) ∧
    (outcome = .error (.stale m.output) ↔ tree.find m.output = .error .notFound ∨
      ∃ text : String, tree.find m.output = .ok (.file text.toUTF8) ∧ text ≠ m.content) ∧
    (∀ cause, outcome = .error (.access m.output cause) ↔
      tree.Unreadable m.output cause ∧ cause ≠ .notFound) ∧
    (outcome = .ok m ∨ outcome = .error (.stale m.output) ∨
      ∃ cause, outcome = .error (.access m.output cause)) := by
  intro outcome
  simp only [outcome, runIn_check h, ← FileTree.readText_eq_ok_iff, ← FileTree.readText_eq_error_iff,
    ← FileTree.readText_eq_notFound_iff]
  cases tree.readText m.output with
  | error cause => cases cause <;> simp [compared]
  | ok text => by_cases htext : text = m.content <;> simp [compared, htext]

def tampered (bytes : ByteArray) : FileTree :=
  let s : Session := ⟨.holding "troute.ts" (ActionsModule.importing "./x"), []⟩
  let generated := ((ofSettings {}).perform ⟨"troute.ts"⟩ .generate s).2.tree
  match generated.writeBytes ⟨".troute/actions.ts"⟩ bytes with
  | .ok tree => tree
  | .error _ => generated

theorem check_eq_iff_tampered :
    let g := ofSettings {}
    let tree := tampered "edited".toUTF8
    ∃ m, (runIn tree (g.render ⟨"troute.ts"⟩)).1 = .ok m ∧
      tree.find m.output = .ok (.file "edited".toUTF8) ∧
      (runIn tree (g.check ⟨"troute.ts"⟩)).1 = .error (.stale m.output) := by
  intro g tree
  have hrendered : (runIn tree (g.render ⟨"troute.ts"⟩)).1.map
      (fun m => (m.output.text, m.content == "edited")) = .ok (".troute/actions.ts", false) := by
    decide +kernel
  obtain ⟨m, hm, hparts⟩ := map_eq_ok_iff.mp hrendered
  obtain ⟨houtput, hcontent⟩ := Prod.mk.inj hparts
  have hread : tree.readText ⟨".troute/actions.ts"⟩ = .ok "edited" := by decide +kernel
  have hfile : tree.find m.output = .ok (.file "edited".toUTF8) := by
    rw [← FileTree.readText_eq_ok_iff, ← hread, ← houtput]
  obtain ⟨-, hstale, -⟩ := check_eq_iff hm
  exact ⟨m, hm, hfile, hstale.mpr (.inr ⟨"edited", hfile, fun h => by simp [← h] at hcontent⟩)⟩

theorem check_undecodable :
    let g := ofSettings {}
    let tree := tampered ⟨#[0xFF]⟩
    let outcome := (runIn tree (g.check ⟨"troute.ts"⟩)).1
    (runIn tree (g.render ⟨"troute.ts"⟩)).1.map Generation.output = .ok ⟨".troute/actions.ts"⟩ ∧
      tree.readBytes ⟨".troute/actions.ts"⟩ = .ok ⟨#[0xFF]⟩ ∧
      outcome = .error (.access ⟨".troute/actions.ts"⟩ .notText) ∧
      outcome ≠ .error (.stale ⟨".troute/actions.ts"⟩) := by
  refine ⟨?_, ?_, ?_, ?_⟩ <;> decide +kernel

end ServerActions.Generator
