import Mathlib.Data.List.Nodup
import ServerActions.Proofs.Generation.Rendering
import ServerActions.Proofs.Resolution.Claiming

namespace ServerActions

namespace Resolution

variable {e e' : EntryPoints} (h : ∀ n, n ∈ e.names ↔ n ∈ e'.names) (imports : List ImportBinding)

include h

theorem contributions_congr (claimed : List String) :
    contributions e' claimed imports = contributions e claimed imports := by
  have hwanted : e'.contains = e.contains := by
    funext n
    rw [Bool.eq_iff_iff, EntryPoints.contains_iff, EntryPoints.contains_iff, h]
  induction imports generalizing claimed with
  | nil => rfl
  | cons i imports ih => rw [contributions, contributions, hwanted, ih]

theorem imports_resolve_congr : (resolve imports e').imports = (resolve imports e).imports := by
  simp only [resolve, contributions_congr h]

theorem dropped_resolve_congr : (resolve imports e').dropped = (resolve imports e).dropped := by
  simp only [resolve, contributions_congr h]

theorem unbacked_resolve_perm :
    (resolve imports e').unbacked.Perm (resolve imports e).unbacked := by
  have hnodup (e : EntryPoints) : (resolve imports e).unbacked.Nodup := nodup_claim _ _ _
  apply (List.perm_ext_iff_of_nodup (hnodup e') (hnodup e)).mpr
  intro n
  rw [mem_unbacked_resolve, mem_unbacked_resolve, h]

theorem isFullyBacked_resolve_congr :
    (resolve imports e').isFullyBacked = (resolve imports e).isFullyBacked := by
  rw [Bool.eq_iff_iff, isFullyBacked_resolve, isFullyBacked_resolve]
  simp only [h]

end Resolution

namespace Generator

open Resolution

theorem render_of_read {g : Generator} {path : Path} {s : Session} {content : String}
    {d : Declaration} (hread : s.tree.readText path = .ok content)
    (hdecl : Declaration.read? g.settings.factory content = some d) :
    ((g.render path : StateM Session (Except Failure Generation)) s).1 = (g.produce path d).2 := by
  rw [render_fst, hread, evaluate_ok_of_read hdecl]

theorem exists_produce_iff {g : Generator} {path : Path} {d : Declaration} :
    (∃ generation, (g.produce path d).2 = .ok generation) ↔
      (g.strict = true → (resolve d.imports d.entryPoints).isFullyBacked = true) := by
  simp only [produce_eq_ok_iff, exists_and_left, exists_eq, and_true]

/-- Whatever the order and the number of times in which the same entry points are given, the imports
of a module are the same, there is a module or none, and it is the same up to its export statement,
which lists them as they are given. -/
theorem produce_reordered {e e' : EntryPoints} (h : ∀ n, n ∈ e.names ↔ n ∈ e'.names)
    (imports : List ImportBinding) :
    (resolve imports e').imports = (resolve imports e).imports ∧
    (resolve imports e').dropped = (resolve imports e).dropped ∧
    (resolve imports e').unbacked.Perm (resolve imports e).unbacked ∧
    ∀ (g : Generator) (path path' : Path) (extra extra' : Nat),
      let outcome := (g.produce path ⟨imports, e, extra⟩).2
      let outcome' := (g.produce path' ⟨imports, e', extra'⟩).2
      ((∃ generation, outcome = .ok generation) ↔ ∃ generation, outcome' = .ok generation) ∧
      (∀ generation generation', outcome = .ok generation → outcome' = .ok generation' →
        ∃ above,
          generation.content =
            above ++ ("\nexport \x7b " ++ ", ".intercalate e.names ++ " \x7d\n") ∧
          generation'.content =
            above ++ ("\nexport \x7b " ++ ", ".intercalate e'.names ++ " \x7d\n")) ∧
      ∀ (s : Session) (content : String), s.tree.readText path = .ok content →
        Declaration.read? g.settings.factory content = some ⟨imports, e, extra⟩ →
        ((g.render path : StateM Session (Except Failure Generation)) s).1 = outcome := by
  refine ⟨imports_resolve_congr h imports, dropped_resolve_congr h imports,
    unbacked_resolve_perm h imports, ?_⟩
  intro g path path' extra extra' outcome outcome'
  refine ⟨?_, ?_, fun s content => render_of_read⟩
  · simp only [outcome, outcome', exists_produce_iff, isFullyBacked_resolve_congr h]
  · intro generation generation' hok hok'
    obtain ⟨-, rfl⟩ := produce_eq_ok_iff.mp hok
    obtain ⟨-, rfl⟩ := produce_eq_ok_iff.mp hok'
    simp only [imports_resolve_congr h]
    exact ⟨_, rfl, rfl⟩

theorem produce_reordered_repeated :
    let imports := [⟨["a", "b"], "./x"⟩, ⟨["b", "c"], "./y"⟩]
    let rendered (names : List String) : Except Failure Generation :=
      ((ofSettings {}).produce ⟨"troute.ts"⟩ ⟨imports, ⟨names⟩, 0⟩).2
    (∀ n, n ∈ ["c", "a", "c"] ↔ n ∈ ["a", "c"]) ∧
      ∃ generation generation', rendered ["c", "a", "c"] = .ok generation ∧
        rendered ["a", "c"] = .ok generation' ∧
        ∃ above, generation.content = above ++ "\nexport \x7b c, a, c \x7d\n" ∧
          generation'.content = above ++ "\nexport \x7b a, c \x7d\n" := by
  intro imports rendered
  have hnames : ∀ n, n ∈ ["c", "a", "c"] ↔ n ∈ ["a", "c"] := by
    intro n
    simp only [List.mem_cons, List.not_mem_nil, or_false]
    grind
  have hbacked : (resolve imports ⟨["c", "a", "c"]⟩).isFullyBacked = true := by decide +kernel
  obtain ⟨-, -, -, hrun⟩ :=
    @produce_reordered ⟨["c", "a", "c"]⟩ ⟨["a", "c"]⟩ hnames imports
  obtain ⟨hiff, hcontent, -⟩ := hrun (ofSettings {}) ⟨"troute.ts"⟩ ⟨"troute.ts"⟩ 0 0
  have hok : ∃ generation, rendered ["c", "a", "c"] = .ok generation :=
    exists_produce_iff.mpr fun _ => hbacked
  obtain ⟨generation, hg⟩ := hok
  obtain ⟨generation', hg'⟩ := hiff.mp ⟨generation, hg⟩
  obtain ⟨above, ha, ha'⟩ := hcontent generation generation' hg hg'
  refine ⟨hnames, generation, generation', hg, hg', above, ?_, ?_⟩
  · rw [ha]
    congr 1
  · rw [ha']
    congr 1

end Generator

end ServerActions
