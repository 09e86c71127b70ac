import Mathlib.Control.Monad.Basic
import ServerActions.Proofs.FileTree.Reading
import ServerActions.Proofs.Generation.Operations
import ServerActions.Proofs.Resolution.Claiming

namespace ServerActions.Generator

open ActionsModule

variable {g : Generator} {path : Path}

theorem perform_congr {g' : Generator} {s : Session}
    (h : g'.evaluate path (s.tree.readText path) = g.evaluate path (s.tree.readText path))
    (op : Operation) : g'.perform path op s = g.perform path op s := by
  rw [perform_apply, perform_apply, render_apply, render_apply, h]

theorem finish_ne_unbacked (op : Operation) (generation : Generation) (s : Session)
    (names : List String) : (op.finish generation s).1 ≠ .error (.unbacked names) := by
  intro h
  cases op with
  | render => cases h
  | generate =>
    rw [Operation.finish, writing_fst] at h
    rcases writeModule_cases s.tree generation.output generation.content with
      ⟨q, cause, u, hw, -⟩ | ⟨u, hw, -⟩
    · rw [hw] at h
      cases h
    · rw [hw] at h
      cases h
  | check =>
    rw [Operation.finish, comparing_apply] at h
    simp only at h
    cases hread : s.tree.readText generation.output with
    | error cause =>
      rw [hread] at h
      cases cause <;> cases h
    | ok existing =>
      rw [hread, compared] at h
      split_ifs at h
      cases h

theorem perform_eq_unbacked_iff {op : Operation} {s : Session} {names : List String} :
    (g.perform path op s).1 = .error (.unbacked names) ↔
      (g.evaluate path (s.tree.readText path)).2 = .error (.unbacked names) := by
  cases h : (g.evaluate path (s.tree.readText path)).2 with
  | error reason => rw [(perform_of_error h op).1]
  | ok generation =>
    obtain ⟨messages, hrun⟩ := perform_of_ok h op
    rw [hrun]
    constructor
    · intro hn
      exact absurd hn (finish_ne_unbacked op generation _ names)
    · intro hn
      cases hn

theorem evaluate_lenient (g : Generator) (path : Path) (source : Except AccessError String) :
    ((g.lenient true).evaluate path source = g.evaluate path source ∧
      ∀ names, (g.evaluate path source).2 ≠ .error (.unbacked names)) ∨
    ∃ content d, source = .ok content ∧
      Declaration.read? g.settings.factory content = some d ∧
      (resolve d.imports d.entryPoints).unbacked ≠ [] ∧
      (g.evaluate path source).2 = .error (.unbacked (resolve d.imports d.entryPoints).unbacked) := by
  cases source with
  | error cause =>
    left
    cases cause <;> exact ⟨rfl, fun names h => by cases h⟩
  | ok content =>
    have hsettings : (g.lenient true).settings = g.settings := rfl
    rw [evaluate, evaluate, hsettings]
    cases hd : Declaration.read? g.settings.factory content with
    | none => exact .inl ⟨rfl, fun names h => by cases h⟩
    | some d =>
      by_cases hrefused : (g.strict && !(resolve d.imports d.entryPoints).isFullyBacked) = true
      · right
        refine ⟨content, d, rfl, hd, ?_, ?_⟩
        · rw [Bool.and_eq_true, Bool.not_eq_true', Resolution.isFullyBacked] at hrefused
          simpa using hrefused.2
        · simp only [produce, if_pos hrefused]
      · left
        have hlenient : (g.lenient true).produce path d = g.produce path d := by
          rw [produce, produce, if_neg hrefused]
          rfl
        refine ⟨by simp only [hlenient], fun names h => ?_⟩
        simp only [produce, if_neg hrefused] at h
        cases h

theorem render_lenient {s : Session} {content : String} {d : Declaration}
    (hread : s.tree.readText path = .ok content)
    (hdecl : Declaration.read? g.settings.factory content = some d) :
    ∃ generation, ((g.lenient true).perform path .render s).1 = .ok generation ∧
      generation.resolution = resolve d.imports d.entryPoints ∧
      generation.entryPoints = d.entryPoints ∧
      ∃ above, generation.content = above ++ exportLine generation.entryPoints := by
  have heval : ((g.lenient true).evaluate path (s.tree.readText path)).2 = .ok _ :=
    evaluate_eq_ok_iff.mpr ⟨content, d, hread, hdecl, fun hstrict => (by cases hstrict), rfl⟩
  obtain ⟨messages, hrun⟩ := perform_of_ok heval .render
  exact ⟨_, by rw [hrun]; rfl, rfl, rfl, _, rfl⟩

theorem foldl_lenient (g : Generator) (allows : List Bool) :
    allows.foldl lenient g = g.lenient (allows.contains true) := by
  induction allows generalizing g with
  | nil => rfl
  | cons allow allows ih =>
    rw [List.foldl_cons, ih]
    cases allow with
    | false => rfl
    | true => cases hc : allows.contains true <;> simp [lenient]

/-- A lenient operation is the strict one, unless that refuses unbacked entry points; then they are
what the lenient rendering leaves unbacked, and it exports them.  Settings that are not strict are
as good as a lenient generator, and no generator becomes strict again. -/
theorem perform_lenient (g : Generator) (path : Path) (op : Operation) (s : Session) :
    (∀ generation, (g.perform path op s).1 = .ok generation →
      (g.lenient true).perform path op s = g.perform path op s) ∧
    (∀ names, (g.perform path op s).1 = .error (.unbacked names) →
      names ≠ [] ∧ ∃ generation, ((g.lenient true).perform path .render s).1 = .ok generation ∧
        generation.resolution.unbacked = names ∧
        (∀ n ∈ names, n ∈ generation.entryPoints.names) ∧
        ∃ above, generation.content = above ++ exportLine generation.entryPoints) ∧
    (∀ reason, (g.perform path op s).1 = .error reason → (∀ names, reason ≠ .unbacked names) →
      (g.lenient true).perform path op s = g.perform path op s) ∧
    (∀ settings allow, settings.strict = false →
      ((ofSettings settings).lenient allow).perform path op s =
        ((ofSettings { settings with strict := true }).lenient true).perform path op s) ∧
    ∀ allows : List Bool, allows.foldl lenient g = g.lenient (allows.contains true) := by
  have hsettings (settings : Settings) (allow : Bool) (h : settings.strict = false) :
      ((ofSettings settings).lenient allow).perform path op s =
        ((ofSettings { settings with strict := true }).lenient true).perform path op s := by
    have hallow : (ofSettings settings).lenient allow = ⟨settings, false⟩ := by
      cases allow <;> simp [lenient, ofSettings, h]
    rw [hallow]
    exact perform_congr rfl op
  -- a lenient generator comes to something else only for a declaration that is refused
  rcases g.evaluate_lenient path (s.tree.readText path) with
    ⟨hsame, hbacked⟩ | ⟨content, d, hread, hdecl, hne, hrefused⟩
  · have heq := perform_congr hsame op
    refine ⟨fun _ _ => heq, fun names h => ?_, fun _ _ _ => heq, hsettings, g.foldl_lenient⟩
    exact absurd (perform_eq_unbacked_iff.mp h) (hbacked names)
  · have hstrict : (g.perform path op s).1 = .error (.unbacked _) :=
      perform_eq_unbacked_iff.mpr hrefused
    refine ⟨fun generation h => ?_, fun names h => ?_, fun reason h hr => ?_, hsettings,
      g.foldl_lenient⟩
    · rw [hstrict] at h
      cases h
    · rw [hstrict] at h
      obtain rfl := Failure.unbacked.inj (Except.error.inj h)
      obtain ⟨generation, hgeneration, hresolution, hentries, hcontent⟩ :=
        render_lenient hread hdecl
      refine ⟨hne, generation, hgeneration, by rw [hresolution], fun n hn => ?_, hcontent⟩
      rw [hentries]
      exact (Resolution.mem_unbacked_resolve.mp hn).1
    · rw [hstrict] at h
      exact absurd (Except.error.inj h).symm (hr _)

theorem perform_lenient_without_imports :
    let g := ofSettings {}
    let s : Session := ⟨.holding "troute.ts" "createTroute(\x7b a \x7d)", []⟩
    (g.perform ⟨"troute.ts"⟩ .check s).1 = .error (.unbacked ["a"]) ∧
      ∃ generation, ((g.lenient true).perform ⟨"troute.ts"⟩ .render s).1 = .ok generation ∧
        generation.resolution.unbacked = ["a"] ∧ "a" ∈ generation.entryPoints.names := by
  intro g s
  have h : (g.perform ⟨"troute.ts"⟩ .check s).1 = .error (.unbacked ["a"]) := by decide +kernel
  obtain ⟨-, hrefused, -⟩ := perform_lenient g ⟨"troute.ts"⟩ .check s
  obtain ⟨-, generation, hrendered, hunbacked, hnames, -⟩ := hrefused ["a"] h
  exact ⟨h, generation, hrendered, hunbacked, hnames "a" List.mem_cons_self⟩

end ServerActions.Generator
