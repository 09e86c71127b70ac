import Mathlib.Tactic.SplitIfs
import ServerActions.Generation
import ServerActions.Proofs.Declaration.Layout
import ServerActions.Proofs.FileTree.Reading
import ServerActions.Proofs.Workspace.Sessions

namespace ServerActions.Generator

open Declaration

@[simp] theorem settings_lenient (g : Generator) (allow : Bool) :
    (g.lenient allow).settings = g.settings := by
  cases allow <;> rfl

@[simp] theorem strict_lenient (g : Generator) (allow : Bool) :
    (g.lenient allow).strict = (g.strict && !allow) := by
  cases allow <;> simp [lenient]

theorem make_eq_ok_iff [PatternEngine] {settings : Settings} {g : Generator} :
    make settings = .ok g ↔ PatternEngine.Compiles settings.factory ∧ g = ofSettings settings := by
  rw [make]
  split_ifs with h <;> simp [h, eq_comm]

theorem make_eq_error [PatternEngine] {settings : Settings}
    (h : ¬ PatternEngine.Compiles settings.factory) :
    make settings = .error (.pattern PatternEngine.sizeLimit) :=
  if_neg h

def failureEvents {α : Type} : Except Failure α → List Event
  | .error reason => [.failed reason]
  | .ok _ => []

theorem logFailure_apply {α : Type} (outcome : Except Failure α) (s : Session) :
    (logFailure outcome : StateM Session Unit) s =
      ((), s.logged (failureEvents outcome)) := by
  cases outcome with
  | error reason => rfl
  | ok a =>
    rw [failureEvents, Session.logged_nil]
    rfl

theorem render_apply (g : Generator) (path : Path) (s : Session) :
    (g.render path : StateM Session (Except Failure Generation)) s =
      let result := g.evaluate path (s.tree.readText path)
      (result.2, s.logged ([.reading path] ++ result.1 ++ failureEvents result.2)) := by
  have hr : (g.render path : StateM Session (Except Failure Generation)) s =
      let result := g.evaluate path (s.tree.readText path)
      let s₁ := s.logged [.reading path]
      let s₂ := ((Workspace.logAll result.1 : StateM Session Unit) s₁).2
      (result.2, ((logFailure result.2 : StateM Session Unit) s₂).2) := rfl
  rw [hr]
  simp only [Session.logAll_apply, logFailure_apply, Session.logged_logged]

theorem render_fst (g : Generator) (path : Path) (s : Session) :
    ((g.render path : StateM Session (Except Failure Generation)) s).1 =
      (g.evaluate path (s.tree.readText path)).2 := by
  rw [render_apply]

theorem produce_eq_ok_iff {g : Generator} {path : Path} {d : Declaration}
    {generation : Generation} :
    (g.produce path d).2 = .ok generation ↔
      (g.strict = true → (resolve d.imports d.entryPoints).isFullyBacked = true) ∧
        generation =
          { declaration := path
            output := ActionsModule.outputPath g.settings path
            entryPoints := d.entryPoints
            resolution := resolve d.imports d.entryPoints
            extraCalls := d.extraCalls
            content := ActionsModule.render g.settings.directive
              (resolve d.imports d.entryPoints).imports d.entryPoints } := by
  rw [produce]
  split_ifs with hrefused
  · rw [Bool.and_eq_true, Bool.not_eq_true'] at hrefused
    constructor
    · intro h
      cases h
    · rintro ⟨hbacked, -⟩
      rw [hbacked hrefused.1] at hrefused
      cases hrefused.2
  · have hbacked : g.strict = true → (resolve d.imports d.entryPoints).isFullyBacked = true := by
      intro hstrict
      simpa [hstrict] using hrefused
    constructor
    · intro h
      exact ⟨hbacked, (Except.ok.inj h).symm⟩
    · rintro ⟨-, rfl⟩
      rfl

theorem evaluate_ok_of_read {g : Generator} {content : String} {d : Declaration}
    (h : Declaration.read? g.settings.factory content = some d) (path : Path) :
    (g.evaluate path (.ok content)).2 = (g.produce path d).2 := by
  rw [evaluate, h]

theorem evaluate_eq_ok_iff {g : Generator} {path : Path} {source : Except AccessError String}
    {generation : Generation} :
    (g.evaluate path source).2 = .ok generation ↔
      ∃ content d, source = .ok content ∧
        Declaration.read? g.settings.factory content = some d ∧
        (g.strict = true → (resolve d.imports d.entryPoints).isFullyBacked = true) ∧
        generation =
          { declaration := path
            output := ActionsModule.outputPath g.settings path
            entryPoints := d.entryPoints
            resolution := resolve d.imports d.entryPoints
            extraCalls := d.extraCalls
            content := ActionsModule.render g.settings.directive
              (resolve d.imports d.entryPoints).imports d.entryPoints } := by
  cases source with
  | error cause =>
    have hn : ∃ reason, (g.evaluate path (.error cause)).2 = .error reason := by
      cases cause <;> exact ⟨_, rfl⟩
    obtain ⟨reason, hr⟩ := hn
    rw [hr]
    simp
  | ok content =>
    cases hd : Declaration.read? g.settings.factory content with
    | none => simp [evaluate, hd]
    | some d =>
      rw [evaluate_ok_of_read hd, produce_eq_ok_iff]
      constructor
      · intro h
        exact ⟨content, d, rfl, hd, h⟩
      · rintro ⟨content', d', hc, hd', h⟩
        obtain rfl := Except.ok.inj hc
        obtain rfl := Option.some.inj (hd.symm.trans hd')
        exact h

/-- From a text with at least one call, whatever its layout, exactly the bindings and the calls that
it is made of are read, and every other layout of them renders to the same. -/
theorem render_layout {factory content : String} {bindings : List ImportBinding}
    {first : EntryPoints} {others : List EntryPoints} (hfactory : IsFactory factory)
    (h : Layout factory bindings (first :: others) content.toList) :
    Declaration.read? factory content = some ⟨bindings, first, others.length⟩ ∧
    ∀ (g : Generator) (path : Path) (s s' : Session) (content' : String),
      g.settings.factory = factory →
      Layout factory bindings (first :: others) content'.toList →
      s.tree.readText path = .ok content → s'.tree.readText path = .ok content' →
      ((g.render path : StateM Session (Except Failure Generation)) s').1 =
        ((g.render path : StateM Session (Except Failure Generation)) s).1 := by
  refine ⟨read_layout hfactory h, ?_⟩
  rintro g path s s' content' rfl h' hread hread'
  rw [render_fst, render_fst, hread, hread']
  simp only [evaluate, read_layout hfactory h, read_layout hfactory h']

theorem render_layout_loosely :
    let render (content : String) : Except Failure Generation :=
      (((ofSettings {}).render ⟨"troute.ts"⟩ : StateM Session (Except Failure Generation))
        ⟨.holding "troute.ts" content, []⟩).1
    IsFactory "createTroute" ∧
      Layout "createTroute" [⟨["a"], "y"⟩] [⟨["a"]⟩] loosely.toList ∧
      Declaration.read? "createTroute" loosely = some ⟨[⟨["a"], "y"⟩], ⟨["a"]⟩, 0⟩ ∧
      render tightly = render loosely := by
  intro render
  have hfactory : IsFactory "createTroute" := by
    constructor <;> decide +kernel
  obtain ⟨hread, hsame⟩ := render_layout hfactory layout_loosely
  have hloosely : (FileTree.holding "troute.ts" loosely).readText ⟨"troute.ts"⟩ = .ok loosely := by
    apply FileTree.readText_holding <;> decide
  have htightly : (FileTree.holding "troute.ts" tightly).readText ⟨"troute.ts"⟩ = .ok tightly := by
    apply FileTree.readText_holding <;> decide
  exact ⟨hfactory, layout_loosely, hread,
    hsame (ofSettings {}) ⟨"troute.ts"⟩ ⟨_, []⟩ ⟨_, []⟩ tightly rfl layout_tightly hloosely htightly⟩

end ServerActions.Generator
