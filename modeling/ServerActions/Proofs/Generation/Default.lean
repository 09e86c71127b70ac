import ServerActions.DeclarationPath
import ServerActions.Proofs.FileTree.Passing
import ServerActions.Proofs.Generation.Commuting
import ServerActions.Settings.Document

namespace ServerActions

theorem Path.empty_join (p : Path) : (⟨""⟩ : Path).join p = p := by
  rw [join]
  split_ifs
  · rfl
  · rw [String.empty_append]
  · contradiction

theorem Path.join_of_isAbsolute {p q : Path} (h : q.isAbsolute = true) : p.join q = q :=
  if_pos h

theorem Path.join_ne {p q : Path} (hq : q.isAbsolute = false) (hp : p.text ≠ "") :
    p.join q ≠ q := by
  intro h
  obtain ⟨s, hs, -⟩ := join_text hq hp
  have hlength := congrArg List.length hs
  rw [h, List.length_append, List.length_cons] at hlength
  omega

namespace FileTree

variable {t u : FileTree} {p : Path} {l : Location} {text : String}

theorem Written.passes (h : t.Written u p text) (ht : t.get? l = none)
    (hu : (u.get? l).isSome = true) : t.Passes p l := by
  rw [h.get?_eq] at hu
  split_ifs at hu with hl hs habove
  · rw [hl]
    exact passes_target t p
  · rw [ht] at hs
    cases hs
  · obtain ⟨q, hq, hne, rfl⟩ := habove
    exact passes_target_ancestor hq hne
  · cases hu

end FileTree

theorem defaultDeclaration_apply (settings : Settings) (s : Session) :
    (defaultDeclaration ⟨""⟩ settings : StateM Session Path) s =
      (if s.tree.pathExists ⟨settings.sourceDir⟩ = true then
          Path.join ⟨settings.sourceDir⟩ settings.declarationName
        else settings.declarationName,
        s.logged [.probing ⟨settings.sourceDir⟩]) := by
  rw [defaultDeclaration, Path.empty_join, Path.empty_join, bind_apply]
  show (if s.tree.pathExists ⟨settings.sourceDir⟩ = true then _ else _ : StateM Session Path) _ = _
  split_ifs <;> rfl

def Settings.defaultIn (settings : Settings) (t : FileTree) : Path :=
  (runIn t (defaultDeclaration ⟨""⟩ settings)).1

theorem Settings.defaultIn_eq (settings : Settings) (t : FileTree) :
    settings.defaultIn t =
      if t.pathExists ⟨settings.sourceDir⟩ = true then
        Path.join ⟨settings.sourceDir⟩ settings.declarationName
      else settings.declarationName := by
  rw [defaultIn, runIn, defaultDeclaration_apply]

theorem Settings.defaultIn_eq_iff {settings : Settings} {t u : FileTree} (h : t.Extends u) :
    settings.defaultIn u = settings.defaultIn t ↔
      settings.declarationName.isAbsolute = true ∨
        (u.pathExists ⟨settings.sourceDir⟩ = true → t.pathExists ⟨settings.sourceDir⟩ = true) := by
  rw [defaultIn_eq, defaultIn_eq]
  by_cases ht : t.pathExists ⟨settings.sourceDir⟩ = true
  · simp [ht, h.pathExists ht]
  by_cases hu : u.pathExists ⟨settings.sourceDir⟩ = true
  · have hne : (⟨settings.sourceDir⟩ : Path).text ≠ "" := by
      obtain ⟨e, he⟩ := FileTree.pathExists_iff.mp hu
      obtain ⟨l, hl, -⟩ := FileTree.find_eq_ok_iff.mp he
      exact FileTree.text_ne_of_locate hl
    rw [if_pos hu, if_neg ht]
    cases ha : settings.declarationName.isAbsolute with
    | false => simp [ht, hu, Path.join_ne ha hne]
    | true => simp [Path.join_of_isAbsolute ha]
  · simp [ht, hu]

namespace Generator

open ActionsModule

def generateDefault (g : Generator) : StateM Session (Except Failure Generation) := do
  g.generate (← findDeclaration ⟨""⟩ none g.settings)

theorem generateDefault_apply (g : Generator) (s : Session) :
    g.generateDefault s = g.perform (g.settings.defaultIn s.tree) .generate
      (s.logged [.probing ⟨g.settings.sourceDir⟩]) := by
  rw [generateDefault, bind_apply, findDeclaration, defaultDeclaration_apply,
    Settings.defaultIn_eq, perform]

variable {g : Generator} {s : Session} {m : Generation}

theorem written_generateDefault (h : (g.generateDefault s).1 = .ok m) :
    m.output = outputPath g.settings (g.settings.defaultIn s.tree) ∧
      s.tree.Written (g.generateDefault s).2.tree m.output m.content := by
  rw [generateDefault_apply] at h ⊢
  obtain ⟨heval, hwritten⟩ := generate_eq_ok h
  obtain ⟨_, d, -, -, -, hm⟩ := evaluate_eq_ok_iff.mp heval
  exact ⟨by rw [hm], hwritten⟩

theorem exists_passes_of_pathExists {p : Path} (h : (g.generateDefault s).1 = .ok m)
    (ht : ¬ s.tree.pathExists p = true) (hu : (g.generateDefault s).2.tree.pathExists p = true) :
    ∃ l, s.tree.get? l = none ∧ s.tree.Passes p l ∧ s.tree.Passes m.output l := by
  obtain ⟨-, hwritten⟩ := written_generateDefault h
  obtain ⟨l, hpasses, hmissing, hsome⟩ := hwritten.within.passes_missing hu ht
  exact ⟨l, hmissing, hpasses, hwritten.passes hmissing hsome⟩

/-- The default declaration file is the same after the generation of its module, unless the source
directory is there only then.  This takes a place that was missing and that the ways to the source
directory and to the module have in common. -/
theorem defaultIn_generateDefault (h : (g.generateDefault s).1 = .ok m) :
    let source : Path := ⟨g.settings.sourceDir⟩
    let after := (g.generateDefault s).2.tree
    (g.settings.defaultIn after = g.settings.defaultIn s.tree ↔
      g.settings.declarationName.isAbsolute = true ∨
        (after.pathExists source = true → s.tree.pathExists source = true)) ∧
    (after.pathExists source = true → s.tree.pathExists source = true ∨
      ∃ l, s.tree.get? l = none ∧ s.tree.Passes source l ∧ s.tree.Passes m.output l) := by
  intro source after
  obtain ⟨-, hwritten⟩ := written_generateDefault h
  refine ⟨Settings.defaultIn_eq_iff hwritten.extends, fun hu => ?_⟩
  by_cases ht : s.tree.pathExists source = true
  · exact .inl ht
  · exact .inr (exists_passes_of_pathExists h ht hu)

theorem defaultIn_generateDefault_through :
    let g := ofSettings { outputDir := "src/../gen" }
    let s : Session := ⟨.holding "troute.ts" (importing "./x"), []⟩
    let after := (g.generateDefault s).2.tree
    ∃ m, (g.generateDefault s).1 = .ok m ∧
      (∃ l, s.tree.get? l = none ∧ s.tree.Passes ⟨"src"⟩ l ∧ s.tree.Passes m.output l) ∧
      g.settings.defaultIn after ≠ g.settings.defaultIn s.tree := by
  intro g s after
  have hrun : (g.generateDefault s).1.toBool = true ∧
      g.settings.declarationName.isAbsolute = false ∧
      s.tree.pathExists ⟨"src"⟩ = false ∧ after.pathExists ⟨"src"⟩ = true := by
    refine ⟨?_, ?_, ?_, ?_⟩ <;> decide +kernel
  obtain ⟨hok, hrelative, hmissing, hfound⟩ := hrun
  cases hm : (g.generateDefault s).1 with
  | error reason =>
    rw [hm] at hok
    cases hok
  | ok m =>
    obtain ⟨hiff, hplace⟩ := defaultIn_generateDefault hm
    have habsent : ¬ s.tree.pathExists ⟨"src"⟩ = true := by simp [hmissing]
    refine ⟨m, rfl, (hplace hfound).resolve_left habsent, fun he => ?_⟩
    rcases hiff.mp he with ha | hs
    · rw [hrelative] at ha
      cases ha
    · exact habsent (hs hfound)

def intoSource : Settings := { outputDir := "src" }

theorem generateDefault_intoSource :
    let g := ofSettings intoSource
    let s : Session := ⟨.holding "troute.ts" (importing "./x"), []⟩
    let first := g.generateDefault s
    Settings.parse "[generate]\noutput_dir = \"src\"\n" = .ok intoSource ∧
      first.1.toBool = true ∧ intoSource.defaultIn s.tree = ⟨"troute.ts"⟩ ∧
      intoSource.defaultIn first.2.tree = ⟨"src/troute.ts"⟩ ∧
      (g.generateDefault first.2).1 = .error (.declarationNotFound ⟨"src/troute.ts"⟩) := by
  refine ⟨?_, ?_, ?_, ?_, ?_⟩ <;> decide +kernel

theorem defaultIn_generateDefault_of_names {a b : String} {as bs : List String}
    (h : (g.generateDefault s).1 = .ok m) (hsource : Path.isAbsolute ⟨g.settings.sourceDir⟩ = false)
    (houtput : m.output.isAbsolute = false) (hs : Path.steps ⟨g.settings.sourceDir⟩ = a :: as)
    (ho : m.output.steps = b :: bs) (hne : a ≠ b)
    (hnames : ∀ step ∈ a :: as ++ b :: bs, FileTree.isDotStep step = false) :
    g.settings.defaultIn (g.generateDefault s).2.tree = g.settings.defaultIn s.tree := by
  obtain ⟨-, hwritten⟩ := written_generateDefault h
  refine (Settings.defaultIn_eq_iff hwritten.extends).mpr (.inr fun hu => ?_)
  by_contra ht
  obtain ⟨l, hmissing, hl, hl'⟩ := exists_passes_of_pathExists h ht hu
  rw [← hs, ← ho] at hnames
  rw [FileTree.eq_workingDirectory_of_passes hsource houtput hs ho hnames hne hl hl'] at hmissing
  have hd : s.tree.get? s.tree.workingDirectory = some .directory := s.tree.working_directory
  rw [hd] at hmissing
  cases hmissing

theorem defaultIn_generateDefault_initial {factory directive : String} {strict strict' : Bool}
    (hg : g = ⟨{ factory, directive, strict }, strict'⟩) (h : (g.generateDefault s).1 = .ok m) :
    g.settings.defaultIn (g.generateDefault s).2.tree = g.settings.defaultIn s.tree := by
  obtain ⟨ho, hwritten⟩ := written_generateDefault h
  by_cases ht : s.tree.pathExists ⟨g.settings.sourceDir⟩ = true
  · exact (Settings.defaultIn_eq_iff hwritten.extends).mpr (.inr fun _ => ht)
  · have hpath : m.output = ⟨".troute/actions.ts"⟩ := by
      rw [ho, Settings.defaultIn_eq, if_neg ht, hg]
      show outputPath {} (Settings.declarationName {}) = _
      decide +kernel
    have hsteps : m.output.steps = [".troute", "actions.ts"] := by rw [hpath]; decide +kernel
    have hrelative : m.output.isAbsolute = false := by rw [hpath]; decide +kernel
    subst hg
    exact @defaultIn_generateDefault_of_names _ s m "src" ".troute" [] ["actions.ts"] h
      (show Path.isAbsolute ⟨"src"⟩ = false by decide +kernel) hrelative
      (show Path.steps ⟨"src"⟩ = ["src"] by decide +kernel) hsteps (by decide) (by decide +kernel)

end Generator

end ServerActions
