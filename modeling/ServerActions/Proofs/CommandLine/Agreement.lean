import ServerActions.Proofs.CommandLine.Transactions

namespace ServerActions.CommandLine

structure Request where
  verbose : Bool
  config : Option Path
  path : Option Path
  lenient : Bool

inductive Mode
  | write
  | report
  | preview
  | check

namespace Request

variable [PatternEngine] (r : Request) (tree : FileTree)

def command : Mode → Command
  | .write => .generate r.path r.lenient false false
  | .report => .generate r.path r.lenient false true
  | .preview => .generate r.path r.lenient true false
  | .check => .check r.path r.lenient

def arguments (mode : Mode) : Arguments :=
  ⟨r.verbose, r.config, r.command mode⟩

def run (mode : Mode) : Except Failure Unit × Outcome × FileTree :=
  runArguments tree (r.arguments mode)

def events (mode : Mode) : List Event :=
  (runIn tree (r.arguments mode).execute).2.events

def outputPath : Except Failure Path :=
  (runIn tree (Settings.find r.config)).1.map fun settings =>
    ActionsModule.outputPath settings (runIn tree (findDeclaration ⟨""⟩ r.path settings)).1

def rendering : Except Failure Generation :=
  (r.arguments .preview).rendering tree

def renderingEvents : List Event :=
  (r.arguments .preview).renderingEvents tree

theorem runIn_produce (mode : Mode) :
    runIn tree (r.arguments mode).produce =
      let s : Session := Session.logged ⟨tree, []⟩ (r.renderingEvents tree)
      match r.rendering tree with
      | .error reason => (.error reason, s)
      | .ok g => (r.command mode).complete g s := by
  rw [Arguments.runIn_produce]
  cases mode <;> rfl

variable {r tree}

theorem outputPath_of_rendering {g : Generation} (h : r.rendering tree = .ok g) :
    r.outputPath tree = .ok g.output := by
  rw [rendering, Arguments.rendering_eq] at h
  rw [outputPath]
  have hconfig : (r.arguments .preview).config = r.config := rfl
  rw [hconfig] at h
  cases hs : (runIn tree (Settings.find r.config)).1 with
  | error reason =>
    rw [hs] at h
    cases h
  | ok settings =>
    rw [hs] at h
    cases hmake : Generator.make settings with
    | error reason =>
      simp only [hmake] at h
      cases h
    | ok generator =>
      simp only [hmake] at h
      obtain ⟨-, rfl⟩ := Generator.make_eq_ok_iff.mp hmake
      obtain ⟨content, d, -, -, -, rfl⟩ := Generator.evaluate_eq_ok_iff.mp h
      simp only [Except.map, Generator.settings_lenient]
      rfl

theorem arguments_rendering (r : Request) (tree : FileTree) (mode : Mode) :
    (r.arguments mode).rendering tree = r.rendering tree := by
  cases mode <;> rfl

theorem run_of_error {reason : Failure} (h : r.rendering tree = .error reason) (mode : Mode) :
    r.run tree mode =
      (.error reason,
        ⟨1, "", traceText r.verbose (r.renderingEvents tree) ++ warningLine reason.message⟩,
        tree) := by
  rw [run, runArguments_eq, runIn_produce, h]
  simp only [Session.events_logged]
  rfl

theorem run_preview {g : Generation} (h : r.rendering tree = .ok g) :
    r.run tree .preview =
      (.ok (), ⟨0, g.content, traceText r.verbose (r.renderingEvents tree) ++ warnings (.ok g)⟩,
        tree) := by
  have hproduce : runIn tree (r.arguments .preview).produce =
      (.ok g, Session.logged ⟨tree, []⟩ (r.renderingEvents tree)) := by
    rw [runIn_produce, h]
    rfl
  rw [run, runArguments_eq, hproduce]
  simp only [Session.events_logged]
  rfl

theorem run_fst_of_ok {g : Generation} (h : r.rendering tree = .ok g) (mode : Mode) :
    (r.run tree mode).1 = ((r.command mode).completion tree g).1.map fun _ => () := by
  rw [run, runArguments_fst, arguments_rendering, h]
  rfl

theorem check_code_eq_zero_iff {g : Generation} (h : r.rendering tree = .ok g) :
    (r.run tree .check).2.1.code = 0 ↔ tree.find g.output = .ok (.file g.content.toUTF8) := by
  have hcode : (r.run tree .check).2.1.code = 0 ↔ (r.run tree .check).1 = .ok () :=
    runArguments_code_eq_zero_iff tree _
  rw [hcode, run_fst_of_ok h, map_eq_ok_iff]
  constructor
  · rintro ⟨result, hc, -⟩
    exact (Generator.compared_eq_ok_iff.mp hc).1
  · intro hf
    exact ⟨g, Generator.compared_eq_ok_iff.mpr ⟨hf, rfl⟩, rfl⟩

theorem write_cases {g : Generation} (h : r.rendering tree = .ok g) :
    ((r.run tree .write).2.1.code = 0 ∧
      tree.Written (r.run tree .write).2.2 g.output g.content) ∨
    ∃ q cause, (runIn tree (writeModule g.output g.content)).1 = .error (.access q cause) ∧
      (r.run tree .write).1 = .error (.access q cause) ∧ (r.run tree .write).2.1.code = 1 := by
  have hend : Ending _ tree _ _ := runArguments_ending tree (a := r.arguments .write) rfl
  have hrender : (r.arguments .write).rendering tree = .ok g := h
  rw [run]
  rcases runArguments_outcome tree (r.arguments .write) with
    ⟨hcode, hr⟩ | ⟨hcode, -, reason, hr⟩
  · rw [hr] at hend
    cases hend with
    | written hg hwritten =>
      obtain rfl := Except.ok.inj (hrender.symm.trans hg)
      exact .inl ⟨hcode, hwritten⟩
  · rw [hr] at hend ⊢
    cases hend with
    | unrendered hg _ =>
      rw [hrender] at hg
      cases hg
    | unwritten hg hwrite _ =>
      obtain rfl := Except.ok.inj (hrender.symm.trans hg)
      exact .inr ⟨_, _, hwrite, rfl, hcode⟩

theorem err_of_code_eq_zero {g : Generation} (h : r.rendering tree = .ok g) {mode : Mode}
    (hcode : (r.run tree mode).2.1.code = 0) :
    (r.run tree mode).2.1.err =
      traceText r.verbose (r.events tree mode) ++ warnings (.ok g) := by
  have hresult : (r.run tree mode).1 = .ok () := (runArguments_code_eq_zero_iff tree _).mp hcode
  rw [run_fst_of_ok h] at hresult
  obtain ⟨g', hg', -⟩ := map_eq_ok_iff.mp hresult
  obtain rfl := Command.completion_eq_ok hg'
  have hproduce : (runIn tree (r.arguments mode).produce).1 = .ok g' := by
    rw [Arguments.produce_fst, arguments_rendering, h]
    exact hg'
  rw [events, Arguments.events_execute, run, runArguments_eq]
  dsimp only
  rw [hproduce]
  rfl

end Request

/-- Runs for one declaration file agree: where the module is printed, it is also what is written and
what is compared with, and the warnings are the same; where it is not, no run goes further. -/
theorem modes_agree [PatternEngine] (tree : FileTree) (r : Request) :
    (∀ text err, (r.run tree .preview).2.1 = ⟨0, text, err⟩ →
      ∃ output, r.outputPath tree = .ok output ∧
        (((r.run tree .write).2.1.code = 0 ∧
            (r.run tree .write).2.2.find output = .ok (.file text.toUTF8)) ∨
          ∃ q cause, (runIn tree (writeModule output text)).1 = .error (.access q cause) ∧
            (r.run tree .write).1 = .error (.access q cause) ∧
            (r.run tree .write).2.1.code = 1) ∧
        ((r.run tree .check).2.1.code = 0 ↔ tree.find output = .ok (.file text.toUTF8)) ∧
        ∃ warnings, ∀ mode, (r.run tree mode).2.1.code = 0 →
          (r.run tree mode).2.1.err = traceText r.verbose (r.events tree mode) ++ warnings ∧
          (r.verbose = false → (r.run tree mode).2.1.err = warnings)) ∧
    ∀ reason, (r.run tree .preview).1 = .error reason →
      (r.run tree .preview).2.1.code = 1 ∧ (r.run tree .preview).2.2 = tree ∧
        r.run tree .write = r.run tree .preview ∧ r.run tree .check = r.run tree .preview := by
  cases h : r.rendering tree with
  | error reason =>
    have hrun := Request.run_of_error h
    refine ⟨?_, ?_⟩
    · intro text err ho
      rw [hrun] at ho
      cases ho
    · intro reason' hr
      simp only [hrun, and_self]
  | ok g =>
    have hpreview := Request.run_preview h
    refine ⟨?_, ?_⟩
    · intro text err ho
      rw [hpreview] at ho
      obtain rfl : g.content = text := congrArg Outcome.out ho
      refine ⟨g.output, Request.outputPath_of_rendering h, ?_, ?_, warnings (.ok g), ?_⟩
      · rcases Request.write_cases h with ⟨hcode, hwritten⟩ | hfail
        · exact .inl ⟨hcode, hwritten.find⟩
        · exact .inr hfail
      · exact Request.check_code_eq_zero_iff h
      · intro mode hcode
        have herr := Request.err_of_code_eq_zero h hcode
        refine ⟨herr, fun hv => ?_⟩
        rw [herr, hv]
        exact String.empty_append
    · intro reason hr
      rw [hpreview] at hr
      cases hr

end ServerActions.CommandLine
