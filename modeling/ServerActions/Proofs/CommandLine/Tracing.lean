import ServerActions.Proofs.CommandLine.SettingsFile
import ServerActions.Proofs.CommandLine.Transactions
import ServerActions.Proofs.CommandLine.Values
import ServerActions.Proofs.Generation.Reached
import ServerActions.Proofs.Settings.Spellings

namespace ServerActions

theorem Settings.find_events (config : Option Path) (tree : FileTree) :
    (runIn tree (Settings.find config)).2.events = [] := by
  cases config with
  | some path => rfl
  | none =>
    rw [Settings.find, loadOrDefault, runIn, bind_apply]
    show ((if tree.pathExists fileName = true then load fileName else pure (.ok {}) :
      StateM Session (Except Failure Settings)) ⟨tree, []⟩).2.events = []
    split_ifs <;> rfl

theorem stagesOf_findDeclaration {path : Option Path} (hpath : path ≠ some ⟨""⟩)
    (settings : Settings) (tree : FileTree) :
    stagesOf (runIn tree (findDeclaration ⟨""⟩ path settings)).2.events =
      if path = none then [.resolvingPath] else [] := by
  cases path with
  | none =>
    rw [findDeclaration, runIn, defaultDeclaration_apply]
    rfl
  | some p =>
    obtain ⟨text⟩ := p
    have htext : text ≠ "" := by
      rintro rfl
      exact hpath rfl
    rw [findDeclaration, if_neg htext]
    rfl

theorem length_le_utf8ByteSize (cs : List Char) : cs.length ≤ (String.ofList cs).utf8ByteSize := by
  induction cs with
  | nil => exact Nat.zero_le _
  | cons c cs ih =>
    have hc := c.utf8Size_pos
    rw [String.ofList_cons, String.utf8ByteSize_append, String.utf8ByteSize_singleton,
      List.length_cons]
    omega

theorem not_compiles_of_length {cs : List Char} (h : 327680 < cs.length) :
    ¬ PatternEngine.Compiles (String.ofList cs) := by
  intro hcompiles
  have hle : 32 * (String.ofList cs).utf8ByteSize ≤ 10 * 1024 * 1024 := hcompiles
  have hsize := length_le_utf8ByteSize cs
  omega

namespace CommandLine

open Declaration Generator

def openingStages (path : Option Path) : List Stage :=
  [.idle] ++ (if path = none then [.resolvingPath] else []) ++ [.reading]

theorem mem_openingStages {path : Option Path} {stage : Stage} :
    stage ∈ openingStages path ↔
      stage = .idle ∨ (stage = .resolvingPath ∧ path = none) ∨ stage = .reading := by
  by_cases hp : path = none <;> simp [openingStages, hp]

theorem openingStages_sublist (path : Option Path) :
    (openingStages path).Sublist [.idle, .resolvingPath, .reading] := by
  rw [openingStages]
  split_ifs <;> decide

def endingStages (tree : FileTree) (dryRun : Bool) : Except Failure Generation → List Stage
  | .error _ => [.failed]
  | .ok m =>
    if dryRun then []
    else
      match (runIn tree (writeModule m.output m.content)).1 with
      | .ok _ => [.writing, .done]
      | .error _ => [.writing, .failed]

theorem mem_endingStages {tree : FileTree} {dryRun : Bool}
    {outcome : Except Failure Generation} {stage : Stage} :
    stage ∈ endingStages tree dryRun outcome ↔
      (stage = .writing ∧ dryRun = false ∧ ∃ m, outcome = .ok m) ∨
      (stage = .done ∧ dryRun = false ∧
        ∃ m, outcome = .ok m ∧ (runIn tree (writeModule m.output m.content)).1 = .ok ()) ∨
      (stage = .failed ∧ ((∃ reason, outcome = .error reason) ∨ dryRun = false ∧
        ∃ m reason, outcome = .ok m ∧
          (runIn tree (writeModule m.output m.content)).1 = .error reason)) := by
  cases outcome with
  | error reason => simp [endingStages]
  | ok m =>
    cases dryRun with
    | true => simp [endingStages]
    | false =>
      simp only [endingStages, Bool.false_eq_true, if_false]
      cases hw : (runIn tree (writeModule m.output m.content)).1 with
      | ok _ => simp [hw]
      | error reason => simp [hw]

theorem endingStages_sublist (tree : FileTree) (dryRun : Bool)
    (outcome : Except Failure Generation) :
    (endingStages tree dryRun outcome).Sublist [.writing, .done, .failed] := by
  cases outcome with
  | error reason => simp [endingStages]
  | ok m =>
    simp only [endingStages]
    split_ifs
    · simp
    · split <;> simp

theorem notMem_of_sublist {stages all part : List Stage} {stage : Stage} (h : stages.Sublist all)
    (hs : stage ∈ part) (hpart : ∀ s ∈ part, s ∉ all) : stage ∉ stages :=
  fun hm => hpart stage hs (h.subset hm)

section Traces

variable [PatternEngine] {a : Arguments} {settings : Settings} {tree : FileTree}

def Arguments.logged (a : Arguments) (tree : FileTree) : List Event :=
  (runIn tree a.execute).2.events

def Arguments.source (a : Arguments) (settings : Settings) (tree : FileTree) : Path :=
  (runIn tree (findDeclaration ⟨""⟩ a.command.path settings)).1

def Arguments.generator (a : Arguments) (settings : Settings) : Generator :=
  (Generator.ofSettings settings).lenient a.command.lenient

theorem Arguments.rendering_of_settings
    (h : (runIn tree (Settings.find a.config)).1 = .ok settings)
    (hcompiles : PatternEngine.Compiles settings.factory) :
    a.rendering tree =
      ((a.generator settings).evaluate (a.source settings tree)
        (tree.readText (a.source settings tree))).2 := by
  rw [rendering_eq, h]
  simp only [make_eq_ok_iff.mpr ⟨hcompiles, rfl⟩]
  rfl

theorem Arguments.rendering_of_refused
    (h : (runIn tree (Settings.find a.config)).1 = .ok settings)
    (hrefused : ¬ PatternEngine.Compiles settings.factory) :
    a.rendering tree = .error (.pattern PatternEngine.sizeLimit) := by
  rw [rendering_eq, h]
  simp only [make_eq_error hrefused]

theorem Arguments.renderingEvents_eq
    (h : (runIn tree (Settings.find a.config)).1 = .ok settings) :
    a.renderingEvents tree =
      [.started] ++ (runIn tree (findDeclaration ⟨""⟩ a.command.path settings)).2.events ++
        if PatternEngine.Compiles settings.factory then
          let source := a.source settings tree
          let result := (a.generator settings).evaluate source (tree.readText source)
          [.reading source] ++ result.1 ++ failureEvents result.2
        else [] := by
  have hfind := (Settings.observes_find a.config).bind a.observes_prepareWith
  rw [renderingEvents, prepare, (observes_log _).runIn_bind_events fun _ => hfind,
    (Settings.observes_find a.config).runIn_bind_events a.observes_prepareWith, h,
    Settings.find_events, List.nil_append]
  by_cases hcompiles : PatternEngine.Compiles settings.factory
  · have hrender (g : Generator) (source : Path) : (runIn tree (g.render source)).2.events =
        [.reading source] ++ (g.evaluate source (tree.readText source)).1 ++
          failureEvents (g.evaluate source (tree.readText source)).2 := by
      rw [runIn, render_apply]
      exact Session.events_logged _ _
    simp only [prepareWith, make_eq_ok_iff.mpr ⟨hcompiles, rfl⟩, if_pos hcompiles]
    rw [(observes_findDeclaration _ _ _).runIn_bind_events fun source => observes_render _ source,
      hrender, ← List.append_assoc]
    rfl
  · simp only [prepareWith, make_eq_error hcompiles, if_neg hcompiles]
    rw [(observes_findDeclaration _ _ _).runIn_bind_events fun _ => observes_pure _,
      ← List.append_assoc]
    rfl

theorem Arguments.stagesOf_renderingEvents (hpath : a.command.path ≠ some ⟨""⟩)
    (h : (runIn tree (Settings.find a.config)).1 = .ok settings)
    (hcompiles : PatternEngine.Compiles settings.factory) :
    stagesOf (a.renderingEvents tree) =
      openingStages a.command.path ++ reached (a.rendering tree) ++
        stagesOf (failureEvents (a.rendering tree)) := by
  simp only [renderingEvents_eq h, if_pos hcompiles, stagesOf_append, stagesOf_evaluate,
    ← rendering_of_settings h hcompiles, stagesOf_findDeclaration hpath settings tree]
  simp only [openingStages, List.append_assoc]
  rfl

theorem Arguments.stagesOf_renderingEvents_of_refused (hpath : a.command.path ≠ some ⟨""⟩)
    (h : (runIn tree (Settings.find a.config)).1 = .ok settings)
    (hrefused : ¬ PatternEngine.Compiles settings.factory) :
    stagesOf (a.renderingEvents tree) =
      [.idle] ++ if a.command.path = none then [.resolvingPath] else [] := by
  rw [renderingEvents_eq h, if_neg hrefused, List.append_nil, stagesOf_append,
    stagesOf_findDeclaration hpath settings tree]
  rfl

theorem Arguments.logged_eq (a : Arguments) (tree : FileTree) :
    a.logged tree =
      a.renderingEvents tree ++
        match a.rendering tree with
        | .error _ => []
        | .ok m => (a.command.completion tree m).2 :=
  (a.events_execute tree).trans (a.events_produce tree)

theorem Arguments.stagesOf_logged {path : Option Path} {lenient dryRun json : Bool}
    (hc : a.command = .generate path lenient dryRun json) (hpath : path ≠ some ⟨""⟩)
    (h : (runIn tree (Settings.find a.config)).1 = .ok settings)
    (hcompiles : PatternEngine.Compiles settings.factory) :
    stagesOf (a.logged tree) =
      openingStages path ++ reached (a.rendering tree) ++
        endingStages tree dryRun (a.rendering tree) := by
  have hrendering := a.stagesOf_renderingEvents (by rwa [hc]) h hcompiles
  rw [show a.command.path = path by rw [hc]; rfl] at hrendering
  rw [logged_eq, stagesOf_append, hrendering, List.append_assoc _ (stagesOf _)]
  refine congrArg (openingStages path ++ reached (a.rendering tree) ++ ·) ?_
  cases a.rendering tree with
  | error reason => rfl
  | ok m =>
    cases dryRun with
    | true => rw [hc]; rfl
    | false =>
      simp only [hc, Command.completion, endingStages]
      cases (runIn tree (writeModule m.output m.content)).1 <;> rfl

theorem runArguments_err (tree : FileTree) (a : Arguments) :
    (runArguments tree a).2.1.err =
      traceText a.verbose (a.logged tree) ++ warnings (runIn tree a.produce).1 := by
  rw [runArguments_eq, Arguments.logged, Arguments.events_execute]

theorem runArguments_err_of_error {reason : Failure}
    (h : (runArguments tree a).1 = .error reason) :
    (runArguments tree a).2.1.err =
      traceText a.verbose (a.logged tree) ++ warningLine reason.message := by
  rw [runArguments_eq] at h
  dsimp only at h
  rw [runArguments_err]
  cases hproduce : (runIn tree a.produce).1 with
  | ok m =>
    rw [hproduce] at h
    cases h
  | error reason' =>
    rw [hproduce] at h
    obtain rfl := Except.error.inj h
    rfl

theorem runArguments_generate_error_iff {path : Option Path} {lenient dryRun json : Bool}
    (hc : a.command = .generate path lenient dryRun json) :
    (∃ reason, (runArguments tree a).1 = .error reason) ↔
      (∃ reason, a.rendering tree = .error reason) ∨ dryRun = false ∧
        ∃ m reason, a.rendering tree = .ok m ∧
          (runIn tree (writeModule m.output m.content)).1 = .error reason := by
  rw [runArguments_fst]
  cases hr : a.rendering tree with
  | error reason => simp
  | ok m =>
    cases dryRun with
    | true => simp [hc, Command.completion, Except.map]
    | false =>
      simp only [hc, Command.completion]
      cases hw : (runIn tree (writeModule m.output m.content)).1 with
      | ok _ => simp [hw, Except.map]
      | error reason => simp [hw, Except.map]

theorem Arguments.logged_of_error {path : Option Path} {lenient dryRun json : Bool}
    {reason : Failure} (hc : a.command = .generate path lenient dryRun json)
    (h : (runIn tree (Settings.find a.config)).1 = .ok settings)
    (hcompiles : PatternEngine.Compiles settings.factory)
    (hr : (runArguments tree a).1 = .error reason) :
    ∃ events, a.logged tree = events ++ [.failed reason] := by
  rw [runArguments_fst] at hr
  rw [logged_eq]
  cases ho : a.rendering tree with
  | error reason' =>
    rw [ho] at hr
    obtain rfl := Except.error.inj hr
    simp only [renderingEvents_eq h, if_pos hcompiles, ← rendering_of_settings h hcompiles, ho,
      List.append_nil, failureEvents, ← List.append_assoc]
    exact ⟨_, rfl⟩
  | ok m =>
    simp only [ho, hc, Command.completion] at hr ⊢
    cases dryRun with
    | true => cases hr
    | false =>
      cases hw : (runIn tree (writeModule m.output m.content)).1 with
      | ok _ =>
        simp only [hw] at hr
        cases hr
      | error reason' =>
        simp only [hw] at hr ⊢
        obtain rfl := Except.error.inj hr
        exact ⟨a.renderingEvents tree ++ [.writing m.output], by simp [writingEvents]⟩

/-- What is told by the stages of a run that generates, and how the run ends if it fails. -/
structure Traces (a : Arguments) (settings : Settings) (tree : FileTree) (dryRun : Bool)
    (stages : List Stage) (outcome : Outcome) : Prop where
  inOrder : stages.Sublist Stage.order
  idle : .idle ∈ stages
  resolvingPath : .resolvingPath ∈ stages ↔ a.command.path = none
  reading : .reading ∈ stages
  extracting : .extracting ∈ stages ↔
    ∃ text : String, tree.find (a.source settings tree) = .ok (.file text.toUTF8)
  filtering : .filtering ∈ stages ↔
    ∃ text : String, tree.find (a.source settings tree) = .ok (.file text.toUTF8) ∧
      ∃ c : FactoryCall, c.text settings.factory <:+: text.toList
  synthesizing : .synthesizing ∈ stages ↔ .filtering ∈ stages ∧
    (a.command.lenient = true ∨ settings.strict = false ∨ ∃ (text : String) (d : Declaration),
      tree.find (a.source settings tree) = .ok (.file text.toUTF8) ∧
        Declares settings.factory text.toList d ∧
        ∀ n ∈ d.entryPoints.names, ∃ i ∈ d.imports, n ∈ i.names)
  writing : .writing ∈ stages ↔ .synthesizing ∈ stages ∧ dryRun = false
  done : .done ∈ stages ↔ .writing ∈ stages ∧
    ∃ m, a.rendering tree = .ok m ∧ (runIn tree (writeModule m.output m.content)).1 = .ok ()
  failed : .failed ∈ stages ↔ outcome.code = 1
  shown : a.verbose = true → ∃ warnings,
    outcome.err = String.join ((a.logged tree).map Event.line) ++ warnings
  ending : outcome.code = 1 → ∃ events reason, a.logged tree = events ++ [.failed reason] ∧
    .failed ∉ stagesOf events ∧ (a.verbose = true →
      outcome.err = String.join (events.map Event.line) ++
        ("DEBUG Generation failed stage=failed error=" ++ reason.message ++ "\n") ++
        ("[WARN] " ++ reason.message ++ "\n"))

section Generating

variable {path : Option Path} {lenient dryRun json : Bool}
  (hc : a.command = .generate path lenient dryRun json) (hpath : path ≠ some ⟨""⟩)
  (h : (runIn tree (Settings.find a.config)).1 = .ok settings)
  (hcompiles : PatternEngine.Compiles settings.factory)

include hc hpath h hcompiles

theorem stagesOf_logged_inOrder : (stagesOf (a.logged tree)).Sublist Stage.order := by
  rw [a.stagesOf_logged hc hpath h hcompiles]
  exact ((openingStages_sublist _).append (reached_sublist _)).append (endingStages_sublist _ _ _)

theorem mem_stagesOf_logged {stage : Stage} :
    stage ∈ stagesOf (a.logged tree) ↔
      stage ∈ openingStages path ∨ stage ∈ reached (a.rendering tree) ∨
        stage ∈ endingStages tree dryRun (a.rendering tree) := by
  rw [a.stagesOf_logged hc hpath h hcompiles, List.mem_append, List.mem_append, or_assoc]

-- no stage is in two of the three parts, so each is looked for in the part that can have it

theorem opening_mem_stagesOf_logged {stage : Stage}
    (hs : stage ∈ [.idle, .resolvingPath, .reading]) :
    stage ∈ stagesOf (a.logged tree) ↔ stage ∈ openingStages path := by
  have hreached : stage ∉ reached (a.rendering tree) :=
    notMem_of_sublist (reached_sublist _) hs (by decide)
  have hending : stage ∉ endingStages tree dryRun (a.rendering tree) :=
    notMem_of_sublist (endingStages_sublist _ _ _) hs (by decide)
  rw [mem_stagesOf_logged hc hpath h hcompiles]
  simp [hreached, hending]

theorem reached_mem_stagesOf_logged {stage : Stage}
    (hs : stage ∈ [.extracting, .filtering, .synthesizing]) :
    stage ∈ stagesOf (a.logged tree) ↔ stage ∈ reached (a.rendering tree) := by
  have hopening : stage ∉ openingStages path :=
    notMem_of_sublist (openingStages_sublist _) hs (by decide)
  have hending : stage ∉ endingStages tree dryRun (a.rendering tree) :=
    notMem_of_sublist (endingStages_sublist _ _ _) hs (by decide)
  rw [mem_stagesOf_logged hc hpath h hcompiles]
  simp [hopening, hending]

theorem ending_mem_stagesOf_logged {stage : Stage} (hs : stage ∈ [.writing, .done, .failed]) :
    stage ∈ stagesOf (a.logged tree) ↔
      stage ∈ endingStages tree dryRun (a.rendering tree) := by
  have hopening : stage ∉ openingStages path :=
    notMem_of_sublist (openingStages_sublist _) hs (by decide)
  have hreached : stage ∉ reached (a.rendering tree) :=
    notMem_of_sublist (reached_sublist _) hs (by decide)
  rw [mem_stagesOf_logged hc hpath h hcompiles]
  simp [hopening, hreached]

theorem failed_mem_stagesOf_logged :
    .failed ∈ stagesOf (a.logged tree) ↔ (runArguments tree a).2.1.code = 1 := by
  have hfailed : .failed ∈ stagesOf (a.logged tree) ↔
      ∃ reason, (runArguments tree a).1 = .error reason := by
    rw [ending_mem_stagesOf_logged hc hpath h hcompiles (by decide),
      runArguments_generate_error_iff hc]
    simp [mem_endingStages]
  rw [hfailed]
  rcases runArguments_outcome tree a with ⟨hcode, hr⟩ | ⟨hcode, -, reason, hr⟩
  · simp [hcode, hr]
  · simp [hcode, hr]

theorem logged_of_code (hcode : (runArguments tree a).2.1.code = 1) :
    ∃ events reason, a.logged tree = events ++ [.failed reason] ∧
      .failed ∉ stagesOf events ∧ (a.verbose = true →
        (runArguments tree a).2.1.err = String.join (events.map Event.line) ++
          ("DEBUG Generation failed stage=failed error=" ++ reason.message ++ "\n") ++
          ("[WARN] " ++ reason.message ++ "\n")) := by
  rcases runArguments_outcome tree a with ⟨hcode', -⟩ | ⟨-, -, reason, hr⟩
  · rw [hcode] at hcode'
    cases hcode'
  obtain ⟨events, he⟩ := Arguments.logged_of_error hc h hcompiles hr
  refine ⟨events, reason, he, ?_, fun hverbose => ?_⟩
  -- the failure at the end is the only one since no stage is entered twice
  · have hnodup : (stagesOf (a.logged tree)).Nodup :=
      (stagesOf_logged_inOrder hc hpath h hcompiles).nodup (by decide)
    rw [he, stagesOf_append, List.nodup_append] at hnodup
    exact fun hm => hnodup.2.2 _ hm _ List.mem_cons_self rfl
  · rw [runArguments_err_of_error hr, hverbose, he, traceText_append, ← Event.line_failed]
    simp [traceText, warningLine]

theorem traces_generate :
    Traces a settings tree dryRun (stagesOf (a.logged tree)) (runArguments tree a).2.1 := by
  have hrenders : Renders (a.generator settings) tree (a.source settings tree)
      (a.rendering tree) := by
    rw [a.rendering_of_settings h hcompiles]
    exact evaluate_renders _ _ _
  have hsettings : (a.generator settings).settings = settings := settings_lenient _ _
  have hstrict : (a.generator settings).strict = false ↔
      lenient = true ∨ settings.strict = false := by
    rw [Arguments.generator, strict_lenient, hc]
    cases lenient <;> simp [Command.lenient, ofSettings]
  have hopening {stage : Stage} (hs : stage ∈ [.idle, .resolvingPath, .reading]) :=
    opening_mem_stagesOf_logged hc hpath h hcompiles hs
  have hfiltering : .filtering ∈ stagesOf (a.logged tree) ↔
      .filtering ∈ reached (a.rendering tree) :=
    reached_mem_stagesOf_logged hc hpath h hcompiles (by decide)
  have hsynthesizing : .synthesizing ∈ stagesOf (a.logged tree) ↔
      .synthesizing ∈ reached (a.rendering tree) :=
    reached_mem_stagesOf_logged hc hpath h hcompiles (by decide)
  have hwriting : .writing ∈ stagesOf (a.logged tree) ↔
      dryRun = false ∧ ∃ m, a.rendering tree = .ok m := by
    rw [ending_mem_stagesOf_logged hc hpath h hcompiles (by decide)]
    simp [mem_endingStages]
  constructor
  case inOrder => exact stagesOf_logged_inOrder hc hpath h hcompiles
  case idle => exact (hopening (by decide)).mpr (mem_openingStages.mpr (.inl rfl))
  case resolvingPath =>
    rw [hopening (by decide), mem_openingStages, hc]
    simp [Command.path]
  case reading => exact (hopening (by decide)).mpr (mem_openingStages.mpr (.inr (.inr rfl)))
  case extracting =>
    rw [reached_mem_stagesOf_logged hc hpath h hcompiles (by decide), hrenders.extracting_iff]
  case filtering => rw [hfiltering, hrenders.filtering_iff, hsettings]
  case synthesizing =>
    rw [hsynthesizing, hrenders.synthesizing_iff, hfiltering, hstrict, hsettings, or_assoc, hc]
    rfl
  case writing => rw [hwriting, hsynthesizing, synthesizing_mem_reached_iff, and_comm]
  case done =>
    have hdone : .done ∈ stagesOf (a.logged tree) ↔ dryRun = false ∧
        ∃ m, a.rendering tree = .ok m ∧
          (runIn tree (writeModule m.output m.content)).1 = .ok () := by
      rw [ending_mem_stagesOf_logged hc hpath h hcompiles (by decide)]
      simp [mem_endingStages]
    rw [hdone, hwriting]
    constructor
    · rintro ⟨hd, m, hm, hw⟩
      exact ⟨⟨hd, m, hm⟩, m, hm, hw⟩
    · rintro ⟨⟨hd, -⟩, m, hm, hw⟩
      exact ⟨hd, m, hm, hw⟩
  case failed => exact failed_mem_stagesOf_logged hc hpath h hcompiles
  case shown =>
    intro hverbose
    refine ⟨warnings (runIn tree a.produce).1, ?_⟩
    rw [runArguments_err, hverbose]
    rfl
  case ending => exact logged_of_code hc hpath h hcompiles

end Generating

structure Refused (a : Arguments) (tree : FileTree) (outcome : Outcome) : Prop where
  stages : stagesOf (a.logged tree) =
    [.idle] ++ if a.command.path = none then [.resolvingPath] else []
  code : outcome.code = 1
  out : outcome.out = ""
  err : a.verbose = true → outcome.err =
    String.join ((a.logged tree).map Event.line) ++
      ("[WARN] " ++ (Failure.pattern PatternEngine.sizeLimit).message ++ "\n")

theorem refused_of_not_compiles (hpath : a.command.path ≠ some ⟨""⟩)
    (h : (runIn tree (Settings.find a.config)).1 = .ok settings)
    (hrefused : ¬ PatternEngine.Compiles settings.factory) :
    Refused a tree (runArguments tree a).2.1 := by
  have hrendering := a.rendering_of_refused h hrefused
  have hr : (runArguments tree a).1 = .error (.pattern PatternEngine.sizeLimit) := by
    rw [runArguments_fst, hrendering]
  rcases runArguments_outcome tree a with ⟨-, hr'⟩ | ⟨hcode, hout, -⟩
  · rw [hr] at hr'
    cases hr'
  · refine ⟨?_, hcode, hout, fun hverbose => ?_⟩
    · rw [a.logged_eq, hrendering, List.append_nil,
        a.stagesOf_renderingEvents_of_refused hpath h hrefused]
    · rw [runArguments_err_of_error hr, hverbose]
      rfl

omit [PatternEngine] in
theorem done_compared_iff {m : Generation} {source : Except AccessError String} :
    .done ∈ stagesOf (compared m source).2 ↔ ∃ m', (compared m source).1 = .ok m' := by
  cases source with
  | error cause => cases cause <;> simp [compared, stagesOf]
  | ok text => by_cases htext : text = m.content <;> simp [compared, htext, stagesOf, Event.stage?]

theorem done_notMem_renderingEvents (hpath : a.command.path ≠ some ⟨""⟩)
    (h : (runIn tree (Settings.find a.config)).1 = .ok settings) :
    .done ∉ stagesOf (a.renderingEvents tree) := by
  have hreached (outcome : Except Failure Generation) : .done ∉ reached outcome := fun hm =>
    absurd ((reached_sublist outcome).subset hm) (by decide)
  by_cases hcompiles : PatternEngine.Compiles settings.factory
  · rw [a.stagesOf_renderingEvents hpath h hcompiles]
    cases a.rendering tree <;>
      simp [mem_openingStages, hreached, failureEvents, stagesOf, Event.stage?]
  · rw [a.stagesOf_renderingEvents_of_refused hpath h hcompiles]
    split_ifs <;> decide

theorem done_check_iff {path : Option Path} {lenient : Bool}
    (hc : a.command = .check path lenient) (hpath : a.command.path ≠ some ⟨""⟩)
    (h : (runIn tree (Settings.find a.config)).1 = .ok settings) :
    .done ∈ stagesOf (a.logged tree) ↔ (runArguments tree a).2.1.code = 0 := by
  have hrendering := done_notMem_renderingEvents hpath h
  rw [runArguments_code_eq_zero_iff, runArguments_fst, a.logged_eq]
  cases a.rendering tree with
  | error reason => simp [hrendering]
  | ok m =>
    simp only [hc, Command.completion, stagesOf_append, List.mem_append, hrendering, false_or,
      done_compared_iff]
    cases (compared m (tree.readText m.output)).1 <;> simp [Except.map]

/-- The stages of a run that generates tell its way through them, up to the reason for a failure,
if the pattern for its factory is compiled; a run that checks is done if and only if it succeeds. -/
theorem parse_traces {args : List String} (hparse : parse args = .ok a)
    (h : (runIn tree (Settings.find a.config)).1 = .ok settings) :
    let stages := stagesOf (a.logged tree)
    let outcome := (run tree args).1
    match a.command with
    | .generate _ _ dryRun _ =>
      (PatternEngine.Compiles settings.factory → Traces a settings tree dryRun stages outcome) ∧
      (¬ PatternEngine.Compiles settings.factory → Refused a tree outcome)
    | .check _ _ => .done ∈ stages ↔ outcome.code = 0 := by
  intro stages outcome
  have hpath := path_ne_empty_of_parse hparse
  have houtcome : outcome = (runArguments tree a).2.1 := by
    simp only [outcome, run, hparse]
  rw [houtcome]
  cases hc : a.command with
  | generate path lenient dryRun json =>
    refine ⟨fun hcompiles => ?_, fun hrefused => refused_of_not_compiles hpath h hrefused⟩
    rw [hc] at hpath
    exact traces_generate hc hpath h hcompiles
  | check path lenient => exact done_check_iff hc hpath h

end Traces

theorem parse_traces_unbacked :
    let args := ["-v", "generate", "troute.ts"]
    let tree := FileTree.holding "troute.ts" "createTroute(\x7b a \x7d)"
    let a : Arguments := ⟨true, none, .generate (some ⟨"troute.ts"⟩) false false false⟩
    let stages := stagesOf (a.logged tree)
    parse args = .ok a ∧ (runIn tree (Settings.find a.config)).1 = .ok {} ∧
      PatternEngine.Compiles ({} : Settings).factory ∧
      (run tree args).1.code = 1 ∧ .resolvingPath ∉ stages ∧ .failed ∈ stages ∧
      ∃ (events : List Event) (reason : Failure),
        (run tree args).1.err = String.join (events.map Event.line) ++
          ("DEBUG Generation failed stage=failed error=" ++ reason.message ++ "\n") ++
          ("[WARN] " ++ reason.message ++ "\n") := by
  intro args tree a stages
  have hparse : parse args = .ok a := by decide +kernel
  have hsettings : (runIn tree (Settings.find a.config)).1 = .ok {} := by decide +kernel
  have hcompiles : PatternEngine.Compiles ({} : Settings).factory := by decide
  have hcode : (run tree args).1.code = 1 := by decide +kernel
  have htraces : Traces a {} tree false stages (run tree args).1 :=
    (parse_traces hparse hsettings).1 hcompiles
  obtain ⟨events, reason, -, -, herr⟩ := htraces.ending hcode
  refine ⟨hparse, hsettings, hcompiles, hcode, fun hm => ?_, htraces.failed.mpr hcode, events,
    reason, herr rfl⟩
  cases htraces.resolvingPath.mp hm

theorem run_long_factory [PatternEngine] {cs : List Char} (hplain : Toml.IsBasicChars cs cs)
    (hrefused : ¬ PatternEngine.Compiles (String.ofList cs)) :
    let tree := FileTree.holding "troute.toml"
      ("[generate]\nfactory = \"" ++ String.ofList cs ++ "\"\n")
    let args := ["-v", "generate"]
    let a : Arguments := ⟨true, none, .generate none false false false⟩
    let stages := stagesOf (a.logged tree)
    parse args = .ok a ∧
      (runIn tree (Settings.find a.config)).1 = .ok { factory := String.ofList cs } ∧
      (run tree args).1.code = 1 ∧ .reading ∉ stages ∧ .failed ∉ stages := by
  intro tree args a stages
  have hparse : parse args = .ok a := by decide +kernel
  have hsettings : (runIn tree (Settings.find a.config)).1 =
      .ok { factory := String.ofList cs } := by
    rw [Settings.find_holding, Settings.ofReading, Settings.parse_factory hplain]
    rfl
  have hends : Refused a tree (runArguments tree a).2.1 :=
    refused_of_not_compiles (Option.some_ne_none _).symm hsettings hrefused
  have hstages : stages = [.idle, .resolvingPath] := hends.stages
  refine ⟨hparse, hsettings, ?_, ?_, ?_⟩
  · simp only [run, hparse]
    exact hends.code
  · rw [hstages]
    decide
  · rw [hstages]
    decide

theorem parse_traces_uncompiled :
    let factory := String.ofList (List.replicate 400000 'a')
    let tree := FileTree.holding "troute.toml" ("[generate]\nfactory = \"" ++ factory ++ "\"\n")
    let args := ["-v", "generate"]
    let a : Arguments := ⟨true, none, .generate none false false false⟩
    let stages := stagesOf (a.logged tree)
    parse args = .ok a ∧
      (runIn tree (Settings.find a.config)).1 = .ok { factory := factory } ∧
      (run tree args).1.code = 1 ∧ .reading ∉ stages ∧ .failed ∉ stages := by
  have hplain : Toml.IsBasicChars (List.replicate 400000 'a') (List.replicate 400000 'a') := by
    apply Toml.isBasicChars_of_plain
    intro c hc
    obtain rfl := List.eq_of_mem_replicate hc
    decide
  have hrefused : ¬ PatternEngine.Compiles (String.ofList (List.replicate 400000 'a')) := by
    apply not_compiles_of_length
    rw [List.length_replicate]
    decide
  exact run_long_factory hplain hrefused

end CommandLine

end ServerActions
