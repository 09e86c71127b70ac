import ServerActions.Proofs.CommandLine.Messages
import ServerActions.Proofs.Generation.Writing

/-!
The stages of a run.  All commands look for the settings and the declaration file and render the
same module; only then they differ.
-/

namespace ServerActions

theorem Settings.observes_find (config : Option Path) :
    Observes (Settings.find config : StateM Session (Except Failure Settings)) := by
  have hload (path : Path) : Observes (load path : StateM Session (Except Failure Settings)) :=
    (observes_readText path).bind fun _ => observes_pure _
  cases config with
  | some path => exact hload path
  | none =>
    refine (observes_pathExists fileName).bind fun found => ?_
    split_ifs
    · exact hload fileName
    · exact observes_pure _

theorem observes_findDeclaration (root : Path) (path : Option Path) (settings : Settings) :
    Observes (findDeclaration root path settings : StateM Session Path) := by
  have hdefault : Observes (defaultDeclaration root settings : StateM Session Path) := by
    refine (observes_log _).bind fun _ => (observes_pathExists _).bind fun found => ?_
    split_ifs <;> exact observes_pure _
  cases path with
  | none => exact hdefault
  | some p =>
    rw [findDeclaration]
    split_ifs
    · exact hdefault
    · exact observes_pure _

namespace CommandLine

open Workspace

def Command.path : Command → Option Path
  | generate path _ _ _ => path
  | check path _ => path

def Command.lenient : Command → Bool
  | generate _ lenient _ _ => lenient
  | check _ lenient => lenient

def Command.complete (m : Generation) : Command → StateM Session (Except Failure Generation)
  | .generate _ _ true _ => return .ok m
  | .generate _ _ false _ => Generator.writing m
  | .check _ _ => Generator.comparing m

def Command.output (m : Generation) : Command → String
  | .generate _ _ dryRun json => generateOutput m dryRun json
  | .check _ _ => checkOutput m

theorem Command.logs_complete (c : Command) (m : Generation) : Logs (c.complete m) := by
  cases c with
  | generate path lenient dryRun json =>
    cases dryRun
    · exact Generator.logs_writing m
    · exact (observes_pure _).logs
  | check path lenient => exact (Generator.observes_comparing m).logs

def Command.completion (tree : FileTree) (m : Generation) :
    Command → Except Failure Generation × List Event
  | .generate _ _ true _ => (.ok m, [])
  | .generate _ _ false _ =>
    let written := (runIn tree (writeModule m.output m.content)).1
    (written.map fun _ => m, [.writing m.output] ++ Generator.writingEvents written)
  | .check _ _ => Generator.compared m (tree.readText m.output)

theorem Command.complete_cases (c : Command) (m : Generation) (s : Session) :
    (c.complete m s).1 = (c.completion s.tree m).1 ∧
      (c.complete m s).2.events = s.events ++ (c.completion s.tree m).2 := by
  cases c with
  | generate path lenient dryRun json =>
    cases dryRun
    · rw [complete, Generator.writing_apply]
      exact ⟨rfl, Session.events_logged _ _⟩
    · exact ⟨rfl, (List.append_nil _).symm⟩
  | check path lenient =>
    rw [complete, Generator.comparing_apply]
    exact ⟨rfl, Session.events_logged _ _⟩

theorem Command.completion_eq_ok {c : Command} {tree : FileTree} {m m' : Generation}
    (h : (c.completion tree m).1 = .ok m') : m' = m := by
  cases c with
  | generate path lenient dryRun json =>
    cases dryRun
    · obtain ⟨_, -, rfl⟩ := map_eq_ok_iff.mp h
      rfl
    · exact (Except.ok.inj h).symm
  | check path lenient => exact (Generator.compared_eq_ok_iff.mp h).2

variable [PatternEngine]

def Arguments.prepareWith (a : Arguments) :
    Except Failure Settings → StateM Session (Except Failure Generation)
  | .error reason => return .error reason
  | .ok settings => do
    let declaration ← findDeclaration ⟨""⟩ a.command.path settings
    match Generator.make settings with
    | .error reason => return .error reason
    | .ok g => (g.lenient a.command.lenient).render declaration

def Arguments.prepare (a : Arguments) : StateM Session (Except Failure Generation) := do
  log .started
  a.prepareWith (← Settings.find a.config)

theorem Arguments.observes_prepareWith (a : Arguments) (found : Except Failure Settings) :
    Observes (a.prepareWith found) := by
  cases found with
  | error reason => exact observes_pure _
  | ok settings =>
    refine (observes_findDeclaration _ _ _).bind fun _ => ?_
    cases Generator.make settings with
    | error reason => exact observes_pure _
    | ok g => exact Generator.observes_render _ _

theorem Arguments.observes_prepare (a : Arguments) : Observes a.prepare :=
  (observes_log _).bind fun _ => (Settings.observes_find a.config).bind a.observes_prepareWith

def Arguments.completed (a : Arguments) :
    Except Failure Generation → StateM Session (Except Failure Generation)
  | .error reason => return .error reason
  | .ok m => a.command.complete m

def Arguments.produce (a : Arguments) : StateM Session (Except Failure Generation) := do
  a.completed (← a.prepare)

omit [PatternEngine] in
theorem Arguments.logs_completed (a : Arguments) (rendering : Except Failure Generation) :
    Logs (a.completed rendering) := by
  cases rendering with
  | error reason => exact (observes_pure _).logs
  | ok m => exact a.command.logs_complete m

theorem Arguments.logs_produce (a : Arguments) : Logs a.produce :=
  a.observes_prepare.logs.bind a.logs_completed

omit [PatternEngine] in
theorem bind_announce_apply {output : Generation → String}
    {made rendering : StateM Session (Except Failure Generation)}
    {rest : Generation → StateM Session (Except Failure Generation)} {s : Session}
    (h : made s =
      match rendering s with
      | (.error reason, s') => (.error reason, s')
      | (.ok m, s') => rest m s') :
    (made >>= announce output) s =
      match rendering s with
      | (.error reason, s') => (.error reason, s')
      | (.ok m, s') => (rest m >>= announce output) s' := by
  rw [bind_apply, h]
  rcases rendering s with ⟨reason | m, s'⟩ <;> rfl

theorem Command.perform_apply (settings : Settings) (c : Command) (s : Session) :
    (c.perform settings : StateM Session (Except Failure Unit)) s =
      let found := (findDeclaration ⟨""⟩ c.path settings : StateM Session Path) s
      match Generator.make settings with
      | .error reason => (.error reason, found.2)
      | .ok g =>
        match ((g.lenient c.lenient).render found.1 :
          StateM Session (Except Failure Generation)) found.2 with
        | (.error reason, s') => (.error reason, s')
        | (.ok m, s') => (c.complete m >>= announce c.output) s' := by
  cases c with
  | generate path lenient dryRun json =>
    rw [perform, bind_apply]
    simp only [Command.path, Command.lenient]
    generalize (findDeclaration ⟨""⟩ path settings : StateM Session Path) s = found
    cases Generator.make settings with
    | error reason => rfl
    | ok g =>
      cases dryRun
      · exact bind_announce_apply (Generator.generate_apply _ _ _)
      · refine bind_announce_apply ?_
        rcases (Generator.render _ found.1 : StateM Session (Except Failure Generation)) found.2
          with ⟨reason | m, s'⟩ <;> rfl
  | check path lenient =>
    rw [perform, bind_apply]
    simp only [Command.path, Command.lenient]
    cases Generator.make settings with
    | error reason => rfl
    | ok g => exact bind_announce_apply (Generator.check_apply _ _ _)

theorem Arguments.perform_apply (a : Arguments) (s : Session) :
    (a.perform : StateM Session (Except Failure Unit)) s =
      (a.produce >>= announce a.command.output) s := by
  simp only [perform, produce, prepare, bind_apply]
  generalize (Settings.find a.config : StateM Session (Except Failure Settings))
    ((log .started : StateM Session Unit) s).2 = found
  rcases found with ⟨reason | settings, s'⟩
  · rfl
  · simp only [Command.perform_apply, prepareWith, bind_apply]
    generalize (findDeclaration ⟨""⟩ a.command.path settings : StateM Session Path) s' = source
    cases Generator.make settings with
    | error reason => rfl
    | ok g =>
      simp only
      rcases ((g.lenient a.command.lenient).render source.1 :
        StateM Session (Except Failure Generation)) source.2 with ⟨reason | m, s''⟩ <;> rfl

variable (a : Arguments) (tree : FileTree)

def Arguments.rendering : Except Failure Generation :=
  (runIn tree a.prepare).1

def Arguments.renderingEvents : List Event :=
  (runIn tree a.prepare).2.events

theorem Arguments.rendering_eq :
    a.rendering tree =
      match (runIn tree (Settings.find a.config)).1 with
      | .error reason => .error reason
      | .ok settings =>
        let declaration := (runIn tree (findDeclaration ⟨""⟩ a.command.path settings)).1
        match Generator.make settings with
        | .error reason => .error reason
        | .ok g =>
          ((g.lenient a.command.lenient).evaluate declaration (tree.readText declaration)).2 := by
  have hfind := (Settings.observes_find a.config).bind a.observes_prepareWith
  rw [rendering, prepare, (observes_log _).runIn_bind_fst fun _ => hfind,
    (Settings.observes_find a.config).runIn_bind_fst a.observes_prepareWith]
  cases (runIn tree (Settings.find a.config)).1 with
  | error reason => rfl
  | ok settings =>
    dsimp only
    cases hmake : Generator.make settings with
    | error reason =>
      simp only [prepareWith, hmake]
      rw [(observes_findDeclaration _ _ _).runIn_bind_fst fun _ => observes_pure _]
      rfl
    | ok g =>
      simp only [prepareWith, hmake]
      rw [(observes_findDeclaration _ _ _).runIn_bind_fst fun declaration =>
        Generator.observes_render _ declaration, runIn, Generator.render_fst]

theorem Arguments.runIn_produce :
    runIn tree a.produce =
      let s : Session := Session.logged ⟨tree, []⟩ (a.renderingEvents tree)
      match a.rendering tree with
      | .error reason => (.error reason, s)
      | .ok m => a.command.complete m s := by
  have hprepare : a.prepare ⟨tree, []⟩ =
      (a.rendering tree, Session.logged ⟨tree, []⟩ (a.renderingEvents tree)) :=
    a.observes_prepare.apply ⟨tree, []⟩
  rw [runIn, produce, bind_apply, hprepare]
  dsimp only
  cases a.rendering tree <;> rfl

theorem Arguments.runIn_execute :
    runIn tree a.execute =
      let made := runIn tree a.produce
      (made.1.map fun _ => (),
        ⟨made.2.tree, made.2.events.map .event ++ closing a.command.output made.1⟩) := by
  have hmessages : (runIn tree a.produce).2.messages =
      (runIn tree a.produce).2.events.map .event :=
    congrArg (·.2.messages) (a.logs_produce.runIn_eq tree)
  have hexecute : runIn tree a.execute =
      (announce a.command.output (runIn tree a.produce).1 >>= fun result => do
        warnFailure result
        return result : StateM Session (Except Failure Unit)) (runIn tree a.produce).2 := by
    rw [runIn, execute, bind_apply, perform_apply]
    rfl
  rw [hexecute, announce_apply, hmessages]

theorem Arguments.events_execute :
    (runIn tree a.execute).2.events = (runIn tree a.produce).2.events := by
  rw [runIn_execute]
  dsimp only
  rw [Session.events, List.filterMap_append, Session.event?_map, events_closing, List.append_nil]

theorem Arguments.produce_fst :
    (runIn tree a.produce).1 =
      match a.rendering tree with
      | .error reason => .error reason
      | .ok m => (a.command.completion tree m).1 := by
  rw [runIn_produce]
  cases a.rendering tree with
  | error reason => rfl
  | ok m => exact (a.command.complete_cases m _).1

theorem Arguments.events_produce :
    (runIn tree a.produce).2.events =
      a.renderingEvents tree ++
        match a.rendering tree with
        | .error _ => []
        | .ok m => (a.command.completion tree m).2 := by
  rw [runIn_produce]
  cases a.rendering tree with
  | error reason =>
    rw [List.append_nil]
    exact Session.events_logged _ _
  | ok m =>
    dsimp only
    rw [(a.command.complete_cases m _).2, Session.events_logged]
    rfl

theorem runArguments_eq :
    runArguments tree a =
      let made := runIn tree a.produce
      let result := made.1.map fun _ => ()
      (result,
        ⟨exitCode result, printed a.command.output made.1,
          traceText a.verbose made.2.events ++ warnings made.1⟩,
        made.2.tree) := by
  rw [runArguments, a.runIn_execute]
  simp only [errText_append, errText_events, errText_closing, outText_append, outText_events,
    outText_closing, String.empty_append]

theorem runArguments_fst :
    (runArguments tree a).1 =
      match a.rendering tree with
      | .error reason => .error reason
      | .ok m => (a.command.completion tree m).1.map fun _ => () := by
  rw [runArguments_eq]
  dsimp only
  rw [a.produce_fst]
  cases a.rendering tree <;> rfl

end CommandLine

end ServerActions
