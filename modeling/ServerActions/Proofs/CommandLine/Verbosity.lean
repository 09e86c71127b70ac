import ServerActions.Proofs.CommandLine.Simulation
import ServerActions.Proofs.CommandLine.Stages

namespace ServerActions

open Workspace

structure Terminal where
  tree : FileTree
  out : String
  err : String

abbrev AtTerminal := ReaderT Bool (StateM Terminal)

namespace Terminal

def say (m : Message) : AtTerminal Unit := fun verbose t =>
  ((), { t with out := t.out ++ m.out, err := t.err ++ m.err verbose })

instance : Workspace AtTerminal where
  pathExists p := fun _ t => (t.tree.pathExists p, t)
  readText p := fun _ t => (t.tree.readText p, t)
  makeDirectories p := fun _ t =>
    let (outcome, tree) := t.tree.makeDirectories p
    (outcome, { t with tree })
  writeText p text := fun _ t =>
    match t.tree.writeBytes p text.toUTF8 with
    | .ok tree => (.ok (), { t with tree })
    | .error cause => (.error cause, t)
  log e := say (.event e)
  warn text := say (.warning text)
  print text := say (.output text)

end Terminal

namespace CommandLine

variable {α β : Type}

def shown (verbose : Bool) (s : Session) : Terminal :=
  ⟨s.tree, outText s.messages, errText verbose s.messages⟩

def Shows (x : StateM Session α) (y : AtTerminal α) : Prop :=
  ∀ verbose s, y verbose (shown verbose s) = ((x s).1, shown verbose (x s).2)

theorem Shows.bind {x : StateM Session α} {y : AtTerminal α} {f : α → StateM Session β}
    {g : α → AtTerminal β} (h : Shows x y) (hf : ∀ a, Shows (f a) (g a)) :
    Shows (x >>= f) (y >>= g) := by
  intro verbose s
  have hy : (y >>= g) verbose (shown verbose s) =
      g (y verbose (shown verbose s)).1 verbose (y verbose (shown verbose s)).2 := rfl
  rw [hy, h verbose s, hf (x s).1 verbose (x s).2]
  rfl

theorem shows_say (m : Message) : Shows (Session.say m) (Terminal.say m) := by
  intro verbose s
  have herr : errText verbose (s.messages ++ [m]) =
      errText verbose s.messages ++ m.err verbose := by
    simp [errText]
  have hout : outText (s.messages ++ [m]) = outText s.messages ++ m.out := by
    simp [outText]
  rw [Session.say_apply]
  simp only [shown, herr, hout]
  rfl

theorem shows_writeText (p : Path) (text : String) :
    Shows (writeText p text) (writeText p text) := by
  intro verbose s
  have hterminal : (writeText p text : AtTerminal (Except AccessError Unit)) verbose
      (shown verbose s) =
        match s.tree.writeBytes p text.toUTF8 with
        | .ok tree => (.ok (), { shown verbose s with tree })
        | .error cause => (.error cause, shown verbose s) := rfl
  rw [hterminal, writeText_apply]
  cases s.tree.writeBytes p text.toUTF8 <;> rfl

theorem simulates_shows : Simulates @Shows where
  pure _ _ _ := rfl
  bind := Shows.bind
  pathExists _ _ _ := rfl
  readText _ _ _ := rfl
  makeDirectories _ _ _ := rfl
  writeText := shows_writeText
  log e := shows_say (.event e)
  warn text := shows_say (.warning text)
  print text := shows_say (.output text)

variable [PatternEngine]

def Arguments.watch (a : Arguments) (tree : FileTree) : Outcome × FileTree :=
  let (result, terminal) :=
    (a.execute : AtTerminal (Except Failure Unit)) a.verbose ⟨tree, "", ""⟩
  (⟨exitCode result, terminal.out, terminal.err⟩, terminal.tree)

theorem watch_eq_runArguments (a : Arguments) (tree : FileTree) :
    a.watch tree = (runArguments tree a).2 := by
  have hstart : (⟨tree, "", ""⟩ : Terminal) = shown a.verbose ⟨tree, []⟩ := rfl
  rw [Arguments.watch, hstart, simulates_shows.execute a]
  rfl

theorem exists_events_produce (a : Arguments) (tree : FileTree) :
    ∃ events, (runIn tree a.produce).2.events = .started :: events := by
  have hfind := (Settings.observes_find a.config).bind a.observes_prepareWith
  rw [Arguments.produce, events_runIn_bind tree a.prepare a.logs_completed, Arguments.prepare,
    events_runIn_bind tree _ fun _ => hfind.logs]
  exact ⟨_, rfl⟩

omit [PatternEngine] in
theorem Event.exists_line (e : Event) : ∃ text, e.line = "DEBUG " ++ text ++ "\n" := by
  have hline (message fields : String) :
      "DEBUG " ++ message ++ fields ++ "\n" = "DEBUG " ++ (message ++ fields) ++ "\n" := by
    simp only [String.append_assoc]
  exact ⟨_, hline _ _⟩

/-- A verbose run ends like a quiet one: with the same code, output and tree, and with the same
warnings behind the lines of its trace.  A terminal shows them in this order. -/
theorem verbose_run (tree : FileTree) (config : Option Path) (command : Command) :
    let loud := (runArguments tree ⟨true, config, command⟩).2
    let quiet := (runArguments tree ⟨false, config, command⟩).2
    loud.1.code = quiet.1.code ∧ loud.1.out = quiet.1.out ∧ loud.2 = quiet.2 ∧
    (∃ lines : List String, lines.head? = some Event.started.line ∧
      (∀ line ∈ lines, ∃ text, line = "DEBUG " ++ text ++ "\n") ∧
      loud.1.err = String.join lines ++ quiet.1.err) ∧
    Arguments.watch ⟨true, config, command⟩ tree = loud ∧
    Arguments.watch ⟨false, config, command⟩ tree = quiet := by
  intro loud quiet
  obtain ⟨events, he⟩ := exists_events_produce ⟨true, config, command⟩ tree
  refine ⟨rfl, rfl, rfl, ⟨(Event.started :: events).map Event.line, rfl, ?_, ?_⟩,
    watch_eq_runArguments _ tree, watch_eq_runArguments _ tree⟩
  · intro line hline
    obtain ⟨e, -, rfl⟩ := List.mem_map.mp hline
    exact Event.exists_line e
  · have hsame : Arguments.produce ⟨false, config, command⟩ =
        Arguments.produce ⟨true, config, command⟩ := rfl
    simp only [loud, quiet, runArguments_eq, hsame, he]
    rw [traceText, traceText, if_pos rfl, if_neg Bool.false_ne_true, String.empty_append]

end CommandLine

end ServerActions
