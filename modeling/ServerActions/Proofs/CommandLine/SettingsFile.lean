import ServerActions.Proofs.CommandLine.Simulation
import ServerActions.Proofs.CommandLine.Stages
import ServerActions.Proofs.FileTree.Passing
import ServerActions.Proofs.Toml.Documents

namespace ServerActions

open Workspace

inductive Access
  | probe (path : Path)
  | read (path : Path)
  | makeDirectories (path : Path)
  | write (path : Path)
  deriving DecidableEq

structure Recorded where
  session : Session
  accesses : List Access

namespace Recorded

variable {α β : Type}

def asking (access : Access) (x : StateM Session α) : StateM Recorded α := fun r =>
  ((x r.session).1, ⟨(x r.session).2, r.accesses ++ [access]⟩)

def silently (x : StateM Session α) : StateM Recorded α := fun r =>
  ((x r.session).1, ⟨(x r.session).2, r.accesses⟩)

instance : Workspace (StateM Recorded) where
  pathExists p := asking (.probe p) (pathExists p)
  readText p := asking (.read p) (readText p)
  makeDirectories p := asking (.makeDirectories p) (makeDirectories p)
  writeText p text := asking (.write p) (writeText p text)
  log e := silently (log e)
  warn text := silently (warn text)
  print text := silently (print text)

def Records (x : StateM Session α) (y : StateM Recorded α) : Prop :=
  ∀ r, (y r).1 = (x r.session).1 ∧ (y r).2.session = (x r.session).2

theorem bind_apply (x : StateM Recorded α) (f : α → StateM Recorded β) (r : Recorded) :
    (x >>= f) r = f (x r).1 (x r).2 :=
  rfl

theorem Records.bind {x : StateM Session α} {y : StateM Recorded α} {f : α → StateM Session β}
    {g : α → StateM Recorded β} (h : Records x y) (hf : ∀ a, Records (f a) (g a)) :
    Records (x >>= f) (y >>= g) := by
  intro r
  rw [bind_apply, ServerActions.bind_apply, ← (h r).1, ← (h r).2]
  exact hf _ _

theorem records_asking (access : Access) (x : StateM Session α) : Records x (asking access x) :=
  fun _ => ⟨rfl, rfl⟩

theorem simulates_records : Simulates @Records where
  pure _ _ := ⟨rfl, rfl⟩
  bind := Records.bind
  pathExists _ := records_asking _ _
  readText _ := records_asking _ _
  makeDirectories _ := records_asking _ _
  writeText _ _ := records_asking _ _
  log _ _ := ⟨rfl, rfl⟩
  warn _ _ := ⟨rfl, rfl⟩
  print _ _ := ⟨rfl, rfl⟩

end Recorded

namespace FileTree

theorem pathExists_settingsFile (tree : FileTree) :
    tree.pathExists Settings.fileName = true ↔
      tree.get? ("troute.toml" :: tree.workingDirectory) ≠ none := by
  rw [pathExists_iff]
  constructor
  · rintro ⟨e, he⟩ hn
    have hg := get?_target_of_find he
    rw [show tree.target Settings.fileName = "troute.toml" :: tree.workingDirectory from rfl, hn]
      at hg
    cases hg
  · intro hn
    obtain ⟨e, he⟩ := Option.ne_none_iff_exists'.mp hn
    exact ⟨e, find_of_steps rfl rfl rfl rfl rfl (by decide) he⟩

end FileTree

namespace Settings

theorem parse_nothing : parse "" = .ok {} := by
  have hread : Toml.read? (String.ofList []) = some (.table none .header []) :=
    Toml.read_void (.void .nil .none)
  rw [parse, show "" = String.ofList [] from rfl, hread]
  rfl

theorem find_apply {config : Option Path} (s : Session) :
    (find config : StateM Session (Except Failure Settings)) s =
      (match config with
      | some path => ofReading path (s.tree.readText path)
      | none =>
        if s.tree.pathExists fileName = true then ofReading fileName (s.tree.readText fileName)
        else .ok {}, s) := by
  cases config with
  | some path => rfl
  | none =>
    have hfind : (find none : StateM Session (Except Failure Settings)) s =
        (if s.tree.pathExists fileName = true then load fileName else pure (.ok {}) :
          StateM Session (Except Failure Settings)) s := rfl
    rw [hfind]
    split_ifs <;> rfl

theorem find_holding (text : String) :
    (runIn (FileTree.holding "troute.toml" text) (find none)).1 =
      ofReading fileName (.ok text) := by
  have hentry : (FileTree.holding "troute.toml" text).get? ["troute.toml", "project"] =
      some (.file text.toUTF8) :=
    (FileTree.get?_place _ _ _ _ _ _ _).trans (if_pos rfl)
  have hexists : (FileTree.holding "troute.toml" text).pathExists fileName = true := by
    apply (FileTree.pathExists_settingsFile _).mpr
    exact ne_of_eq_of_ne hentry (Option.some_ne_none _)
  have hread : (FileTree.holding "troute.toml" text).readText fileName = .ok text :=
    FileTree.readText_holding rfl rfl rfl rfl rfl (by decide)
  rw [runIn, find_apply]
  dsimp only
  rw [if_pos hexists, hread]

end Settings

namespace CommandLine

section Runs

variable [PatternEngine] {a : Arguments} {tree : FileTree} {path : Path}

def Arguments.accesses (a : Arguments) (tree : FileTree) : List Access :=
  ((a.execute : StateM Recorded (Except Failure Unit)) ⟨⟨tree, []⟩, []⟩).2.accesses

theorem Arguments.recorded_execute (a : Arguments) (tree : FileTree) :
    (a.execute : StateM Recorded (Except Failure Unit)) ⟨⟨tree, []⟩, []⟩ =
      ((runIn tree a.execute).1, ⟨(runIn tree a.execute).2, a.accesses tree⟩) := by
  obtain ⟨hresult, hsession⟩ := Recorded.simulates_records.execute a ⟨⟨tree, []⟩, []⟩
  rw [runIn, ← hresult, ← hsession]
  rfl

theorem runArguments_congr {verbose : Bool} {config config' : Option Path} {command : Command}
    (h : ∀ s : Session, s.tree = tree →
      (Settings.find config : StateM Session (Except Failure Settings)) s =
        (Settings.find config' : StateM Session (Except Failure Settings)) s) :
    runArguments tree ⟨verbose, config, command⟩ =
      runArguments tree ⟨verbose, config', command⟩ := by
  have hexecute : runIn tree (Arguments.execute ⟨verbose, config, command⟩) =
      runIn tree (Arguments.execute ⟨verbose, config', command⟩) := by
    simp only [runIn, Arguments.execute, Arguments.perform, bind_apply]
    rw [h _ rfl]
  rw [runArguments, runArguments, hexecute]

theorem runArguments_fileName (h : tree.pathExists Settings.fileName = true) (verbose : Bool)
    (command : Command) :
    runArguments tree ⟨verbose, some Settings.fileName, command⟩ =
      runArguments tree ⟨verbose, none, command⟩ := by
  apply runArguments_congr
  rintro s rfl
  rw [Settings.find_apply, Settings.find_apply]
  simp only [h, if_true]

theorem runArguments_missing (hconfig : a.config = some path)
    (hread : tree.readText path = .error .notFound) :
    runArguments tree a =
      (.error (.settingsNotFound path),
        ⟨1, "", traceText a.verbose [.started] ++
          warningLine (Failure.settingsNotFound path).message⟩, tree) := by
  have hproduce : runIn tree a.produce =
      (.error (.settingsNotFound path), Session.logged ⟨tree, []⟩ [.started]) := by
    rw [runIn, Arguments.produce, Arguments.prepare, bind_apply, bind_apply, Session.log_apply,
      bind_apply, Settings.find_apply, hconfig]
    simp only [Session.tree_logged, hread]
    rfl
  rw [runArguments_eq, hproduce]
  simp only [Session.events_logged]
  rfl

theorem accesses_missing (hconfig : a.config = some path)
    (hread : tree.readText path = .error .notFound) : a.accesses tree = [.read path] := by
  have hload (r : Recorded) (h : r.session.tree = tree) :
      (Settings.find a.config : StateM Recorded (Except Failure Settings)) r =
        (.error (.settingsNotFound path), ⟨r.session, r.accesses ++ [.read path]⟩) := by
    have happly : (Settings.find (some path) : StateM Recorded (Except Failure Settings)) r =
        (Settings.ofReading path (r.session.tree.readText path),
          ⟨r.session, r.accesses ++ [.read path]⟩) := rfl
    rw [hconfig, happly, h, hread]
    rfl
  simp only [Arguments.accesses, Arguments.execute, Arguments.perform, Recorded.bind_apply]
  rw [hload _ rfl]
  rfl

/-- Only the settings file that is not named can be missing.  If `troute.toml` is there, a run that
names it does what the run does that names none; if it is not, the settings are those of an empty
document.  A run that names a file that is not there fails for this reason, after it has asked for
that file only. -/
theorem run_settingsFile (tree : FileTree) :
    (tree.get? ("troute.toml" :: tree.workingDirectory) ≠ none →
      ∀ verbose command args args', parse args = .ok ⟨verbose, none, command⟩ →
        parse args' = .ok ⟨verbose, some ⟨"troute.toml"⟩, command⟩ →
          run tree args' = run tree args) ∧
    (tree.get? ("troute.toml" :: tree.workingDirectory) = none →
      ∃ settings, (runIn tree (Settings.find none)).1 = .ok settings ∧
        Settings.parse "" = .ok settings) ∧
    ∀ args a path, parse args = .ok a → a.config = some path →
      tree.readText path = .error .notFound →
        (runArguments tree a).1 = .error (.settingsNotFound path) ∧
        a.accesses tree = [.read path] ∧
        run tree args =
          (⟨1, "", traceText a.verbose [.started] ++
            ("[WARN] Config file not found at " ++ path.text ++ "\n")⟩, tree) := by
  refine ⟨?_, ?_, ?_⟩
  · intro hentry verbose command args args' hargs hargs'
    have hexists := tree.pathExists_settingsFile.mpr hentry
    simp only [run, hargs, hargs']
    rw [← runArguments_fileName hexists]
    rfl
  · intro hentry
    have hexists : ¬ tree.pathExists Settings.fileName = true := fun h =>
      tree.pathExists_settingsFile.mp h hentry
    refine ⟨{}, ?_, Settings.parse_nothing⟩
    rw [runIn, Settings.find_apply]
    simp only [if_neg hexists]
  · intro args a path hargs hconfig hread
    have hrun := runArguments_missing hconfig hread
    have hline : warningLine (Failure.settingsNotFound path).message =
        "[WARN] Config file not found at " ++ path.text ++ "\n" := by
      have hmessage : (Failure.settingsNotFound path).message =
          "Config file not found at " ++ path.text := rfl
      rw [hmessage, warningLine, ← String.append_assoc]
      simp
    refine ⟨by rw [hrun], accesses_missing hconfig hread, ?_⟩
    simp only [run, hargs, hrun, hline]

end Runs

theorem run_settingsFile_mistyped :
    let tree := FileTree.holding "troute.toml" "generate = 1"
    let missing := FileTree.holding "troute.ts" ""
    run tree ["check", "--config=troute.toml"] = run tree ["check"] ∧
      (run missing ["--config", "troute.toml", "generate"]).2 = missing ∧
      ∃ settings, (runIn missing (Settings.find none)).1 = .ok settings ∧
        Settings.parse "" = .ok settings := by
  intro tree missing
  have hentry : tree.get? ("troute.toml" :: tree.workingDirectory) ≠ none := by
    decide +kernel
  have hnone : missing.get? ("troute.toml" :: missing.workingDirectory) = none := by
    decide +kernel
  have hread : missing.readText ⟨"troute.toml"⟩ = .error .notFound := by
    decide +kernel
  obtain ⟨hnamed, -, -⟩ := run_settingsFile tree
  obtain ⟨-, hdefault, hmissing⟩ := run_settingsFile missing
  refine ⟨?_, ?_, hdefault hnone⟩
  · apply hnamed hentry false (.check none false) <;> decide +kernel
  · have hparse : parse ["--config", "troute.toml", "generate"] =
        .ok ⟨false, some ⟨"troute.toml"⟩, .generate none false false false⟩ := by
      decide +kernel
    rw [(hmissing _ _ _ hparse rfl hread).2.2]

end CommandLine

end ServerActions
