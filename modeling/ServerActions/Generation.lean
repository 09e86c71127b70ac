import ServerActions.ActionsModule
import ServerActions.Declaration.Statement
import ServerActions.PatternEngine
import ServerActions.Resolution
import ServerActions.Workspace

/-!
Generations: what a declaration file makes of the actions module, whether it is only rendered, also
written, or compared with the module that is there.
-/

namespace ServerActions

structure Generation where
  declaration : Path
  output : Path
  entryPoints : EntryPoints
  resolution : Resolution
  extraCalls : Nat
  content : String
  deriving DecidableEq

structure Generator where
  settings : Settings
  strict : Bool
  deriving DecidableEq

namespace Generator

def ofSettings (settings : Settings) : Generator :=
  ⟨settings, settings.strict⟩

def make [PatternEngine] (settings : Settings) : Except Failure Generator :=
  if PatternEngine.Compiles settings.factory then .ok (ofSettings settings)
  else .error (.pattern PatternEngine.sizeLimit)

def lenient (g : Generator) (allow : Bool) : Generator :=
  if allow then { g with strict := false } else g

def produce (g : Generator) (path : Path) (d : Declaration) :
    List Event × Except Failure Generation :=
  let r := resolve d.imports d.entryPoints
  let events :=
    [.extracted d.imports.length d.entryPoints.size d.extraCalls, .resolving] ++
      r.dropped.map .unused
  if g.strict && !r.isFullyBacked then (events, .error (.unbacked r.unbacked))
  else
    (events ++ [.rendering],
      .ok
        { declaration := path
          output := ActionsModule.outputPath g.settings path
          entryPoints := d.entryPoints
          resolution := r
          extraCalls := d.extraCalls
          content := ActionsModule.render g.settings.directive r.imports d.entryPoints })

def evaluate (g : Generator) (path : Path) :
    Except AccessError String → List Event × Except Failure Generation
  | .error .notFound => ([], .error (.declarationNotFound path))
  | .error cause => ([], .error (.access path cause))
  | .ok content =>
    let scanning := .scanning g.settings.factory
    match Declaration.read? g.settings.factory content with
    | none => ([scanning], .error (.factoryNotCalled path g.settings.factory))
    | some d =>
      let (events, outcome) := g.produce path d
      (scanning :: events, outcome)

end Generator

open Workspace

variable {m : Type → Type} [Monad m] [Workspace m]

def makeParent (path : Path) : m (Except Failure Unit) :=
  match path.parent? with
  | none => pure (.ok ())
  | some parent =>
    if parent.text = "" then pure (.ok ())
    else do return (← makeDirectories parent).mapError (.access parent)

def writeModule (path : Path) (content : String) : m (Except Failure Unit) := do
  match ← makeParent path with
  | .error reason => return .error reason
  | .ok () => return (← writeText path content).mapError (.access path)

def readModule (path : Path) : m (Except Failure (Option String)) := do
  match ← readText path with
  | .ok content => return .ok (some content)
  | .error .notFound => return .ok none
  | .error cause => return .error (.access path cause)

namespace Generator

def logFailure {α : Type} : Except Failure α → m Unit
  | .error reason => log (.failed reason)
  | .ok _ => pure ()

def render (g : Generator) (path : Path) : m (Except Failure Generation) := do
  log (.reading path)
  let (events, outcome) := g.evaluate path (← readText path)
  logAll events
  logFailure outcome
  return outcome

def generate (g : Generator) (path : Path) : m (Except Failure Generation) := do
  match ← g.render path with
  | .error reason => return .error reason
  | .ok generation =>
    log (.writing generation.output)
    let outcome ← writeModule generation.output generation.content
    logFailure outcome
    match outcome with
    | .error reason => return .error reason
    | .ok () =>
      log .generated
      return .ok generation

def check (g : Generator) (path : Path) : m (Except Failure Generation) := do
  match ← g.render path with
  | .error reason => return .error reason
  | .ok generation =>
    match ← readModule generation.output with
    | .error reason => return .error reason
    | .ok existing =>
      if existing = some generation.content then
        log (.upToDate generation.output)
        return .ok generation
      else return .error (.stale generation.output)

end Generator

end ServerActions
