import ServerActions.Settings.Document
import ServerActions.Workspace

namespace ServerActions.Settings

open Workspace

variable {m : Type → Type} [Monad m] [Workspace m]

def fileName : Path := ⟨"troute.toml"⟩

def ofReading (path : Path) : Except AccessError String → Except Failure Settings
  | .error .notFound => .error (.settingsNotFound path)
  | .error cause => .error (.access path cause)
  | .ok text => (parse text).mapError (.settings path)

def load (path : Path) : m (Except Failure Settings) := do
  return ofReading path (← readText path)

def loadOrDefault (path : Path) : m (Except Failure Settings) := do
  if ← pathExists path then load path else return .ok {}

def find : Option Path → m (Except Failure Settings)
  | some path => load path
  | none => loadOrDefault fileName

end ServerActions.Settings
